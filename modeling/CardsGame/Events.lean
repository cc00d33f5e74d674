import CardsGame.PlayScene
import CardsGame.Runs

/-!
# The events of a running scene

A scene that has been set up reacts to touches, frames, pause toggles, its own
delayed blocks and accelerometer samples, one at a time, while SpriteKit applies the
queued actions of its nodes. `Occurs` is all that the main queue promises;
`OnScreen` adds what SpriteKit is trusted with.
-/
namespace CardsGame

open Swift SpriteKit

inductive Event where
  | touch (nod : Nat)
  | frame (currentTime : ℚ)
  | togglePause (now later : ℚ)
  | fire (b : Block)
  | accelerometer (data : Option Point)
  /-- SpriteKit applies the queued actions of a node. -/
  | evaluateActions (n : Nat)
  /-- The view has gone over to a scene that was presented. -/
  | leave
  deriving DecidableEq

namespace PlayScene

def evaluateActions (n : Nat) (s : PlayScene) : PlayScene :=
  { s with node := Function.update s.node n (s.node n).evaluate }

def step (s : PlayScene) : Event → Checked PlayScene
  | .touch nod => processItemTouch nod s
  | .frame currentTime => update currentTime s
  | .togglePause now later => togglePause now later s
  | .fire b => runBlock b.kind { s with pending := s.pending.erase b }
  | .accelerometer data => .ok (accelerometerHandler data s)
  | .evaluateActions n => .ok (evaluateActions n s)
  | .leave => .ok { s with view := none }

/-- A block fires at most once and only after it was scheduled; only nodes of the
scene have their actions evaluated. -/
def Occurs (s : PlayScene) : Event → Prop
  | .fire b => b ∈ s.pending
  | .evaluateActions n => n ∈ s.children
  | .leave => s.presented ≠ []
  | .touch _ | .frame _ | .togglePause _ _ | .accelerometer _ => True

/-- Only nodes that are not hidden are touched, and a block fires only after the
actions that were started before it was scheduled have been applied. -/
def OnScreen (s : PlayScene) (e : Event) : Prop :=
  Occurs s e ∧ match e with
    | .touch nod => nod ∈ s.children ∧ (s.node nod).isHidden = false
    | .fire b => ∀ n ∈ s.children, ∀ a ∈ (s.node n).actions, b.after ≤ a.ordinal
    | _ => True

instance (s : PlayScene) (e : Event) : Decidable (Occurs s e) :=
  match e with
  | .fire b => inferInstanceAs (Decidable (b ∈ s.pending))
  | .evaluateActions n => inferInstanceAs (Decidable (n ∈ s.children))
  | .leave => inferInstanceAs (Decidable (s.presented ≠ []))
  | .touch _ | .frame _ | .togglePause _ _ | .accelerometer _ => .isTrue trivial

instance (s : PlayScene) (e : Event) : Decidable (OnScreen s e) :=
  match e with
  | .touch nod =>
    inferInstanceAs (Decidable (Occurs s (.touch nod) ∧ nod ∈ s.children ∧
      (s.node nod).isHidden = false))
  | .fire b =>
    inferInstanceAs (Decidable (Occurs s (.fire b) ∧
      ∀ n ∈ s.children, ∀ a ∈ (s.node n).actions, b.after ≤ a.ordinal))
  | .frame _ | .togglePause _ _ | .accelerometer _ | .evaluateActions _ | .leave =>
    inferInstanceAs (Decidable (Occurs s _ ∧ True))

theorem OnScreen.occurs {s : PlayScene} {e : Event} (h : OnScreen s e) : Occurs s e := h.1

/-- The store with a new text in the label, if there is one. -/
def retext (label : Option Nat) (text : String) (node : Nat → Node) : Nat → Node :=
  match label with
  | some n => Function.update node n { node n with text := text }
  | none => node

theorem setText_eq (label : Option Nat) (text : String) (s : PlayScene) :
    s.setText label text = { s with node := retext label text s.node } := by
  cases label <;> rfl

theorem retext_of_ne {label : Option Nat} {n : Nat} (h : label ≠ some n) (text : String)
    (node : Nat → Node) : retext label text node n = node n := by
  cases label with
  | none => rfl
  | some m =>
    have hne : n ≠ m := by
      intro heq
      exact h (congrArg some heq.symm)
    exact Function.update_of_ne hne _ _

@[simp] theorem fixed_retext (label : Option Nat) (text : String) (node : Nat → Node) (n : Nat) :
    (retext label text node n).fixed = (node n).fixed := by
  cases label with
  | none => rfl
  | some m =>
    by_cases h : n = m
    · subst h
      simp only [retext, Function.update_self]
      rfl
    · rw [retext_of_ne (fun heq => h (Option.some.inj heq).symm)]

@[simp] theorem settled_retext (label : Option Nat) (text : String) (node : Nat → Node) (n : Nat) :
    (retext label text node n).settled = (node n).settled := by
  cases label with
  | none => rfl
  | some m =>
    by_cases h : n = m
    · subst h
      simp only [retext, Function.update_self]
      rfl
    · rw [retext_of_ne (fun heq => h (Option.some.inj heq).symm)]

theorem still_retext {label : Option Nat} {n : Nat} {node : Nat → Node} (text : String)
    (h : (node n).Still) : (retext label text node n).Still := by
  cases label with
  | none => exact h
  | some m =>
    by_cases hn : n = m
    · subst hn
      simp only [retext, Function.update_self]
      exact h
    · rwa [retext_of_ne fun heq => hn (Option.some.inj heq).symm]

/-- The score that `UpdateScore` computes. -/
def scoreFor (s : PlayScene) (difficulty : Int) (timer : ℚ) : Int :=
  s.matchesCount * (difficulty + 1) * 5 - s.tryCount + truncate timer

def scored (difficulty : Int) (timer : ℚ) (s : PlayScene) : PlayScene :=
  { s with
    score := s.scoreFor difficulty timer
    node := retext s.scoreLabel ("Score: " ++ toString (s.scoreFor difficulty timer)) s.node }

theorem updateScore_ok {s : PlayScene} {difficulty : Int} {timer : ℚ}
    (hd : s.difficulty = some difficulty) (ht : s.timer = some timer) :
    updateScore s = .ok (s.scored difficulty timer) := by
  rw [← unwrap_eq_ok] at hd ht
  simp only [updateScore, hd, ht, ok_bind, setText_eq]
  rfl

theorem updateScore_eq_ok {s t : PlayScene} (h : updateScore s = .ok t) :
    ∃ difficulty timer, s.difficulty = some difficulty ∧ s.timer = some timer ∧
      t = s.scored difficulty timer := by
  obtain ⟨difficulty, hd, h'⟩ := bind_eq_ok.mp h
  obtain ⟨timer, ht, -⟩ := bind_eq_ok.mp h'
  rw [unwrap_eq_ok] at hd ht
  rw [updateScore_ok hd ht, Except.ok.injEq] at h
  exact ⟨difficulty, timer, hd, ht, h.symm⟩

/-- The frame that only takes the time. -/
def timed (currentTime : ℚ) (s : PlayScene) : PlayScene :=
  { s with lastUpdateTimeInterval := some currentTime, firstFrame := false }

/-- The time of a frame that counts, as `update` clamps it. -/
def remaining (s : PlayScene) (timer currentTime : ℚ) : ℚ :=
  let delta := match s.lastUpdateTimeInterval with
    | some luti => currentTime - luti
    | none => currentTime
  if timer - delta < 0 then 0 else timer - delta

/-- The new time is kept and shown. -/
def clocked (timer currentTime : ℚ) (s : PlayScene) : PlayScene :=
  { s with
    lastUpdateTimeInterval := some currentTime
    timer := some (s.remaining timer currentTime)
    node := retext s.timeLabel ("Time: " ++ toString (truncate (s.remaining timer currentTime)))
      s.node }

/-- The frame that counts the time since the last one. -/
def counted (difficulty : Int) (timer currentTime : ℚ) (s : PlayScene) : PlayScene :=
  { (s.clocked timer currentTime).scored difficulty (s.remaining timer currentTime) with
    firstFrame := false }

theorem update_idle (currentTime : ℚ) {s : PlayScene}
    (h : ¬ (s.firstFrame = false ∧ s.pauseState = false)) :
    update currentTime s = .ok (s.timed currentTime) := by
  simp only [update, if_neg h, ok_bind]
  rfl

theorem update_counts (currentTime : ℚ) {s : PlayScene} {difficulty : Int} {timer : ℚ}
    (hd : s.difficulty = some difficulty) (ht : s.timer = some timer)
    (h : s.firstFrame = false ∧ s.pauseState = false) :
    update currentTime s = .ok (s.counted difficulty timer currentTime) := by
  have hscore : updateScore (s.clocked timer currentTime) = _ :=
    updateScore_ok (s := s.clocked timer currentTime) hd rfl
  rw [← unwrap_eq_ok] at ht
  simp only [update, if_pos h, ht, ok_bind, setText_eq]
  exact congrArg (· >>= fun s => Except.ok { s with firstFrame := false }) hscore

theorem update_eq_ok {s t : PlayScene} {currentTime : ℚ} (h : update currentTime s = .ok t) :
    ¬ (s.firstFrame = false ∧ s.pauseState = false) ∧ t = s.timed currentTime ∨
      (s.firstFrame = false ∧ s.pauseState = false) ∧ ∃ difficulty timer,
        s.difficulty = some difficulty ∧ s.timer = some timer ∧
          t = s.counted difficulty timer currentTime := by
  by_cases hrun : s.firstFrame = false ∧ s.pauseState = false
  · cases ht : s.timer with
    | none => simp [update, hrun, ht] at h
    | some timer =>
      cases hd : s.difficulty with
      | none =>
        have hscore : updateScore (s.clocked timer currentTime) = .error .nilUnwrapped := by
          simp only [updateScore, clocked, hd, unwrap_none, error_bind]
        rw [← unwrap_eq_ok] at ht
        simp only [update, if_pos hrun, ht, ok_bind, setText_eq] at h
        change (updateScore (s.clocked timer currentTime) >>= _) = _ at h
        rw [hscore] at h
        cases h
      | some difficulty =>
        rw [update_counts currentTime hd ht hrun] at h
        cases h
        exact .inr ⟨hrun, difficulty, timer, rfl, rfl, rfl⟩
  · rw [update_idle currentTime hrun] at h
    cases h
    exact .inl ⟨hrun, rfl⟩

/-- The store with an action queued on two nodes, one after the other. -/
def queuePair (hides : Bool) (n1 n2 ordinal : Nat) (node : Nat → Node) : Nat → Node :=
  let node := Function.update node n1 ((node n1).queue ⟨hides, ordinal⟩)
  Function.update node n2 ((node n2).queue ⟨hides, ordinal + 1⟩)

@[simp] theorem fixed_queued (n : Nat) (a : Action) (node : Nat → Node) (m : Nat) :
    (Function.update node n ((node n).queue a) m).fixed = (node m).fixed := by
  by_cases h : m = n
  · subst h
    rw [Function.update_self, Node.fixed_queue]
  · rw [Function.update_of_ne h]

@[simp] theorem fixed_queuePair (hides : Bool) (n1 n2 ordinal : Nat) (node : Nat → Node)
    (m : Nat) : (queuePair hides n1 n2 ordinal node m).fixed = (node m).fixed :=
  (fixed_queued n2 _ _ m).trans (fixed_queued n1 _ node m)

theorem queuePair_other {n1 n2 m : Nat} (h1 : m ≠ n1) (h2 : m ≠ n2) (hides : Bool)
    (ordinal : Nat) (node : Nat → Node) : queuePair hides n1 n2 ordinal node m = node m :=
  (Function.update_of_ne h2 _ _).trans (Function.update_of_ne h1 _ _)

theorem settled_queued (n : Nat) (a : Action) (node : Nat → Node) (m : Nat) :
    (Function.update node n ((node n).queue a) m).settled =
      if m = n then a.hides else (node m).settled := by
  by_cases h : m = n
  · subst h
    rw [Function.update_self, Node.settled_queue, if_pos rfl]
  · rw [Function.update_of_ne h, if_neg h]

theorem mem_queued {n m : Nat} {a b : Action} {node : Nat → Node}
    (h : b ∈ (Function.update node n ((node n).queue a) m).actions) :
    b ∈ (node m).actions ∨ b = a := by
  by_cases hm : m = n
  · subst hm
    rwa [Function.update_self, Node.actions_queue, List.mem_append, List.mem_singleton] at h
  · rw [Function.update_of_ne hm] at h
    exact .inl h

theorem settled_queuePair (hides : Bool) (n1 n2 ordinal : Nat) (node : Nat → Node) (m : Nat) :
    (queuePair hides n1 n2 ordinal node m).settled =
      if m = n1 ∨ m = n2 then hides else (node m).settled := by
  have hsecond := settled_queued n2 ⟨hides, ordinal + 1⟩
    (Function.update node n1 ((node n1).queue ⟨hides, ordinal⟩)) m
  rw [settled_queued n1 ⟨hides, ordinal⟩ node m] at hsecond
  rw [queuePair, hsecond]
  by_cases h2 : m = n2
  · simp [h2]
  · simp [h2]

theorem mem_queuePair {hides : Bool} {n1 n2 ordinal m : Nat} {node : Nat → Node} {a : Action}
    (h : a ∈ (queuePair hides n1 n2 ordinal node m).actions) :
    a ∈ (node m).actions ∨ a.ordinal ≤ ordinal + 1 := by
  obtain h | rfl := mem_queued h
  · obtain h | rfl := mem_queued h
    · exact .inl h
    · exact .inr (Nat.le_succ ordinal)
  · exact .inr (Nat.le_refl _)

/-- A toggle that the debounce accepts. -/
def Accepts (s : PlayScene) (now : ℚ) : Prop :=
  ∃ pauseTimer, s.pauseTimer = some pauseTimer ∧ pauseTimer + 1 / 2 < now

/-- The pause layer and image are shown or hidden with the pause. -/
def toggled (later : ℚ) (pauseLayer pauseImg : Nat) (s : PlayScene) : PlayScene :=
  { s with
    pauseState := !s.pauseState
    pauseTimer := some later
    effects := s.effects ++ [.pauseFunc (!s.pauseState)]
    node := queuePair s.pauseState pauseLayer pauseImg s.actionsStarted s.node
    actionsStarted := s.actionsStarted + 1 + 1 }

theorem togglePause_eq_ok {s t : PlayScene} {now later : ℚ}
    (h : togglePause now later s = .ok t) :
    t = s ∧ ¬ Accepts s now ∨ Accepts s now ∧ ∃ pauseLayer pauseImg,
      s.pauseLayer = some pauseLayer ∧ s.pauseImg = some pauseImg ∧
        t = s.toggled later pauseLayer pauseImg := by
  obtain ⟨pauseTimer, hp, h⟩ := bind_eq_ok.mp h
  rw [unwrap_eq_ok] at hp
  split at h
  · next haccept =>
    obtain ⟨pauseLayer, hl, h⟩ := bind_eq_ok.mp h
    obtain ⟨pauseImg, hi, h⟩ := bind_eq_ok.mp h
    rw [unwrap_eq_ok] at hl hi
    refine .inr ⟨⟨pauseTimer, hp, haccept⟩, pauseLayer, pauseImg, hl, hi, ?_⟩
    cases hstate : s.pauseState <;>
      simp [toggled, emit, runAction, queuePair, hstate] at h ⊢ <;> exact h.symm
  · next hreject =>
    cases h
    refine .inl ⟨rfl, ?_⟩
    rintro ⟨pauseTimer', hp', haccept⟩
    rw [hp] at hp'
    cases hp'
    exact hreject haccept

theorem togglePause_ok {s : PlayScene} {now : ℚ} (later : ℚ) {pauseLayer pauseImg : Nat}
    (haccept : Accepts s now) (hl : s.pauseLayer = some pauseLayer)
    (hi : s.pauseImg = some pauseImg) :
    togglePause now later s = .ok (s.toggled later pauseLayer pauseImg) := by
  obtain ⟨pauseTimer, hp, hnow⟩ := haccept
  rw [← unwrap_eq_ok] at hp hl hi
  simp only [togglePause, hp, ok_bind, if_pos hnow, emit, hl, hi]
  cases hstate : s.pauseState <;> simp [toggled, runAction, queuePair, hstate]

theorem goMenu_eq (s : PlayScene) :
    ∃ presented effects, s.goMenu = { s with presented, effects } := by
  unfold goMenu present
  split
  · exact ⟨_, _, rfl⟩
  · exact ⟨_, _, rfl⟩

theorem processItemTouch_paused {s : PlayScene} (nod : Nat) (hpause : s.pauseState = true) :
    processItemTouch nod s = .ok s := by
  rw [processItemTouch, if_pos hpause]

theorem processItemTouch_gameBack {s : PlayScene} {nod : Nat} (hpause : s.pauseState = false)
    (hback : (s.node nod).name = some "GameBack") : processItemTouch nod s = .ok s.goMenu := by
  have hmenu : (s.goMenu.node nod).name = some "GameBack" := by
    obtain ⟨presented, effects, heq⟩ := s.goMenu_eq
    rw [heq]
    exact hback
  have hword : intOfString "GameBack" = none := by decide
  rw [processItemTouch, hpause, if_neg Bool.false_ne_true, if_pos hback]
  dsimp only
  rw [hmenu, unwrap_some, ok_bind, hword]

/-- The touch of any other node: its name may be the number of a card. -/
theorem processItemTouch_other {s : PlayScene} {nod : Nat} (hpause : s.pauseState = false)
    (hback : (s.node nod).name ≠ some "GameBack") :
    processItemTouch nod s = unwrap (s.node nod).name >>= fun name =>
      (intOfString name).elim (.ok s) fun num =>
        if num > 0 then
          if s.lockInteraction then .ok s
          else touchLoop nod 0 s.cardsBacks (s.emit (.cardTouched num))
        else .ok s := by
  rw [processItemTouch, hpause, if_neg Bool.false_ne_true, if_neg hback]
  apply congrArg
  funext name
  dsimp only
  cases intOfString name with
  | none => rfl
  | some num => rfl

/-- A touch either ends without reaching the cards, or enters the loop over the
backs with the number on the touched node. -/
theorem processItemTouch_eq_ok {s t : PlayScene} {nod : Nat}
    (h : processItemTouch nod s = .ok t) :
    t = s ∨ t = s.goMenu ∨
      s.pauseState = false ∧ s.lockInteraction = false ∧ ∃ num,
        touchLoop nod 0 s.cardsBacks (s.emit (.cardTouched num)) = .ok t := by
  cases hpause : s.pauseState with
  | true =>
    rw [processItemTouch_paused nod hpause] at h
    cases h
    exact .inl rfl
  | false =>
    by_cases hback : (s.node nod).name = some "GameBack"
    · rw [processItemTouch_gameBack hpause hback] at h
      cases h
      exact .inr (.inl rfl)
    · rw [processItemTouch_other hpause hback] at h
      obtain ⟨name, -, h⟩ := bind_eq_ok.mp h
      cases hnum : intOfString name with
      | none =>
        rw [hnum] at h
        cases h
        exact .inl rfl
      | some num =>
        rw [hnum, Option.elim_some] at h
        split at h
        · split at h
          · cases h
            exact .inl rfl
          · next hlock => exact .inr (.inr ⟨rfl, Bool.eq_false_iff.mpr hlock, num, h⟩)
        · cases h
          exact .inl rfl

theorem touchLoop_cons_self (nod : Nat) (i : Int) (backs : List Nat) (s : PlayScene) :
    touchLoop nod i (nod :: backs) s = (touchBack i nod s >>= touchLoop nod (i + 1) backs) := by
  rw [touchLoop, if_pos rfl]

theorem touchLoop_cons_ne {nod back : Nat} (h : back ≠ nod) (i : Int) (backs : List Nat)
    (s : PlayScene) : touchLoop nod i (back :: backs) s = touchLoop nod (i + 1) backs s := by
  rw [touchLoop, if_neg h]
  rfl

theorem touchLoop_of_not_mem {nod : Nat} {backs : List Nat} (h : nod ∉ backs) (i : Int)
    (s : PlayScene) : touchLoop nod i backs s = .ok s := by
  induction backs generalizing i with
  | nil => rfl
  | cons back backs ih =>
    rw [List.mem_cons, not_or] at h
    rw [touchLoop_cons_ne (Ne.symm h.1), ih h.2]

/-- With every back there once, the loop runs its body for the touched one alone. -/
theorem touchLoop_of_getElem {nod k : Nat} {backs : List Nat} (hnodup : backs.Nodup)
    (hk : backs[k]? = some nod) (i : Nat) (s : PlayScene) :
    touchLoop nod i backs s = touchBack ((i + k : Nat) : Int) nod s := by
  induction backs generalizing i k with
  | nil => simp at hk
  | cons back backs ih =>
    obtain ⟨hback, hnodup⟩ := List.nodup_cons.mp hnodup
    cases k with
    | zero =>
      rw [List.getElem?_cons_zero, Option.some.injEq] at hk
      subst hk
      rw [touchLoop_cons_self, Nat.add_zero]
      cases touchBack (i : Int) back s with
      | error e => rfl
      | ok t => rw [ok_bind, touchLoop_of_not_mem hback]
    | succ k =>
      rw [List.getElem?_cons_succ] at hk
      have hne : back ≠ nod := by
        intro heq
        exact hback (heq ▸ List.mem_of_getElem? hk)
      have hnext := ih hnodup hk (i + 1)
      push_cast at hnext
      rw [touchLoop_cons_ne hne, hnext, Nat.add_succ, ← Nat.succ_add]
      rfl

/-- The back of the first card of a pair is touched. -/
def turnFirst (i cardBack : Nat) (name : String) (s : PlayScene) : PlayScene :=
  { s with
    selectedCardIndex1 := i
    selectedCard1Value := name
    node := Function.update s.node cardBack ((s.node cardBack).queue ⟨true, s.actionsStarted⟩)
    actionsStarted := s.actionsStarted + 1 }

/-- The block that a second card of the given value schedules. -/
def blockFor (value1 value2 : String) : BlockKind :=
  if value1 = value2 then .matched else .unmatched

/-- What the scene prints when it schedules a block. -/
def announcement : BlockKind → Effect
  | .matched => .matchedCards
  | .unmatched => .unmatchedCards

/-- The back of the second card of a pair is touched, and a block scheduled. -/
def turnSecond (j cardBack : Nat) (name : String) (s : PlayScene) : PlayScene :=
  let kind := blockFor s.selectedCard1Value name
  { s with
    lockInteraction := true
    selectedCardIndex2 := j
    selectedCard2Value := name
    node := Function.update s.node cardBack ((s.node cardBack).queue ⟨true, s.actionsStarted⟩)
    actionsStarted := s.actionsStarted + 1
    effects := s.effects ++ [announcement kind]
    pending := s.pending ++ [⟨kind, s.actionsStarted + 1⟩] }

section TouchBack

variable {s : PlayScene} {k cardNode : Nat} {name : String} (hcard : s.cards[k]? = some cardNode)
  (hname : (s.node cardNode).name = some name) (cardBack : Nat)

include hcard

theorem touchBack_first (hfirst : s.selectedCardIndex1 = -1) :
    touchBack k cardBack s =
      (unwrap (s.node cardNode).name >>= fun name => .ok (s.turnFirst k cardBack name)) := by
  rw [touchBack, subscript_natCast hcard, ok_bind, if_pos hfirst]
  rfl

theorem touchBack_second {i : Nat} (hfirst : s.selectedCardIndex1 = i)
    (hsecond : s.selectedCardIndex2 = -1) (hne : k ≠ i) :
    touchBack k cardBack s =
      (unwrap (s.node cardNode).name >>= fun name => .ok (s.turnSecond k cardBack name)) := by
  have hne' : (k : Int) ≠ s.selectedCardIndex1 := by omega
  rw [touchBack, subscript_natCast hcard, ok_bind, if_neg (by omega), if_pos hsecond, if_pos hne']
  congr 1
  funext name
  by_cases hvalue : s.selectedCard1Value = name
  · simp only [turnSecond, blockFor, if_pos hvalue]
    exact if_pos hvalue
  · simp only [turnSecond, blockFor, if_neg hvalue]
    exact if_neg hvalue

theorem touchBack_again (hfirst : s.selectedCardIndex1 = k) : touchBack k cardBack s = .ok s := by
  rw [touchBack, subscript_natCast hcard, ok_bind, if_neg (by omega)]
  simp [hfirst]

end TouchBack

/-- The loop of `CheckIfGameOver` finds the first card that is not found. -/
theorem gameOverLoop_eq (cardsStatus : List Bool) (m : Nat) :
    ∀ k, k + m = cardsStatus.length →
      gameOverLoop cardsStatus ((List.range' k m).map fun i : Nat => (i : Int)) =
        .ok ((cardsStatus.drop k).all id) := by
  induction m with
  | zero =>
    intro k hk
    rw [List.drop_eq_nil_of_le (by omega)]
    rfl
  | succ m ih =>
    intro k hk
    have hlt : k < cardsStatus.length := by omega
    rw [List.range'_succ, List.map_cons, gameOverLoop, subscript_lt hlt, ok_bind,
      List.drop_eq_getElem_cons hlt, List.all_cons, ih (k + 1) (by omega)]
    cases cardsStatus[k] <;> simp

theorem checkIfGameOver_ok {s : PlayScene} (h : 0 < s.cardsStatus.length) :
    checkIfGameOver s = .ok (s.cardsStatus.all id) := by
  rw [checkIfGameOver, closedRange_zero h, ok_bind, List.range_eq_range',
    gameOverLoop_eq s.cardsStatus s.cardsStatus.length 0 (Nat.zero_add _), List.drop_zero]

def markFound (i : Nat) (s : PlayScene) : PlayScene :=
  { s with cardsStatus := s.cardsStatus.set i true }

theorem setStatusCardFound_ok {s : PlayScene} {i : Nat} (h : i < s.cardsStatus.length) :
    setStatusCardFound i s = .ok (s.markFound i) := by
  rw [setStatusCardFound, setAt_lt true h, ok_bind]
  rfl

theorem hideSelectedCards_ok {s : PlayScene} {i j front1 front2 : Nat}
    (h1 : s.selectedCardIndex1 = i) (h2 : s.selectedCardIndex2 = j)
    (hf1 : s.cards[i]? = some front1) (hf2 : s.cards[j]? = some front2) :
    hideSelectedCards s =
      .ok ((s.runAction true front1).runAction true front2).deselectCards := by
  rw [hideSelectedCards, h1, h2, subscript_natCast hf1, subscript_natCast hf2]
  rfl

/-- The pair at `i` and `j`, with these fronts, is found. -/
def pairFound (i j front1 front2 : Nat) (s : PlayScene) : PlayScene :=
  { s with
    cardsStatus := (s.cardsStatus.set i true).set j true
    node := queuePair true front1 front2 s.actionsStarted s.node
    actionsStarted := s.actionsStarted + 1 + 1
    selectedCardIndex1 := -1
    selectedCardIndex2 := -1
    lockInteraction := false
    matchesCount := s.matchesCount + 1 }

/-- The pair with these backs is turned back. -/
def pairMissed (back1 back2 : Nat) (s : PlayScene) : PlayScene :=
  { s with
    node := queuePair false back1 back2 s.actionsStarted s.node
    actionsStarted := s.actionsStarted + 1 + 1
    selectedCardIndex1 := -1
    selectedCardIndex2 := -1
    lockInteraction := false
    tryCount := s.tryCount + 1 }

/-- When every card has been found, the game is over. -/
def finished (s : PlayScene) : PlayScene :=
  if s.cardsStatus.all id then s.updateRanking.goLeaderBoard else s

section Blocks

variable {s : PlayScene} {i j : Nat} (h1 : s.selectedCardIndex1 = i)
  (h2 : s.selectedCardIndex2 = j) {difficulty : Int} {timer : ℚ}
  (hd : s.difficulty = some difficulty) (ht : s.timer = some timer)

include h1 h2 hd ht

theorem matchBlock_ok {front1 front2 : Nat} (hf1 : s.cards[i]? = some front1)
    (hf2 : s.cards[j]? = some front2) (hi : i < s.cardsStatus.length)
    (hj : j < s.cardsStatus.length) :
    matchBlock s = .ok ((s.pairFound i j front1 front2).scored difficulty timer).finished := by
  have hmark1 : setStatusCardFound s.selectedCardIndex1 s = .ok (s.markFound i) := by
    rw [h1, setStatusCardFound_ok hi]
  have hmark2 : setStatusCardFound (s.markFound i).selectedCardIndex2 (s.markFound i) =
      .ok ((s.markFound i).markFound j) := by
    change setStatusCardFound s.selectedCardIndex2 (s.markFound i) = _
    rw [h2, setStatusCardFound_ok]
    change j < (s.cardsStatus.set i true).length
    rwa [List.length_set]
  have hhide : hideSelectedCards ((s.markFound i).markFound j) = _ :=
    hideSelectedCards_ok (s := (s.markFound i).markFound j) h1 h2 hf1 hf2
  have hcount : { ((((s.markFound i).markFound j).runAction true front1).runAction true
      front2).deselectCards with matchesCount := s.matchesCount + 1 } =
        s.pairFound i j front1 front2 := by
    simp only [markFound, runAction, deselectCards, pairFound, queuePair]
  have hscore : updateScore (s.pairFound i j front1 front2) = _ :=
    updateScore_ok (s := s.pairFound i j front1 front2) hd ht
  have hover := checkIfGameOver_ok (s := (s.pairFound i j front1 front2).scored difficulty timer)
    (by simp only [scored, pairFound, List.length_set]; omega)
  rw [matchBlock, hmark1, ok_bind, hmark2, ok_bind, hhide, ok_bind, setMatchesCount]
  simp only [markFound, runAction, deselectCards] at hcount ⊢
  rw [hcount, hscore, ok_bind, hover, ok_bind, finished]
  split <;> rfl

theorem mismatchBlock_ok {back1 back2 : Nat} (hb1 : s.cardsBacks[i]? = some back1)
    (hb2 : s.cardsBacks[j]? = some back2) :
    mismatchBlock s = .ok ((s.pairMissed back1 back2).scored difficulty timer) := by
  have hi := (List.getElem?_eq_some_iff.mp hb1).1
  have hj := (List.getElem?_eq_some_iff.mp hb2).1
  have hreset : resetSelectedCards s =
      .ok ((s.runAction false back1).runAction false back2).deselectCards := by
    rw [resetSelectedCards, if_neg (by omega), h1, h2, subscript_natCast hb1, subscript_natCast hb2]
    rfl
  have hcount : { ((s.runAction false back1).runAction false back2).deselectCards with
      tryCount := s.tryCount + 1 } = s.pairMissed back1 back2 := by
    simp only [runAction, deselectCards, pairMissed, queuePair]
  have hscore : updateScore (s.pairMissed back1 back2) = _ :=
    updateScore_ok (s := s.pairMissed back1 back2) hd ht
  rw [mismatchBlock, hreset, ok_bind, setTryCount]
  simp only [runAction, deselectCards] at hcount ⊢
  rw [hcount, hscore]

end Blocks

end PlayScene
end CardsGame
