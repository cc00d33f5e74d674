import CardsGame.Board

/-!
# Selecting cards

The two selected indices, the lock and the pending blocks move together. `Playing`
is the invariant that ties them to a hand of the matching game, and `Outcome` says
all that one event can do to a scene that satisfies it.
-/
namespace CardsGame

open Swift SpriteKit
open Pairs (Hand)
open Runs (Run)

namespace PlayScene

/-- The block that the cards at `i` and `j` schedule. -/
def pairKind (s : PlayScene) (i j : Nat) : BlockKind :=
  if s.cardValue i = s.cardValue j then .matched else .unmatched

/-- The selection, the lock and the pending blocks are those of a hand. -/
def Selected (s : PlayScene) : Hand Nat → Prop
  | .empty =>
    s.selectedCardIndex1 = -1 ∧ s.selectedCardIndex2 = -1 ∧ s.lockInteraction = false ∧
      s.pending = []
  | .one i =>
    s.selectedCardIndex1 = i ∧ s.selectedCardIndex2 = -1 ∧ s.lockInteraction = false ∧
      s.pending = []
  | .two i j _ =>
    s.selectedCardIndex1 = i ∧ s.selectedCardIndex2 = j ∧ s.lockInteraction = true ∧
      ∃ after, s.pending = [⟨s.pairKind i j, after⟩]

/-- What holds of a scene between two events. -/
structure Playing (base n : Nat) (h : Hand Nat) (s : PlayScene) : Prop where
  board : Board base n s
  selected : Selected s h
  valid : ∀ k ∈ h, k < 2 * n
  value1 : ∀ i, h = .one i → s.selectedCard1Value = formatInt (s.cardValue i)
  status : s.cardsStatus.length = 2 * n
  timer : ∃ timer, s.timer = some timer
  pauseTimer : ∃ pauseTimer, s.pauseTimer = some pauseTimer

/-- What the scene prints, or shows, without consequence for the game. -/
def Incidental : Effect → Prop
  | .matchedCards | .unmatchedCards | .updateRanking _ => False
  | .cardTouched _ | .pauseFunc _ | .goMenu | .goLeaderBoard => True

/-- The game is where it was: at most the clock, the labels, the pause and the
evaluation of queued actions have moved on. -/
structure Quiet (base : Nat) (s t : PlayScene) : Prop where
  skeleton : t.skeleton = s.skeleton
  cardsStatus : t.cardsStatus = s.cardsStatus
  index1 : t.selectedCardIndex1 = s.selectedCardIndex1
  index2 : t.selectedCardIndex2 = s.selectedCardIndex2
  value1 : t.selectedCard1Value = s.selectedCard1Value
  lock : t.lockInteraction = s.lockInteraction
  matchesCount : t.matchesCount = s.matchesCount
  tryCount : t.tryCount = s.tryCount
  pending : t.pending = s.pending
  defaults : t.defaults = s.defaults
  timer : (∃ timer, s.timer = some timer) → ∃ timer, t.timer = some timer
  pauseTimer : (∃ pauseTimer, s.pauseTimer = some pauseTimer) →
    ∃ pauseTimer, t.pauseTimer = some pauseTimer
  node : ∀ n, base ≤ n → t.node n = s.node n ∨ t.node n = (s.node n).evaluate
  /-- The nodes around the cards stay shown, the pause layer and image aside. -/
  still : ∀ m, s.pauseLayer ≠ some m → s.pauseImg ≠ some m → (s.node m).Still → (t.node m).Still
  actionsStarted : s.actionsStarted ≤ t.actionsStarted
  effects : ∃ es, t.effects = s.effects ++ es ∧ ∀ e ∈ es, Incidental e

theorem incidental_nil (effects : List Effect) :
    ∃ es, effects = effects ++ es ∧ ∀ e ∈ es, Incidental e :=
  ⟨[], (List.append_nil _).symm, by simp⟩

/-- The fields of a scene that the game does not depend on. -/
theorem quiet_with {base : Nat} {s : PlayScene} {view : Option Size}
    {timer pauseTimer lastUpdateTimeInterval : Option ℚ} {pauseState firstFrame : Bool}
    {score : Int} {lastZ : ℚ} {gravity : Point} {node : Nat → Node} {actionsStarted : Nat}
    {presented : List OtherScene} {effects : List Effect}
    (hfixed : ∀ n, (node n).fixed = (s.node n).fixed)
    (hnode : ∀ n, base ≤ n → node n = s.node n ∨ node n = (s.node n).evaluate)
    (hstill : ∀ m, s.pauseLayer ≠ some m → s.pauseImg ≠ some m → (s.node m).Still → (node m).Still)
    (htimer : (∃ T, s.timer = some T) → ∃ T, timer = some T)
    (hpauseTimer : (∃ T, s.pauseTimer = some T) → ∃ T, pauseTimer = some T)
    (hactions : s.actionsStarted ≤ actionsStarted)
    (heffects : ∃ es, effects = s.effects ++ es ∧ ∀ e ∈ es, Incidental e) :
    Quiet base s
      { s with
        view, timer, pauseTimer, lastUpdateTimeInterval, pauseState, firstFrame, score, lastZ
        gravity, node, actionsStarted, presented, effects } where
  skeleton := by
    simp only [PlayScene.skeleton, funext hfixed]
  cardsStatus := rfl
  index1 := rfl
  index2 := rfl
  value1 := rfl
  lock := rfl
  matchesCount := rfl
  tryCount := rfl
  pending := rfl
  defaults := rfl
  timer := htimer
  pauseTimer := hpauseTimer
  node := hnode
  still := hstill
  actionsStarted := hactions
  effects := heffects

/-- Only such fields outside the store have changed. -/
theorem quiet_fields {base : Nat} {s : PlayScene} {view : Option Size}
    {timer pauseTimer lastUpdateTimeInterval : Option ℚ} {pauseState firstFrame : Bool}
    {score : Int} {lastZ : ℚ} {gravity : Point} {presented : List OtherScene}
    {effects : List Effect}
    (htimer : (∃ T, s.timer = some T) → ∃ T, timer = some T)
    (hpauseTimer : (∃ T, s.pauseTimer = some T) → ∃ T, pauseTimer = some T)
    (heffects : ∃ es, effects = s.effects ++ es ∧ ∀ e ∈ es, Incidental e) :
    Quiet base s
      { s with
        view, timer, pauseTimer, lastUpdateTimeInterval, pauseState, firstFrame, score, lastZ
        gravity, presented, effects } :=
  quiet_with (fun _ => rfl) (fun _ _ => .inl rfl) (fun _ _ _ h => h) htimer hpauseTimer
    (Nat.le_refl _) heffects

theorem quiet_refl (base : Nat) (s : PlayScene) : Quiet base s s :=
  quiet_fields id id (incidental_nil s.effects)

theorem quiet_goMenu (base : Nat) (s : PlayScene) : Quiet base s s.goMenu := by
  have hes : ∀ e ∈ [Effect.goMenu], Incidental e := by simp [Incidental]
  unfold goMenu present
  split
  · exact quiet_fields id id ⟨_, rfl, hes⟩
  · exact quiet_fields id id ⟨_, rfl, hes⟩

theorem quiet_accelerometer (base : Nat) (data : Option Point) (s : PlayScene) :
    Quiet base s (s.accelerometerHandler data) := by
  cases data with
  | none => exact quiet_refl base s
  | some acceleration =>
    have hes : ∀ e ∈ [Effect.goMenu], Incidental e := by simp [Incidental]
    unfold accelerometerHandler
    dsimp only
    split
    · unfold goMenu present
      split
      · exact quiet_fields id id ⟨_, rfl, hes⟩
      · exact quiet_fields id id ⟨_, rfl, hes⟩
    · exact quiet_fields id id (incidental_nil s.effects)

theorem quiet_evaluate (base n : Nat) (s : PlayScene) : Quiet base s (s.evaluateActions n) := by
  have hnode : ∀ m, (s.evaluateActions n).node m = s.node m ∨
      (s.evaluateActions n).node m = (s.node m).evaluate := by
    intro m
    by_cases h : m = n
    · subst h
      exact .inr (Function.update_self _ _ _)
    · exact .inl (Function.update_of_ne h _ _)
  refine quiet_with ?_ (fun m _ => hnode m) ?_ id id (Nat.le_refl _) (incidental_nil s.effects)
  · intro m
    change ((s.evaluateActions n).node m).fixed = _
    obtain h | h := hnode m
    · rw [h]
    · rw [h, Node.fixed_evaluate]
  · intro m _ _ hm
    change ((s.evaluateActions n).node m).Still
    obtain h | h := hnode m
    · rwa [h]
    · rw [h]
      exact hm.evaluate

theorem quiet_leave (base : Nat) (s : PlayScene) : Quiet base s { s with view := none } :=
  quiet_fields id id (incidental_nil s.effects)

section OnBoard

variable {base n : Nat} {s t : PlayScene} (hb : Board base n s)

include hb

theorem quiet_frame {currentTime : ℚ} (h : update currentTime s = .ok t) : Quiet base s t := by
  obtain ⟨-, rfl⟩ | ⟨-, difficulty, timer, hd, ht, rfl⟩ := update_eq_ok h
  · exact quiet_fields id id (incidental_nil s.effects)
  · refine quiet_with ?_ ?_ (fun m _ _ hm => still_retext _ (still_retext _ hm))
      (fun _ => ⟨_, rfl⟩) id (Nat.le_refl _) (incidental_nil s.effects)
    · intro m
      exact (fixed_retext _ _ _ m).trans (fixed_retext _ _ _ m)
    · intro m hm
      have hscore : s.scoreLabel ≠ some m := fun heq => absurd (hb.scoreLabel m heq) (by omega)
      have htime : s.timeLabel ≠ some m := fun heq => absurd (hb.timeLabel m heq) (by omega)
      exact .inl ((retext_of_ne hscore _ _).trans (retext_of_ne htime _ _))

theorem quiet_toggle {now later : ℚ} (h : togglePause now later s = .ok t) : Quiet base s t := by
  obtain ⟨rfl, -⟩ | ⟨-, pauseLayer, pauseImg, hl, hi, rfl⟩ := togglePause_eq_ok h
  · exact quiet_refl base t
  · obtain ⟨_, _, hl', hi', hlayer, himg⟩ := hb.pauseNodes
    cases hl.symm.trans hl'
    cases hi.symm.trans hi'
    refine quiet_with ?_ ?_ ?_ id (fun _ => ⟨_, rfl⟩) (by omega) ⟨_, rfl, by simp [Incidental]⟩
    · exact fixed_queuePair _ _ _ _ s.node
    · intro m hm
      exact .inl (queuePair_other (by omega) (by omega) _ _ _)
    · intro m hml hmi hm
      have h1 : m ≠ pauseLayer := fun h => hml (hl.trans (congrArg some h.symm))
      have h2 : m ≠ pauseImg := fun h => hmi (hi.trans (congrArg some h.symm))
      rwa [queuePair_other h1 h2]

/-- The touch of a back gets through to the cards when neither the pause nor the
lock holds it up. -/
theorem touch_back {k : Nat} (hk : k < 2 * n) (hpause : s.pauseState = false)
    (hlock : s.lockInteraction = false) :
    processItemTouch (backId base k) s =
      touchBack k (backId base k) (s.emit (.cardTouched (s.cardValue k))) := by
  obtain ⟨v, hv, hvalue⟩ := hb.value_pos hk
  have hname := hb.back_name k hk
  rw [hvalue] at hname ⊢
  have hnum : intOfString (formatInt (v : Int)) = some (v : Int) := intOfString_toString v
  have hback : (s.node (backId base k)).name ≠ some "GameBack" := by
    rw [hname]
    intro heq
    have hword : intOfString "GameBack" = none := by decide
    rw [Option.some.inj heq, hword] at hnum
    cases hnum
  have hloop := touchLoop_of_getElem hb.backs_nodup (hb.back_getElem? hk) 0
    (s.emit (.cardTouched (v : Int)))
  rw [Nat.zero_add] at hloop
  rw [processItemTouch_other hpause hback, hname, unwrap_some, ok_bind, hnum, Option.elim_some,
    if_pos (by omega), hlock, if_neg Bool.false_ne_true]
  exact hloop

/-- Any other touch is quiet. -/
theorem quiet_touch {nod : Nat} (h : processItemTouch nod s = .ok t)
    (hother : s.pauseState = true ∨ s.lockInteraction = true ∨
      ∀ k, k < 2 * n → nod ≠ backId base k) : Quiet base s t := by
  obtain rfl | rfl | ⟨hpause, hlock, num, hloop⟩ := processItemTouch_eq_ok h
  · exact quiet_refl base t
  · exact quiet_goMenu base s
  · have hmem : nod ∉ s.cardsBacks := by
      rw [hpause, hlock] at hother
      simp only [Bool.false_eq_true, false_or] at hother
      rw [hb.mem_backs]
      rintro ⟨k, hk, heq⟩
      exact hother k hk heq
    rw [touchLoop_of_not_mem hmem, Except.ok.injEq] at hloop
    subst hloop
    exact quiet_fields id id ⟨_, rfl, by simp [Incidental]⟩

end OnBoard

/-- The back at `k` has been touched, and no card was selected. -/
def turnedFirst (base k : Nat) (s : PlayScene) : PlayScene :=
  (s.emit (.cardTouched (s.cardValue k))).turnFirst k (backId base k) (formatInt (s.cardValue k))

/-- The back at `k` has been touched, and another card was selected. -/
def turnedSecond (base k : Nat) (s : PlayScene) : PlayScene :=
  (s.emit (.cardTouched (s.cardValue k))).turnSecond k (backId base k) (formatInt (s.cardValue k))

/-- The match block has run for the cards at `i` and `j`, up to the check for the end. -/
def marked (base i j : Nat) (difficulty : Int) (timer : ℚ) (s : PlayScene) : PlayScene :=
  (pairFound i j (frontId base i) (frontId base j) { s with pending := [] }).scored difficulty timer

/-- The match block has run for the cards at `i` and `j`. -/
def resolvedFound (base i j : Nat) (difficulty : Int) (timer : ℚ) (s : PlayScene) : PlayScene :=
  (s.marked base i j difficulty timer).finished

/-- The mismatch block has run for the cards at `i` and `j`. -/
def resolvedMissed (base i j : Nat) (difficulty : Int) (timer : ℚ) (s : PlayScene) : PlayScene :=
  (pairMissed (backId base i) (backId base j) { s with pending := [] }).scored difficulty timer

/-- How an event takes a scene with one hand to a scene with another. -/
inductive Outcome (base n : Nat) (s : PlayScene) :
    Hand Nat → Event → PlayScene → Hand Nat → Prop where
  | quiet {h : Hand Nat} {e : Event} {t : PlayScene} (hfire : ∀ b, e ≠ .fire b)
      (hquiet : Quiet base s t) : Outcome base n s h e t h
  | first {k : Nat} (hk : k < 2 * n) (hpause : s.pauseState = false) :
      Outcome base n s .empty (.touch (backId base k)) (s.turnedFirst base k) (.one k)
  | second {i j : Nat} (hne : i ≠ j) (hj : j < 2 * n) (hpause : s.pauseState = false) :
      Outcome base n s (.one i) (.touch (backId base j)) (s.turnedSecond base j) (.two i j hne)
  | found {i j : Nat} {hne : i ≠ j} {after : Nat} {difficulty : Int} {timer : ℚ}
      (hvalue : s.cardValue i = s.cardValue j) (hpending : s.pending = [⟨.matched, after⟩])
      (hd : s.difficulty = some difficulty) (ht : s.timer = some timer) :
      Outcome base n s (.two i j hne) (.fire ⟨.matched, after⟩)
        (s.resolvedFound base i j difficulty timer) .empty
  | missed {i j : Nat} {hne : i ≠ j} {after : Nat} {difficulty : Int} {timer : ℚ}
      (hvalue : s.cardValue i ≠ s.cardValue j) (hpending : s.pending = [⟨.unmatched, after⟩])
      (hd : s.difficulty = some difficulty) (ht : s.timer = some timer) :
      Outcome base n s (.two i j hne) (.fire ⟨.unmatched, after⟩)
        (s.resolvedMissed base i j difficulty timer) .empty

section Steps

variable {base n : Nat} {h : Hand Nat} {s t : PlayScene}

theorem touch_first (hp : Playing base n .empty s) {k : Nat} (hk : k < 2 * n)
    (hpause : s.pauseState = false) :
    step s (.touch (backId base k)) = .ok (s.turnedFirst base k) := by
  obtain ⟨h1, -, hlock, -⟩ := hp.selected
  have htouch := touchBack_first (s := s.emit (.cardTouched (s.cardValue k)))
    (hp.board.card_getElem? hk) (backId base k) h1
  change processItemTouch (backId base k) s = _
  rw [touch_back hp.board hk hpause hlock, htouch]
  change (unwrap (s.node (frontId base k)).name >>= _) = _
  rw [hp.board.front_name k hk]
  rfl

theorem touch_second {i k : Nat} (hp : Playing base n (.one i) s) (hne : i ≠ k) (hk : k < 2 * n)
    (hpause : s.pauseState = false) :
    step s (.touch (backId base k)) = .ok (s.turnedSecond base k) := by
  obtain ⟨h1, h2, hlock, -⟩ := hp.selected
  have htouch := touchBack_second (s := s.emit (.cardTouched (s.cardValue k)))
    (hp.board.card_getElem? hk) (backId base k) h1 h2 hne.symm
  change processItemTouch (backId base k) s = _
  rw [touch_back hp.board hk hpause hlock, htouch]
  change (unwrap (s.node (frontId base k)).name >>= _) = _
  rw [hp.board.front_name k hk]
  rfl

theorem touch_again {k : Nat} (hp : Playing base n (.one k) s) (hpause : s.pauseState = false) :
    step s (.touch (backId base k)) = .ok (s.emit (.cardTouched (s.cardValue k))) := by
  have hk := hp.valid k rfl
  obtain ⟨h1, -, hlock, -⟩ := hp.selected
  have htouch := touchBack_again (s := s.emit (.cardTouched (s.cardValue k)))
    (hp.board.card_getElem? hk) (backId base k) h1
  change processItemTouch (backId base k) s = _
  rw [touch_back hp.board hk hpause hlock, htouch]

/-- The pending block runs to its end. -/
theorem fire_two {i j : Nat} {hne : i ≠ j} (hp : Playing base n (.two i j hne) s) {b : Block}
    (hb : b ∈ s.pending) :
    ∃ t, step s (.fire b) = .ok t ∧ Outcome base n s (.two i j hne) (.fire b) t .empty := by
  obtain ⟨h1, h2, -, after, hpending⟩ := hp.selected
  obtain ⟨difficulty, hd⟩ := hp.board.difficulty
  obtain ⟨timer, ht⟩ := hp.timer
  have hi : i < 2 * n := hp.valid i (.inl rfl)
  have hj : j < 2 * n := hp.valid j (.inr rfl)
  rw [hpending, List.mem_singleton] at hb
  subst hb
  have herase : s.pending.erase ⟨s.pairKind i j, after⟩ = [] := by
    rw [hpending]
    simp
  simp only [step, herase]
  by_cases hvalue : s.cardValue i = s.cardValue j
  · have hkind : s.pairKind i j = .matched := if_pos hvalue
    rw [hkind] at hpending ⊢
    refine ⟨_, ?_, .found hvalue hpending hd ht⟩
    exact matchBlock_ok (s := { s with pending := [] }) h1 h2 hd ht (hp.board.card_getElem? hi)
      (hp.board.card_getElem? hj) (hp.status ▸ hi) (hp.status ▸ hj)
  · have hkind : s.pairKind i j = .unmatched := if_neg hvalue
    rw [hkind] at hpending ⊢
    refine ⟨_, ?_, .missed hvalue hpending hd ht⟩
    exact mismatchBlock_ok (s := { s with pending := [] }) h1 h2 hd ht (hp.board.back_getElem? hi)
      (hp.board.back_getElem? hj)

theorem outcome_touch (hp : Playing base n h s) {nod : Nat} (hs : step s (.touch nod) = .ok t) :
    ∃ h', Outcome base n s h (.touch nod) t h' := by
  have hquiet : (s.pauseState = true ∨ s.lockInteraction = true ∨
      ∀ k, k < 2 * n → nod ≠ backId base k) → ∃ h', Outcome base n s h (.touch nod) t h' := by
    intro hother
    exact ⟨h, .quiet (by simp) (quiet_touch hp.board hs hother)⟩
  cases hpause : s.pauseState with
  | true => exact hquiet (.inl hpause)
  | false =>
    by_cases hback : ∃ k, k < 2 * n ∧ nod = backId base k
    · obtain ⟨k, hk, rfl⟩ := hback
      cases h with
      | empty =>
        cases (touch_first hp hk hpause).symm.trans hs
        exact ⟨_, .first hk hpause⟩
      | one i =>
        by_cases hne : i = k
        · subst hne
          cases (touch_again hp hpause).symm.trans hs
          exact ⟨_, .quiet (by simp) (quiet_fields id id ⟨_, rfl, by simp [Incidental]⟩)⟩
        · cases (touch_second hp hne hk hpause).symm.trans hs
          exact ⟨_, .second hne hk hpause⟩
      | two i j hne => exact hquiet (.inr (.inl hp.selected.2.2.1))
    · refine hquiet (.inr (.inr ?_))
      intro k hk heq
      exact hback ⟨k, hk, heq⟩

/-- An event that can occur does one of these things. -/
theorem outcome_of_step (hp : Playing base n h s) {e : Event} (ho : Occurs s e)
    (hs : step s e = .ok t) : ∃ h', Outcome base n s h e t h' := by
  cases e with
  | touch nod => exact outcome_touch hp hs
  | frame currentTime => exact ⟨h, .quiet (by simp) (quiet_frame hp.board hs)⟩
  | togglePause now later => exact ⟨h, .quiet (by simp) (quiet_toggle hp.board hs)⟩
  | accelerometer data =>
    cases hs
    exact ⟨h, .quiet (by simp) (quiet_accelerometer base data s)⟩
  | evaluateActions m =>
    cases hs
    exact ⟨h, .quiet (by simp) (quiet_evaluate base m s)⟩
  | leave =>
    cases hs
    exact ⟨h, .quiet (by simp) (quiet_leave base s)⟩
  | fire b =>
    cases h with
    | empty =>
      obtain ⟨-, -, -, hpending⟩ := hp.selected
      simp [Occurs, hpending] at ho
    | one i =>
      obtain ⟨-, -, -, hpending⟩ := hp.selected
      simp [Occurs, hpending] at ho
    | two i j hne =>
      obtain ⟨u, hu, houtcome⟩ := fire_two hp ho
      cases hu.symm.trans hs
      exact ⟨.empty, houtcome⟩

end Steps

/-- The end of a game writes the ranking, prints and presents, and nothing else. -/
theorem finished_eq (s : PlayScene) :
    ∃ defaults presented effects, s.finished = { s with defaults, presented, effects } := by
  unfold finished
  split
  · unfold goLeaderBoard present updateRanking
    split
    · exact ⟨_, _, _, rfl⟩
    · exact ⟨_, _, _, rfl⟩
  · exact ⟨_, _, _, rfl⟩

theorem skeleton_finished (s : PlayScene) : s.finished.skeleton = s.skeleton := by
  obtain ⟨defaults, presented, effects, heq⟩ := s.finished_eq
  rw [heq]
  rfl

section Kept

variable {base n : Nat} {h h' : Hand Nat} {s t : PlayScene} {e : Event}

theorem Outcome.skeleton (ho : Outcome base n s h e t h') : t.skeleton = s.skeleton := by
  cases ho with
  | quiet hfire hquiet => exact hquiet.skeleton
  | first | second =>
    simp only [PlayScene.skeleton, turnedFirst, turnedSecond, turnFirst, turnSecond, emit,
      fixed_queued]
  | found =>
    rw [resolvedFound, skeleton_finished]
    simp only [marked, PlayScene.skeleton, scored, pairFound, fixed_retext, fixed_queuePair]
  | missed =>
    simp only [resolvedMissed, PlayScene.skeleton, scored, pairMissed, fixed_retext,
      fixed_queuePair]

theorem cardValue_of_skeleton (hs : t.skeleton = s.skeleton) (k : Nat) :
    t.cardValue k = s.cardValue k := by
  have hvalue : t.skeleton.cardValue k = s.skeleton.cardValue k := by rw [hs]
  exact hvalue

theorem pairKind_of_skeleton (hs : t.skeleton = s.skeleton) (i j : Nat) :
    t.pairKind i j = s.pairKind i j := by
  rw [pairKind, cardValue_of_skeleton hs, cardValue_of_skeleton hs, pairKind]

theorem Quiet.selected (hq : Quiet base s t) (hs : Selected s h) : Selected t h := by
  cases h with
  | empty | one =>
    simp only [Selected, hq.index1, hq.index2, hq.lock, hq.pending]
    exact hs
  | two i j hne =>
    simp only [Selected, hq.index1, hq.index2, hq.lock, hq.pending,
      pairKind_of_skeleton hq.skeleton]
    exact hs

theorem Quiet.playing (hq : Quiet base s t) (hp : Playing base n h s) : Playing base n h t where
  board := hp.board.of_skeleton hq.skeleton
  selected := hq.selected hp.selected
  valid := hp.valid
  value1 := by
    intro i hi
    rw [hq.value1, cardValue_of_skeleton hq.skeleton]
    exact hp.value1 i hi
  status := by
    rw [hq.cardsStatus]
    exact hp.status
  timer := hq.timer hp.timer
  pauseTimer := hq.pauseTimer hp.pauseTimer

/-- The second card schedules the block of the pair. -/
theorem blockFor_eq {i j : Nat} (hp : Playing base n (.one i) s) (hj : j < 2 * n) :
    blockFor s.selectedCard1Value (formatInt (s.cardValue j)) = s.pairKind i j := by
  rw [hp.value1 i rfl, blockFor, pairKind]
  simp only [hp.board.formatInt_inj (hp.valid i rfl) hj]

theorem Outcome.playing (hp : Playing base n h s) (ho : Outcome base n s h e t h') :
    Playing base n h' t := by
  have hboard := hp.board.of_skeleton ho.skeleton
  cases ho with
  | quiet hfire hquiet => exact hquiet.playing hp
  | @first k hk =>
    obtain ⟨-, h2, hlock, hpending⟩ := hp.selected
    refine ⟨hboard, ⟨rfl, h2, hlock, hpending⟩, ?_, ?_, hp.status, hp.timer, hp.pauseTimer⟩
    · rintro m rfl
      exact hk
    · intro i hi
      cases hi
      rfl
  | @second i j hne hj =>
    obtain ⟨h1, h2, hlock, hpending⟩ := hp.selected
    refine ⟨hboard, ⟨h1, rfl, rfl, s.actionsStarted + 1, ?_⟩, ?_, ?_, hp.status, hp.timer,
      hp.pauseTimer⟩
    · change s.pending ++ [⟨blockFor s.selectedCard1Value (formatInt (s.cardValue j)), _⟩] = _
      rw [hpending, blockFor_eq hp hj]
      rfl
    · rintro m (rfl | rfl)
      · exact hp.valid m rfl
      · exact hj
    · intro i hi
      cases hi
  | @found i j _ _ difficulty timer hvalue hpending hd ht =>
    obtain ⟨defaults, presented, effects, heq⟩ := (s.marked base i j difficulty timer).finished_eq
    rw [resolvedFound, heq] at hboard ⊢
    refine ⟨hboard, ⟨rfl, rfl, rfl, rfl⟩, ?_, ?_, ?_, hp.timer, hp.pauseTimer⟩
    · intro m hm
      exact absurd hm (Hand.not_mem_empty m)
    · intro i hi
      cases hi
    · simp only [marked, scored, pairFound, List.length_set]
      exact hp.status
  | missed hvalue hpending hd ht =>
    refine ⟨hboard, ⟨rfl, rfl, rfl, rfl⟩, ?_, ?_, hp.status, hp.timer, hp.pauseTimer⟩
    · intro m hm
      exact absurd hm (Hand.not_mem_empty m)
    · intro i hi
      cases hi

end Kept

end PlayScene

/-- The scene when `didMove` has returned, after a shuffle with this outcome. -/
def Game.opened (g : Game) (sequence : List Int) : PlayScene :=
  { g.scene.boarded g.assets g.bounds sequence with pauseTimer := some g.now }

/-- A game starts with no card selected. -/
theorem Game.opened_playing (g : Game) {n : Nat} {sequence : List Int}
    (hn : PlayScene.Dealable g.scene n) (hperm : sequence.Perm (PlayScene.pairs n)) :
    (g.opened sequence).Playing 6 n .empty := by
  have hlength : sequence.length = 2 * n := by rw [hperm.length_eq, PlayScene.length_pairs]
  have hboard := @PlayScene.boarded_board g.assets g.bounds _ _ _ hn hperm
    ⟨g.difficulty, rfl⟩ ⟨g.time, rfl⟩
  refine ⟨hboard.of_skeleton rfl, ⟨rfl, rfl, rfl, rfl⟩, ?_, ?_, ?_, ⟨g.time, rfl⟩, ⟨g.now, rfl⟩⟩
  · intro k hk
    exact absurd hk (Hand.not_mem_empty k)
  · intro i hi
    cases hi
  · change (List.replicate sequence.length false).length = 2 * n
    rw [List.length_replicate, hlength]

namespace PlayScene

theorem run_playing {base n : Nat} {h : Hand Nat} {s t : PlayScene} {es : List Event}
    (hp : Playing base n h s) (hrun : Run step Occurs s es t) : ∃ h', Playing base n h' t := by
  refine hrun.preserves (I := fun s => ∃ h, Playing base n h s) ?_ ⟨h, hp⟩
  rintro s e t ⟨h, hp⟩ ho hs
  obtain ⟨h', houtcome⟩ := outcome_of_step hp ho hs
  exact ⟨h', houtcome.playing hp⟩

/-- No run changes what no event changes. -/
theorem run_skeleton {base n : Nat} {h : Hand Nat} {s t : PlayScene} {es : List Event}
    (hp : Playing base n h s) (hrun : Run step Occurs s es t) : t.skeleton = s.skeleton := by
  refine hrun.relates (I := fun s => ∃ h, Playing base n h s)
    (R := fun s t => t.skeleton = s.skeleton) ?_ (fun _ => rfl)
    (fun _ _ _ hst htu => htu.trans hst) ?_ ⟨h, hp⟩
  · rintro s e t ⟨h, hp⟩ ho hs
    obtain ⟨h', houtcome⟩ := outcome_of_step hp ho hs
    exact ⟨h', houtcome.playing hp⟩
  · rintro s e t ⟨h, hp⟩ ho hs
    obtain ⟨h', houtcome⟩ := outcome_of_step hp ho hs
    exact houtcome.skeleton

/-- Until its block fires, a pair stays selected as it was. -/
theorem two_waits {base n i j : Nat} {hne : i ≠ j} {s t : PlayScene} {es : List Event}
    (hp : Playing base n (.two i j hne) s) (hrun : Run step Occurs s es t)
    (hes : ∀ e ∈ es, ∀ b, e ≠ .fire b) :
    Playing base n (.two i j hne) t ∧ t.pending = s.pending := by
  refine (hrun.restrict hes).preserves
    (I := fun t => Playing base n (.two i j hne) t ∧ t.pending = s.pending) ?_ ⟨hp, rfl⟩
  rintro t e u ⟨hp, hpending⟩ ⟨ho, hfire⟩ hs
  obtain ⟨h', houtcome⟩ := outcome_of_step hp ho hs
  cases houtcome with
  | quiet _ hquiet => exact ⟨hquiet.playing hp, hquiet.pending.trans hpending⟩
  | found => exact absurd rfl (hfire _)
  | missed => exact absurd rfl (hfire _)

theorem selected_unique {s : PlayScene} {h h' : Hand Nat} (hs : Selected s h)
    (hs' : Selected s h') : h = h' := by
  cases h with
  | empty =>
    cases h' with
    | empty => rfl
    | one i => exact absurd (hs.1.symm.trans hs'.1) (by omega)
    | two i j hne => exact absurd (hs.1.symm.trans hs'.1) (by omega)
  | one i =>
    cases h' with
    | empty => exact absurd (hs'.1.symm.trans hs.1) (by omega)
    | one i' =>
      have hi : i = i' := Int.ofNat.inj (hs.1.symm.trans hs'.1)
      rw [hi]
    | two i' j' hne => exact absurd (hs.2.1.symm.trans hs'.2.1) (by omega)
  | two i j hne =>
    cases h' with
    | empty => exact absurd (hs'.1.symm.trans hs.1) (by omega)
    | one i' => exact absurd (hs'.2.1.symm.trans hs.2.1) (by omega)
    | two i' j' hne' =>
      have hi : i = i' := Int.ofNat.inj (hs.1.symm.trans hs'.1)
      have hj : j = j' := Int.ofNat.inj (hs.2.1.symm.trans hs'.2.1)
      subst hi hj
      rfl

/-- In every state of every run the selection, the lock and the pending blocks are
those of exactly one hand of valid cards; a pair waits unchanged for its block, which
runs to its end and leaves nothing selected. -/
theorem selection_protocol (g : Game) {s t : PlayScene} {es : List Event}
    (hstart : g.start = .ok s) (hrun : Run step Occurs s es t) :
    (∃! h, Selected t h) ∧
      (∀ h, Selected t h → ∀ k ∈ h, k < t.cards.length ∧ k < t.cardsBacks.length ∧
        k < t.cardsStatus.length ∧ k < t.cardsSequence.length) ∧
      ∀ i j hne, Selected t (.two i j hne) →
        (∀ fs u, Run step Occurs t fs u → (∀ e ∈ fs, ∀ b, e ≠ .fire b) →
          Selected u (.two i j hne) ∧ u.pending = t.pending) ∧
        ∀ b ∈ t.pending, ∃ u, step t (.fire b) = .ok u ∧ Selected u .empty := by
  obtain ⟨n, sequence, hn, hperm, rfl⟩ := Game.start_eq_ok hstart
  obtain ⟨h, hp⟩ := run_playing (g.opened_playing hn hperm) hrun
  refine ⟨⟨h, hp.selected, fun h' hs' => selected_unique hs' hp.selected⟩, ?_, ?_⟩
  · intro h' hs' k hk
    cases selected_unique hs' hp.selected
    have hlt := hp.valid k hk
    refine ⟨?_, ?_, ?_, ?_⟩
    · simpa [hp.board.cards] using hlt
    · simpa [hp.board.cardsBacks] using hlt
    · rwa [hp.status]
    · rwa [hp.board.length_sequence]
  · intro i j hne htwo
    cases selected_unique htwo hp.selected
    constructor
    · intro fs u hfs hfire
      obtain ⟨hp', hpending⟩ := two_waits hp hfs hfire
      exact ⟨hp'.selected, hpending⟩
    · intro b hb
      obtain ⟨u, hu, houtcome⟩ := fire_two hp hb
      exact ⟨u, hu, (houtcome.playing hp).selected⟩

/-- Two cards of unequal value turned, before a pause and a frame in it. -/
theorem selection_protocol_small : ∃ t,
    Game.small.played step Occurs [.touch 7, .touch 9, .togglePause 1 1, .frame 2] = some t ∧
      ∃! h, Selected t h := by
  obtain ⟨s, t, hs, ht, hrun⟩ := Game.run_of_played Game.small step Occurs
    [.touch 7, .touch 9, .togglePause 1 1, .frame 2] (by decide +kernel)
  exact ⟨t, ht, (selection_protocol Game.small hs hrun).1⟩

end PlayScene
end CardsGame
