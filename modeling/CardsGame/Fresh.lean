import CardsGame.Backdrop
import CardsGame.Reset
import CardsGame.Touch

/-!
# A fresh game

What a game looks like when it has just been dealt, and how much of it `ResetGame`
restores. It adds the six nodes of the frame without removing the old ones, so
the children never are those of a fresh game.
-/
namespace CardsGame

open Swift SpriteKit
open Ranking (UserDefaults)
open Shuffle (Draws)
open Runs (Run)

namespace PlayScene

/-- The children are one node of each kind of the frame, and a front and a back for every
position of the board. -/
def Furnished (s : PlayScene) : Prop :=
  ∃ background gameBack scoreLabel timeLabel pauseLayer pauseImg,
    (s.node background).name = some "Background" ∧ s.gameBack = some gameBack ∧
      s.scoreLabel = some scoreLabel ∧ s.timeLabel = some timeLabel ∧
      s.pauseLayer = some pauseLayer ∧ s.pauseImg = some pauseImg ∧
      s.children.Perm ([background, gameBack, scoreLabel, timeLabel, pauseLayer, pauseImg] ++
        (s.cards ++ s.cardsBacks)) ∧
      (s.cards.length : Int) = s.cardsPerRow * s.cardsPerColumn ∧
      (s.cardsBacks.length : Int) = s.cardsPerRow * s.cardsPerColumn

/-- The score is the one of the counters and the timer. -/
def ScoreUpToDate (s : PlayScene) : Prop :=
  ∃ difficulty timer, s.difficulty = some difficulty ∧ s.timer = some timer ∧
    s.score = s.scoreFor difficulty timer

/-- The pause layer and image are shown, once their actions are applied, exactly when
the game is paused. -/
def PauseShown (s : PlayScene) : Prop :=
  ∀ n, s.pauseLayer = some n ∨ s.pauseImg = some n → (s.node n).settled = !s.pauseState

/-- A newly dealt game. -/
structure Fresh (s : PlayScene) : Prop where
  unselected : s.selectedCardIndex1 = -1 ∧ s.selectedCardIndex2 = -1
  unlocked : s.lockInteraction = false
  counters : s.matchesCount = 0 ∧ s.tryCount = 0
  timer : s.timer = s.time
  score : ScoreUpToDate s
  furnished : Furnished s
  pauseShown : PauseShown s

/-- What can happen to a scene that is reset at any time. -/
def Happens (s : PlayScene) : Operation → Prop
  | .event e => Occurs s e
  | .reset _ => True

instance (s : PlayScene) (op : Operation) : Decidable (Happens s op) :=
  match op with
  | .event e => inferInstanceAs (Decidable (Occurs s e))
  | .reset _ => .isTrue trivial

theorem skeleton_of_backdrop {s t : PlayScene} (h : t.backdrop = s.backdrop) :
    t.skeleton = s.skeleton := by
  have hskeleton : t.backdrop.skeleton = s.backdrop.skeleton := by rw [h]
  exact hskeleton

/-- In every state, reachable or not, an event leaves the skeleton as it was. -/
theorem skeleton_step {s t : PlayScene} {e : Event} (h : step s e = .ok t) :
    t.skeleton = s.skeleton := by
  cases e with
  | touch nod => exact skeleton_of_backdrop (backdrop_step (e := .touch nod) trivial h)
  | fire b => exact skeleton_of_backdrop (backdrop_step (e := .fire b) trivial h)
  | frame currentTime =>
    obtain ⟨-, rfl⟩ | ⟨-, difficulty, timer, -, -, rfl⟩ := update_eq_ok h
    · rfl
    · simp only [skeleton, counted, scored, clocked, fixed_retext]
  | togglePause now later =>
    obtain ⟨rfl, -⟩ | ⟨-, pauseLayer, pauseImg, -, -, rfl⟩ := togglePause_eq_ok h
    · rfl
    · simp only [skeleton, toggled, fixed_queuePair]
  | accelerometer data =>
    cases h
    exact (quiet_accelerometer 0 data s).skeleton
  | evaluateActions n =>
    cases h
    exact (quiet_evaluate 0 n s).skeleton
  | leave =>
    cases h
    rfl

/-- The children that are not cards. -/
def furniture (s : PlayScene) : List Nat := s.children.filter (· ∉ s.cards ++ s.cardsBacks)

/-- What every reachable scene has: its nodes are allocated, and some are not cards. -/
structure Established (s : PlayScene) : Prop where
  cards : Allocated s
  children : ∀ n ∈ s.children, n < s.nextNode
  furniture : s.furniture ≠ []

theorem established_skeleton {s : PlayScene} : Established s.skeleton ↔ Established s :=
  ⟨fun h => ⟨h.cards, h.children, h.furniture⟩, fun h => ⟨h.cards, h.children, h.furniture⟩⟩

section Boarded

variable (assets : Assets) (bounds : Size) (sequence : List Int) {s : PlayScene}
  (hcards : Allocated s) (hchildren : ∀ n ∈ s.children, n < s.nextNode)

theorem mem_boarded_cards {n : Nat} :
    n ∈ (s.boarded assets bounds sequence).cards ++ (s.boarded assets bounds sequence).cardsBacks ↔
      ∃ k, k < sequence.length ∧
        (n = frontId (s.nextNode + 6) k ∨ n = backId (s.nextNode + 6) k) := by
  have hfronts := cards_dealt (s.framed assets bounds) sequence
  have hbacks := cardsBacks_dealt (s.framed assets bounds) sequence
  rw [boarded, hfronts, hbacks]
  simp only [List.mem_append, List.mem_map, List.mem_range]
  constructor
  · rintro (⟨k, hk, rfl⟩ | ⟨k, hk, rfl⟩)
    · exact ⟨k, hk, .inl rfl⟩
    · exact ⟨k, hk, .inr rfl⟩
  · rintro ⟨k, hk, rfl | rfl⟩
    · exact .inl ⟨k, hk, rfl⟩
    · exact .inr ⟨k, hk, rfl⟩

include hcards

/-- The old cards go, and the rest of the old children stays. -/
theorem children_boarded : (s.boarded assets bounds sequence).children =
    s.furniture ++ (List.range 6).map (s.nextNode + ·) ++
      (List.range sequence.length).flatMap fun k =>
        [frontId (s.nextNode + 6) k, backId (s.nextNode + 6) k] := by
  have hnew : ∀ n ∈ (List.range 6).map (s.nextNode + ·), n ∉ s.cards ++ s.cardsBacks := by
    intro n hn hcard
    have hlt := hcards n (List.mem_append.mp hcard)
    simp only [List.mem_map, List.mem_range] at hn
    omega
  have hkept : (s.children ++ (List.range 6).map (s.nextNode + ·)).filter
      (· ∉ s.cards ++ s.cardsBacks) = s.furniture ++ (List.range 6).map (s.nextNode + ·) := by
    rw [List.filter_append, furniture]
    congr 1
    rw [List.filter_eq_self]
    intro n hn
    exact decide_eq_true (hnew n hn)
  rw [← hkept]
  exact children_dealt (s.framed assets bounds) sequence

theorem length_children_boarded : (s.boarded assets bounds sequence).children.length =
    s.furniture.length + 6 + 2 * sequence.length := by
  rw [children_boarded assets bounds sequence hcards]
  simp [List.length_flatMap, Nat.mul_comm, Nat.add_assoc]

include hchildren

/-- A new board adds six nodes to the furniture and takes none away. -/
theorem furniture_boarded : (s.boarded assets bounds sequence).furniture =
    s.furniture ++ (List.range 6).map (s.nextNode + ·) := by
  have hbelow : ∀ n ∈ s.furniture ++ (List.range 6).map (s.nextNode + ·), n < s.nextNode + 6 := by
    intro n hn
    obtain hold | hsix := List.mem_append.mp hn
    · have hlt := hchildren n (List.mem_of_mem_filter hold)
      omega
    · simp only [List.mem_map, List.mem_range] at hsix
      omega
  have hcleared : ((List.range sequence.length).flatMap fun k =>
      [frontId (s.nextNode + 6) k, backId (s.nextNode + 6) k]).filter
        (· ∉ (s.boarded assets bounds sequence).cards ++
          (s.boarded assets bounds sequence).cardsBacks) = [] := by
    rw [List.filter_eq_nil_iff]
    intro n hn
    simp only [List.mem_flatMap, List.mem_range, List.mem_cons, List.not_mem_nil, or_false] at hn
    rw [decide_eq_true_eq, not_not]
    exact (mem_boarded_cards assets bounds sequence).mpr hn
  rw [furniture, children_boarded assets bounds sequence hcards, List.filter_append, hcleared,
    List.append_nil, List.filter_eq_self]
  intro n hn
  have hlt := hbelow n hn
  rw [decide_eq_true_eq, mem_boarded_cards]
  rintro ⟨k, -, rfl | rfl⟩
  · simp only [frontId] at hlt
    omega
  · simp only [backId] at hlt
    omega

theorem established_boarded : Established (s.boarded assets bounds sequence) := by
  have hnext : (s.boarded assets bounds sequence).nextNode =
      s.nextNode + 6 + 2 * sequence.length := by
    rw [boarded, dealt_eq]
    rfl
  have hcard : ∀ n, (∃ k, k < sequence.length ∧ (n = frontId (s.nextNode + 6) k ∨
      n = backId (s.nextNode + 6) k)) → n < s.nextNode + 6 + 2 * sequence.length := by
    rintro n ⟨k, hk, rfl | rfl⟩
    · simp only [frontId]
      omega
    · simp only [backId]
      omega
  constructor
  · intro n hn
    rw [hnext]
    exact hcard n ((mem_boarded_cards assets bounds sequence).mp (List.mem_append.mpr hn))
  · intro n hn
    rw [hnext]
    rw [children_boarded assets bounds sequence hcards, List.mem_append, List.mem_append] at hn
    obtain (hold | hsix) | hnew := hn
    · have hlt := hchildren n (List.mem_of_mem_filter hold)
      omega
    · simp only [List.mem_map, List.mem_range] at hsix
      omega
    · simp only [List.mem_flatMap, List.mem_range, List.mem_cons, List.not_mem_nil,
        or_false] at hnew
      exact hcard n hnew
  · rw [furniture_boarded assets bounds sequence hcards hchildren]
    simp

end Boarded

section Restored

variable {assets : Assets} {draws : Draws} {s t : PlayScene}

theorem Established.of_skeleton (hs : Established s) (h : t.skeleton = s.skeleton) :
    Established t := by
  rw [← established_skeleton, h]
  exact established_skeleton.mpr hs

theorem Established.reset (hs : Established s) (hreset : resetGame assets draws s = .ok t) :
    Established t := by
  obtain ⟨bounds, m, sequence, difficulty, timer, -, -, -, -, -, rfl⟩ := resetGame_eq_ok hreset
  have hboarded := established_boarded assets bounds sequence hs.cards hs.children
  exact hboarded.of_skeleton (skeleton_restarted difficulty timer _)

/-- The fields of a new board that were not on the old one. -/
theorem boarded_cleared (bounds : Size) (sequence : List Int) (s : PlayScene) :
    ((s.boarded assets bounds sequence).selectedCardIndex1 = -1 ∧
      (s.boarded assets bounds sequence).selectedCardIndex2 = -1) ∧
    (s.boarded assets bounds sequence).lockInteraction = s.lockInteraction ∧
    (s.boarded assets bounds sequence).time = s.time ∧
    (s.boarded assets bounds sequence).pauseState = s.pauseState ∧
    (s.boarded assets bounds sequence).pauseLayer = some (s.nextNode + 4) ∧
    (s.boarded assets bounds sequence).pauseImg = some (s.nextNode + 5) := by
  rw [boarded, dealt_eq]
  exact ⟨⟨rfl, rfl⟩, rfl, rfl, rfl, rfl, rfl⟩

/-- What `ResetStats` sets, and what it leaves alone. -/
theorem restarted_fields (difficulty : Int) (timer : ℚ) (s : PlayScene) :
    ((s.restarted difficulty timer).selectedCardIndex1 = s.selectedCardIndex1 ∧
      (s.restarted difficulty timer).selectedCardIndex2 = s.selectedCardIndex2) ∧
    ((s.restarted difficulty timer).matchesCount = 0 ∧
      (s.restarted difficulty timer).tryCount = 0) ∧
    (s.restarted difficulty timer).timer = (s.restarted difficulty timer).time ∧
    (s.restarted difficulty timer).lockInteraction = s.lockInteraction ∧
    (s.restarted difficulty timer).furniture = s.furniture :=
  ⟨⟨rfl, rfl⟩, ⟨rfl, rfl⟩, rfl, rfl, rfl⟩

theorem restarted_board (difficulty : Int) (timer : ℚ) (s : PlayScene) :
    (s.restarted difficulty timer).cards = s.cards ∧
      (s.restarted difficulty timer).cardsBacks = s.cardsBacks ∧
      (s.restarted difficulty timer).children = s.children :=
  ⟨rfl, rfl, rfl⟩

theorem Dealable.restarted {n : Nat} {difficulty : Int} {timer : ℚ} (h : Dealable s n) :
    Dealable (s.restarted difficulty timer) n :=
  ⟨h.rows, h.columns, h.board, h.fits⟩

theorem scoreUpToDate_restarted {difficulty : Int} (timer : ℚ)
    (hd : s.difficulty = some difficulty) :
    ScoreUpToDate (s.restarted difficulty timer) ↔ some (truncate timer) = s.time.map truncate := by
  have hscore : ∀ timer', scoreFor (s.restarted difficulty timer) difficulty timer' =
      truncate timer' := by
    intro timer'
    simp [scoreFor, restarted, scored]
  have hvalue : (s.restarted difficulty timer).score = truncate timer := by
    simp [restarted, scored, scoreFor]
  constructor
  · rintro ⟨difficulty', timer', hd', ht', hscore'⟩
    cases hd.symm.trans hd'
    rw [hscore, hvalue] at hscore'
    have htime : s.time = some timer' := ht'
    rw [htime, Option.map_some, hscore']
  · intro heq
    obtain ⟨timer', ht', htruncate⟩ := Option.map_eq_some_iff.mp heq.symm
    refine ⟨difficulty, timer', hd, ht', ?_⟩
    rw [hscore, hvalue, htruncate]

theorem pauseShown_restarted {difficulty : Int} {timer : ℚ} {layer img : Nat}
    (hl : s.pauseLayer = some layer) (hi : s.pauseImg = some img)
    (hlayer : (s.node layer).settled = true) (himg : (s.node img).settled = true) :
    PauseShown (s.restarted difficulty timer) ↔ s.pauseState = false := by
  have hsettled : ∀ n, ((s.restarted difficulty timer).node n).settled = (s.node n).settled := by
    intro n
    simp only [restarted, scored, settled_retext]
  constructor
  · intro hshown
    have hhidden := hshown layer (.inl hl)
    rw [hsettled, hlayer] at hhidden
    exact (Bool.not_eq_true' _).mp hhidden.symm
  · intro hpause n hn
    have hpause' : (s.restarted difficulty timer).pauseState = false := hpause
    rw [hsettled, hpause']
    obtain heq | heq := hn
    · cases hl.symm.trans heq
      exact hlayer
    · cases hi.symm.trans heq
      exact himg

/-- After a reset the selection is empty, the counters are zero and the timer is full. The lock
is what it was, the score has the old timer in it, the furniture has grown by six, and the
new pause layer and image are hidden, paused or not. -/
theorem reset_restores (hs : Established s) (hreset : resetGame assets draws s = .ok t) :
    (t.selectedCardIndex1 = -1 ∧ t.selectedCardIndex2 = -1) ∧
      (t.matchesCount = 0 ∧ t.tryCount = 0) ∧ t.timer = t.time ∧
      (t.lockInteraction = false ↔ s.lockInteraction = false) ∧
      (ScoreUpToDate t ↔ s.timer.map truncate = s.time.map truncate) ∧
      t.furniture = s.furniture ++ (List.range 6).map (s.nextNode + ·) ∧
      (PauseShown t ↔ s.pauseState = false) := by
  obtain ⟨bounds, m, sequence, difficulty, timer, -, -, -, hd, ht, rfl⟩ := resetGame_eq_ok hreset
  obtain ⟨hselection, hlock, htime, hpause, hl, hi⟩ := @boarded_cleared assets bounds sequence s
  obtain ⟨hd', -⟩ := @boarded_fields assets bounds sequence s
  have hlayer : ((s.boarded assets bounds sequence).node (s.nextNode + 4)).settled = true := by
    rw [node_boarded_button assets bounds sequence s (by decide)]
    rfl
  have himg : ((s.boarded assets bounds sequence).node (s.nextNode + 5)).settled = true := by
    rw [node_boarded_button assets bounds sequence s (by decide)]
    rfl
  obtain ⟨⟨h1, h2⟩, hcounters, htimer, hlock', hfurniture⟩ :=
    restarted_fields difficulty timer (s.boarded assets bounds sequence)
  refine ⟨⟨h1.trans hselection.1, h2.trans hselection.2⟩, hcounters, htimer, ?_, ?_, ?_, ?_⟩
  · rw [hlock', hlock]
  · rw [scoreUpToDate_restarted timer (hd'.trans hd), htime, ht, Option.map_some]
  · rw [hfurniture, furniture_boarded assets bounds sequence hs.cards hs.children]
  · rw [pauseShown_restarted hl hi hlayer himg, hpause]

/-- The children of a reset scene, counted. -/
theorem reset_children (hs : Established s) (hreset : resetGame assets draws s = .ok t) :
    ∃ m, Dealable s m ∧ Dealable t m ∧ t.cards.length = 2 * m ∧ t.cardsBacks.length = 2 * m ∧
      t.children.length = s.furniture.length + 6 + 2 * (2 * m) := by
  obtain ⟨bounds, m, sequence, difficulty, timer, -, hm, hperm, -, -, rfl⟩ := resetGame_eq_ok hreset
  have hlength : sequence.length = 2 * m := by rw [hperm.length_eq, length_pairs]
  have hfronts := cards_dealt (s.framed assets bounds) sequence
  have hbacks := cardsBacks_dealt (s.framed assets bounds) sequence
  have hdealable : Dealable (s.boarded assets bounds sequence) m := by
    rw [boarded, dealt_eq]
    exact ⟨hm.rows, hm.columns, hm.board, hm.fits⟩
  obtain ⟨hcards, hcardsBacks, hchildren⟩ :=
    restarted_board difficulty timer (s.boarded assets bounds sequence)
  refine ⟨m, hm, hdealable.restarted, ?_, ?_, ?_⟩
  · rw [hcards, boarded, hfronts, List.length_map, List.length_range, hlength]
  · rw [hcardsBacks, boarded, hbacks, List.length_map, List.length_range, hlength]
  · rw [hchildren, length_children_boarded assets bounds sequence hs.cards, hlength]

/-- The old furniture stays, so that no reset makes a fresh game. -/
theorem not_fresh (hs : Established s) (hreset : resetGame assets draws s = .ok t) : ¬ Fresh t := by
  obtain ⟨m, -, -, hfronts, hbacks, hcount⟩ := reset_children hs hreset
  intro hfresh
  obtain ⟨_, _, _, _, _, _, -, -, -, -, -, -, hchildren, -, -⟩ := hfresh.furnished
  have hlength := hchildren.length_eq
  have hsome := List.length_pos_of_ne_nil hs.furniture
  rw [hcount, List.length_append, List.length_append, hfronts, hbacks] at hlength
  simp only [List.length_cons, List.length_nil] at hlength
  omega

/-- Each reset leaves six children more than the one before. -/
theorem length_children_reset (hs : Established s) (hreset : resetGame assets draws s = .ok t)
    {draws' : Draws} {u : PlayScene} (hreset' : resetGame assets draws' t = .ok u) :
    u.children.length = t.children.length + 6 := by
  obtain ⟨-, -, -, -, -, hfurniture, -⟩ := reset_restores hs hreset
  obtain ⟨m, -, hm, -, -, hcount⟩ := reset_children hs hreset
  obtain ⟨m', hm', -, -, -, hcount'⟩ := reset_children (hs.reset hreset) hreset'
  have hpairs : m' = m := by
    have hboard := hm'.board.symm.trans hm.board
    omega
  rw [hcount', hcount, hfurniture, hpairs, List.length_append, List.length_map, List.length_range]
  omega

end Restored

/-- The children of a board, fronts and backs in turn, are its fronts and its backs. -/
theorem flatMap_cards_perm (base length : Nat) :
    ((List.range length).flatMap fun k => [frontId base k, backId base k]).Perm
      ((List.range length).map (frontId base) ++ (List.range length).map (backId base)) := by
  rw [List.map_eq_flatMap, List.map_eq_flatMap]
  exact (List.flatMap_append_perm (List.range length) (fun k => [frontId base k])
    fun k => [backId base k]).symm

/-- The scene that `didMove` sets up is fresh as soon as its score is first computed. -/
theorem opened_fresh (g : Game) {n : Nat} {sequence : List Int} (hn : Dealable g.scene n)
    (hperm : sequence.Perm (pairs n)) :
    Fresh ((g.opened sequence).scored g.difficulty g.time) := by
  have hlength : sequence.length = 2 * n := by rw [hperm.length_eq, length_pairs]
  have hplaying := g.opened_playing hn hperm
  have hchildren := g.children_opened sequence
  have hnode : ∀ m, m < 6 → (g.opened sequence).node m = buttonNode g.assets g.bounds g.scene m :=
    fun m hm => g.node_opened_button sequence hm
  have hfields : (g.opened sequence).matchesCount = 0 ∧ (g.opened sequence).tryCount = 0 ∧
      (g.opened sequence).difficulty = some g.difficulty ∧
      (g.opened sequence).timer = some g.time ∧ (g.opened sequence).time = some g.time ∧
      (g.opened sequence).pauseState = false := by
    rw [Game.opened, boarded, dealt_eq]
    exact ⟨rfl, rfl, rfl, rfl, rfl, rfl⟩
  have hbuttons : (g.opened sequence).gameBack = some 1 ∧ (g.opened sequence).scoreLabel = some 2 ∧
      (g.opened sequence).timeLabel = some 3 ∧ (g.opened sequence).pauseLayer = some 4 ∧
      (g.opened sequence).pauseImg = some 5 := by
    rw [Game.opened, boarded, dealt_eq]
    exact ⟨rfl, rfl, rfl, rfl, rfl⟩
  generalize g.opened sequence = s at *
  obtain ⟨hmatches, htries, hd, ht, htime, hpause⟩ := hfields
  obtain ⟨hback, hscore, hlabel, hlayer, himg⟩ := hbuttons
  have hboard := hplaying.board
  have hcards : (s.cards.length : Int) = s.cardsPerRow * s.cardsPerColumn ∧
      (s.cardsBacks.length : Int) = s.cardsPerRow * s.cardsPerColumn := by
    rw [hboard.dealable.board, hboard.cards, hboard.cardsBacks]
    simp
  constructor
  · exact ⟨hplaying.selected.1, hplaying.selected.2.1⟩
  · exact hplaying.selected.2.2.1
  · exact ⟨hmatches, htries⟩
  · exact ht.trans htime.symm
  · exact ⟨g.difficulty, g.time, hd, ht, rfl⟩
  · refine ⟨0, 1, 2, 3, 4, 5, ?_, hback, hscore, hlabel, hlayer, himg, ?_, hcards⟩
    · change (retext s.scoreLabel _ s.node 0).name = _
      rw [hscore, retext_of_ne (by decide), hnode 0 (by decide)]
      rfl
    · change s.children.Perm (_ ++ (s.cards ++ s.cardsBacks))
      rw [hchildren, hboard.cards, hboard.cardsBacks, hlength]
      exact (flatMap_cards_perm 6 (2 * n)).append_left _
  · intro m hm
    change (retext s.scoreLabel _ s.node m).settled = !s.pauseState
    rw [settled_retext, hpause]
    have hm' : m = 4 ∨ m = 5 := by
      obtain heq | heq := hm
      · exact .inl (Option.some.inj (heq.symm.trans hlayer))
      · exact .inr (Option.some.inj (heq.symm.trans himg))
    obtain rfl | rfl := hm'
    · rw [hnode 4 (by decide)]
      rfl
    · rw [hnode 5 (by decide)]
      rfl

/-- Every scene that a game leads to, through any events and resets, is established. -/
theorem run_established {g : Game} {s t : PlayScene} {ops : List Operation}
    (hstart : g.start = .ok s) (hrun : Run (perform g.assets) Happens s ops t) : Established t := by
  obtain ⟨n, sequence, -, -, rfl⟩ := Game.start_eq_ok hstart
  refine hrun.preserves (I := Established) ?_ ?_
  · intro s op t hs _ hstep
    cases op with
    | event e => exact hs.of_skeleton (skeleton_step hstep)
    | reset draws => exact hs.reset hstep
  · have hopened := @established_boarded g.assets g.bounds sequence g.scene
      (by rintro n (hn | hn) <;> cases hn) (by rintro n hn; cases hn)
    exact hopened.of_skeleton rfl

/-- In no state that a game leads to does a reset make a fresh game, and a second reset
does not leave what the first one left. -/
theorem reset_never_fresh (g : Game) {s t u : PlayScene} {ops : List Operation} {draws : Draws}
    (hstart : g.start = .ok s) (hrun : Run (perform g.assets) Happens s ops t)
    (hreset : resetGame g.assets draws t = .ok u) :
    ¬ Fresh u ∧ ∀ draws' v, resetGame g.assets draws' u = .ok v →
      v.children.length = u.children.length + 6 := by
  have hs := run_established hstart hrun
  exact ⟨not_fresh hs hreset, fun draws' v hreset' => length_children_reset hs hreset hreset'⟩

/-- A card turned and a frame, before the reset. -/
theorem reset_never_fresh_small : ∃ s t u, Game.small.start = .ok s ∧
    Run (perform Game.small.assets) Happens s [.event (.touch 7), .event (.frame 1)] t ∧
      resetGame Game.small.assets .first t = .ok u ∧ ¬ Fresh u := by
  obtain ⟨s, u, hs, hu, hrun⟩ := Game.run_of_played Game.small (perform Game.small.assets) Happens
    [.event (.touch 7), .event (.frame 1), .reset .first] (by decide +kernel)
  obtain _ | ⟨hm, hstep, _ | ⟨hm', hstep', _ | ⟨-, hreset, _ | _⟩⟩⟩ := hrun
  have hrun' := Run.cons hm hstep (.cons hm' hstep' (.nil _))
  exact ⟨s, _, u, hs, hrun', hreset, (reset_never_fresh Game.small hs hrun' hreset).1⟩

/-- A game reset right after it was set up. -/
theorem reset_not_fresh : ¬ ∀ (g : Game) (s t u : PlayScene) (ops : List Operation) (draws : Draws),
    g.start = .ok s → Run (perform g.assets) Happens s ops t →
      resetGame g.assets draws t = .ok u → Fresh u := by
  intro hall
  obtain ⟨s, u, hs, -, hrun⟩ := Game.run_of_played Game.small (perform Game.small.assets) Happens
    [.reset .first] (by decide +kernel)
  obtain _ | ⟨-, hreset, _ | _⟩ := hrun
  have hs' : Established s := run_established hs (.nil s)
  exact not_fresh hs' hreset (hall Game.small s s u [] .first hs (.nil s) hreset)

end PlayScene
end CardsGame
