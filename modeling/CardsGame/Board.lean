import Mathlib.Tactic.IntervalCases
import CardsGame.Deal
import CardsGame.Events
import CardsGame.Pairs

/-!
# The board of a game

What `didMove` and `ResetGame` build: six nodes of the frame around the cards, then
the cards, a front and a back for each position. From then on no event changes
anything of it but texts, hidden flags and queued actions, which is what
`skeleton` leaves out.
-/
namespace CardsGame

open Swift SpriteKit
open Ranking (UserDefaults)
open Shuffle (Draws)

namespace PlayScene

/-- The nodes that `CreateGameButtons` adds, in order. -/
def buttonNode (assets : Assets) (bounds : Size) (s : PlayScene) : Nat → Node
  | 0 =>
    { image := "Background"
      position := ⟨s.size.width / 2, s.size.height / 2⟩
      size := ⟨bounds.width * 2, bounds.height * 2⟩
      name := some "Background" }
  | 1 =>
    let back := assets.imageSize "back"
    { image := "back"
      anchorPoint := ⟨1 / 2, 1 / 2⟩
      size := ⟨back.width * (3 / 4), back.height / 2⟩
      position := ⟨back.width * (3 / 4) / 2, 45⟩
      zPosition := 10
      name := some "GameBack" }
  | 2 =>
    { kind := .label
      fontName := "Chalkduster"
      position := ⟨s.size.width / 2 - 150, s.size.height - 40⟩
      text := "hello"
      fontSize := 32
      zPosition := 10 }
  | 3 =>
    { kind := .label
      fontName := "Chalkduster"
      position := ⟨s.size.width - 150, s.size.height - 40⟩
      text := "hello"
      fontSize := 32
      zPosition := 10 }
  | 4 =>
    { image := "Background"
      position := ⟨s.size.width / 2, s.size.height / 2⟩
      zPosition := 100
      size := ⟨bounds.width * 2, bounds.height * 2⟩
      name := some "pauseLayer"
      actions := [⟨true, s.actionsStarted⟩] }
  | _ =>
    { image := "pause"
      position := ⟨s.size.width / 2, s.size.height / 2⟩
      zPosition := 100
      size := ⟨bounds.width, bounds.height⟩
      name := some "pauseImg"
      actions := [⟨true, s.actionsStarted + 1⟩] }

def framedNode (assets : Assets) (bounds : Size) (s : PlayScene) (n : Nat) : Node :=
  if s.nextNode ≤ n ∧ n < s.nextNode + 6 then buttonNode assets bounds s (n - s.nextNode)
  else s.node n

/-- The scene after `CreateGameButtons`. -/
def framed (assets : Assets) (bounds : Size) (s : PlayScene) : PlayScene :=
  { s with
    node := framedNode assets bounds s
    nextNode := s.nextNode + 6
    children := s.children ++ (List.range 6).map (s.nextNode + ·)
    gameBack := some (s.nextNode + 1)
    scoreLabel := some (s.nextNode + 2)
    timeLabel := some (s.nextNode + 3)
    pauseLayer := some (s.nextNode + 4)
    pauseImg := some (s.nextNode + 5)
    actionsStarted := s.actionsStarted + 1 + 1 }

theorem createGameButtons_ok (assets : Assets) {s : PlayScene} {bounds : Size}
    (h : s.view = some bounds) :
    createGameButtons assets s = .ok (s.framed assets bounds) := by
  have hview : unwrap s.view = .ok bounds := unwrap_eq_ok.mpr h
  simp only [createGameButtons, createBackGround, hview, ok_bind, alloc, addChild, runAction,
    framed, Except.ok.injEq, PlayScene.mk.injEq, true_and, and_true]
  simp only [Function.update_idem, Function.update_self, Nat.add_assoc, Nat.reduceAdd]
  refine ⟨?_, by simp [List.range_succ]⟩
  funext n
  by_cases hin : s.nextNode ≤ n ∧ n < s.nextNode + 6
  · obtain ⟨k, rfl⟩ := Nat.exists_eq_add_of_le hin.1
    have hk : k < 6 := by omega
    rw [framedNode, if_pos hin, Nat.add_sub_cancel_left]
    interval_cases k <;> simp [buttonNode, Node.queue]
  · have hout : ∀ k, k < 6 → n ≠ s.nextNode + k := by omega
    have hfirst : n ≠ s.nextNode := hout 0 (by decide)
    rw [framedNode, if_neg hin, Function.update_of_ne (hout 5 (by decide)),
      Function.update_of_ne (hout 4 (by decide)), Function.update_of_ne (hout 3 (by decide)),
      Function.update_of_ne (hout 2 (by decide)), Function.update_of_ne (hout 1 (by decide)),
      Function.update_of_ne hfirst]

theorem createGameButtons_noView (assets : Assets) {s : PlayScene} (h : s.view = none) :
    createGameButtons assets s = .error .nilUnwrapped := by
  have hview : unwrap s.view = .error .nilUnwrapped := by rw [h, unwrap_none]
  simp only [createGameButtons, createBackGround, hview, error_bind]

/-- The scene without what its events change. -/
def skeleton (s : PlayScene) : PlayScene :=
  { s with
    view := none
    timer := none
    pauseState := false
    pauseTimer := none
    cardsStatus := []
    selectedCardIndex1 := -1
    selectedCardIndex2 := -1
    selectedCard1Value := ""
    selectedCard2Value := ""
    lockInteraction := false
    matchesCount := 0
    tryCount := 0
    score := 0
    lastUpdateTimeInterval := none
    firstFrame := true
    lastZ := 0
    gravity := ⟨0, 0⟩
    node := fun n => (s.node n).fixed
    actionsStarted := 0
    pending := []
    defaults := UserDefaults.empty
    presented := []
    effects := [] }

/-- `n` pairs are on the board, the node of the first front being `base`. -/
structure Board (base n : Nat) (s : PlayScene) : Prop where
  dealable : Dealable s n
  sequence : s.cardsSequence.Perm (pairs n)
  cards : s.cards = (List.range (2 * n)).map (frontId base)
  cardsBacks : s.cardsBacks = (List.range (2 * n)).map (backId base)
  front_name : ∀ k, k < 2 * n → (s.node (frontId base k)).name = some (formatInt (s.cardValue k))
  back_name : ∀ k, k < 2 * n → (s.node (backId base k)).name = some (formatInt (s.cardValue k))
  inScene : ∀ k, k < 2 * n → frontId base k ∈ s.children ∧ backId base k ∈ s.children
  difficulty : ∃ difficulty, s.difficulty = some difficulty
  time : ∃ time, s.time = some time
  scoreLabel : ∀ label, s.scoreLabel = some label → label < base
  timeLabel : ∀ label, s.timeLabel = some label → label < base
  pauseNodes : ∃ pauseLayer pauseImg, s.pauseLayer = some pauseLayer ∧ s.pauseImg = some pauseImg ∧
    pauseLayer < base ∧ pauseImg < base

theorem dealable_skeleton {n : Nat} {s : PlayScene} : Dealable s.skeleton n ↔ Dealable s n :=
  ⟨fun h => ⟨h.rows, h.columns, h.board, h.fits⟩, fun h => ⟨h.rows, h.columns, h.board, h.fits⟩⟩

theorem board_skeleton {base n : Nat} {s : PlayScene} :
    Board base n s.skeleton ↔ Board base n s :=
  ⟨fun h => ⟨dealable_skeleton.mp h.dealable, h.sequence, h.cards, h.cardsBacks, h.front_name,
      h.back_name, h.inScene, h.difficulty, h.time, h.scoreLabel, h.timeLabel, h.pauseNodes⟩,
    fun h => ⟨dealable_skeleton.mpr h.dealable, h.sequence, h.cards, h.cardsBacks, h.front_name,
      h.back_name, h.inScene, h.difficulty, h.time, h.scoreLabel, h.timeLabel, h.pauseNodes⟩⟩

theorem Board.of_skeleton {base n : Nat} {s t : PlayScene} (hb : Board base n s)
    (h : t.skeleton = s.skeleton) : Board base n t := by
  rw [← board_skeleton, h]
  exact board_skeleton.mpr hb

namespace Board

variable {base n : Nat} {s : PlayScene} (hb : Board base n s)

include hb

theorem length_sequence : s.cardsSequence.length = 2 * n := by
  rw [hb.sequence.length_eq, length_pairs]

theorem card_getElem? {k : Nat} (hk : k < 2 * n) : s.cards[k]? = some (frontId base k) := by
  simp [hb.cards, hk]

theorem back_getElem? {k : Nat} (hk : k < 2 * n) : s.cardsBacks[k]? = some (backId base k) := by
  simp [hb.cardsBacks, hk]

theorem backs_nodup : s.cardsBacks.Nodup := by
  rw [hb.cardsBacks]
  apply List.nodup_range.map
  intro j k hjk
  simp only [backId] at hjk
  omega

theorem mem_backs {m : Nat} : m ∈ s.cardsBacks ↔ ∃ k, k < 2 * n ∧ m = backId base k := by
  rw [hb.cardsBacks]
  simp [eq_comm]

/-- The values on the board are the positive numbers up to `n`. -/
theorem value_pos {k : Nat} (hk : k < 2 * n) : ∃ m : Nat, 0 < m ∧ s.cardValue k = m := by
  have hlt : k < s.cardsSequence.length := by rw [hb.length_sequence]; exact hk
  have hmem : s.cardValue k ∈ pairs n := by
    rw [cardValue, List.getElem?_eq_getElem hlt, Option.getD_some]
    exact hb.sequence.mem_iff.mp (List.getElem_mem hlt)
  have hcount := List.count_pos_iff.mpr hmem
  rw [count_pairs] at hcount
  obtain ⟨m, hm⟩ : ∃ m : Nat, s.cardValue k = m :=
    Int.eq_ofNat_of_zero_le (by split at hcount <;> omega)
  refine ⟨m, ?_, hm⟩
  split at hcount <;> omega

/-- Names agree exactly when the values do. -/
theorem formatInt_inj {j k : Nat} (hj : j < 2 * n) (hk : k < 2 * n) :
    formatInt (s.cardValue j) = formatInt (s.cardValue k) ↔ s.cardValue j = s.cardValue k := by
  obtain ⟨v, -, hv⟩ := hb.value_pos hj
  obtain ⟨w, -, hw⟩ := hb.value_pos hk
  rw [hv, hw]
  constructor
  · intro h
    rw [toString_natCast_injective h]
  · intro h
    rw [h]

/-- Every card has exactly one partner of its value. -/
theorem paired : Pairs.Paired (Finset.range (2 * n)) s.cardValue := by
  rw [← hb.length_sequence]
  apply Pairs.paired_of_count 0
  intro v hv
  rw [hb.sequence.mem_iff, ← List.count_pos_iff, count_pairs] at hv
  rw [hb.sequence.count_eq, count_pairs]
  split at hv <;> simp_all

end Board

/-- The scene after a deal, field by field. -/
theorem dealt_eq (s : PlayScene) (sequence : List Int) :
    s.dealt sequence =
      { s with
        node := filledNode (s.withSequence sequence) sequence.length
        nextNode := s.nextNode + 2 * sequence.length
        children := s.children.filter (· ∉ s.cards ++ s.cardsBacks) ++
          (List.range sequence.length).flatMap fun k => [frontId s.nextNode k, backId s.nextNode k]
        cards := (List.range sequence.length).map (frontId s.nextNode)
        cardsBacks := (List.range sequence.length).map (backId s.nextNode)
        cardsStatus := List.replicate sequence.length false
        cardsSequence := sequence
        selectedCard1Value := ""
        selectedCard2Value := ""
        selectedCardIndex1 := -1
        selectedCardIndex2 := -1 } := by
  rw [dealt, filled, withSequence, removeAllCards_eq]

/-- The scene around a board that has been dealt. -/
def boarded (assets : Assets) (bounds : Size) (sequence : List Int) (s : PlayScene) : PlayScene :=
  (s.framed assets bounds).dealt sequence

/-- The frame lies below the cards in the store, and the deal leaves it alone. -/
theorem node_boarded_button (assets : Assets) (bounds : Size) (sequence : List Int) (s : PlayScene)
    {m : Nat} (hm : m < 6) :
    (s.boarded assets bounds sequence).node (s.nextNode + m) = buttonNode assets bounds s m := by
  have hin : s.nextNode ≤ s.nextNode + m ∧ s.nextNode + m < s.nextNode + 6 := by omega
  have hframed : (s.framed assets bounds).node (s.nextNode + m) = buttonNode assets bounds s m := by
    change framedNode assets bounds s (s.nextNode + m) = _
    rw [framedNode, if_pos hin, Nat.add_sub_cancel_left]
  rw [boarded, dealt_eq, ← hframed]
  refine (filledNode_below _ _ ?_).trans (congrFun (node_withSequence _ sequence) _)
  rw [nextNode_withSequence]
  exact hin.2

/-- Frame and deal complete exactly for a dealable board and a scene with a view. -/
theorem boarded_of_ok {assets : Assets} {draws : Draws} {s t u : PlayScene}
    (hbuttons : createGameButtons assets s = .ok t) (hdeal : deal draws t = .ok u) :
    ∃ bounds n sequence, s.view = some bounds ∧ Dealable s n ∧ sequence.Perm (pairs n) ∧
      u = s.boarded assets bounds sequence := by
  cases hview : s.view with
  | none =>
    rw [createGameButtons_noView assets hview] at hbuttons
    cases hbuttons
  | some bounds =>
    rw [createGameButtons_ok assets hview, Except.ok.injEq] at hbuttons
    subst hbuttons
    obtain ⟨n, hn⟩ := dealable_of_deal draws hdeal
    obtain ⟨sequence, hperm, hok⟩ := deal_ok draws hn
    rw [hok, Except.ok.injEq] at hdeal
    exact ⟨bounds, n, sequence, rfl, ⟨hn.rows, hn.columns, hn.board, hn.fits⟩, hperm, hdeal.symm⟩

theorem boarded_board {assets : Assets} {bounds : Size} {s : PlayScene} {n : Nat}
    {sequence : List Int} (hn : Dealable s n) (hperm : sequence.Perm (pairs n))
    (hd : ∃ difficulty, s.difficulty = some difficulty) (ht : ∃ time, s.time = some time) :
    Board (s.nextNode + 6) n (s.boarded assets bounds sequence) := by
  have hlength : sequence.length = 2 * n := by rw [hperm.length_eq, length_pairs]
  have hvalue : ∀ k, (s.boarded assets bounds sequence).cardValue k =
      ((s.framed assets bounds).withSequence sequence).cardValue k := by
    intro k
    rw [cardValue, cardValue, boarded, cardsSequence_dealt, cardsSequence_withSequence]
  constructor
  · rw [boarded, dealt_eq]
    exact ⟨hn.rows, hn.columns, hn.board, hn.fits⟩
  · exact hperm
  · rw [boarded, cards_dealt, hlength]
    rfl
  · rw [boarded, cardsBacks_dealt, hlength]
    rfl
  · intro k hk
    rw [hvalue]
    exact congrArg Node.name (node_dealt_front (s.framed assets bounds) sequence (hlength ▸ hk))
  · intro k hk
    rw [hvalue]
    exact congrArg Node.name (node_dealt_back (s.framed assets bounds) sequence (hlength ▸ hk))
  · intro k hk
    rw [boarded, children_dealt, hlength]
    simp only [List.mem_append, List.mem_flatMap, List.mem_range, List.mem_cons]
    exact ⟨.inr ⟨k, hk, .inl rfl⟩, .inr ⟨k, hk, .inr (.inl rfl)⟩⟩
  · rw [boarded, dealt_eq]
    exact hd
  · rw [boarded, dealt_eq]
    exact ht
  · rw [boarded, dealt_eq]
    rintro label ⟨⟩
    omega
  · rw [boarded, dealt_eq]
    rintro label ⟨⟩
    omega
  · rw [boarded, dealt_eq]
    exact ⟨s.nextNode + 4, s.nextNode + 5, rfl, rfl, by omega, by omega⟩

end PlayScene

/-- Everything a game depends on: what the view and the menu hand to the scene, and
the draws of the shuffle. -/
structure Game where
  assets : Assets
  draws : Draws
  /-- The date `didMove` reads. -/
  now : ℚ
  size : Size
  bounds : Size
  difficulty : Int
  time : ℚ
  cardsPerRow : Int
  cardsPerColumn : Int
  defaults : UserDefaults

namespace Game

/-- The scene as `SetDifficulty` leaves it. -/
def scene (g : Game) : PlayScene :=
  { size := g.size
    view := some g.bounds
    difficulty := some g.difficulty
    timer := some g.time
    time := some g.time
    cardsPerRow := g.cardsPerRow
    cardsPerColumn := g.cardsPerColumn
    defaults := g.defaults }

/-- The scene when `didMove` has returned. -/
def start (g : Game) : Checked PlayScene := g.scene.setUp g.assets g.draws g.now

/-- What `SetDifficulty` makes of a game. -/
def levelled (g : Game) : Game :=
  if g.difficulty = 0 then { g with time := 120, cardsPerColumn := 4, cardsPerRow := 3 }
  else if g.difficulty = 1 then { g with time := 210, cardsPerColumn := 4, cardsPerRow := 4 }
  else if g.difficulty = 2 then { g with time := 250, cardsPerColumn := 5, cardsPerRow := 4 }
  else g

/-- `didMove` starts the game of its difficulty; a difficulty that `SetDifficulty`
does not know leaves the board and the time as they were. -/
theorem didMove_eq_start (g : Game) :
    g.scene.didMove g.assets g.draws g.now = g.levelled.start := by
  change PlayScene.setUp g.assets g.draws g.now (PlayScene.setDifficulty g.difficulty g.scene) = _
  unfold PlayScene.setDifficulty levelled
  split
  · rfl
  · split
    · rfl
    · split <;> rfl

/-- A game that starts has a dealable board, and this is its scene. -/
theorem start_eq_ok {g : Game} {s : PlayScene} (h : g.start = .ok s) :
    ∃ n sequence, PlayScene.Dealable g.scene n ∧ sequence.Perm (PlayScene.pairs n) ∧
      s = { g.scene.boarded g.assets g.bounds sequence with pauseTimer := some g.now } := by
  obtain ⟨t, hbuttons, h⟩ := bind_eq_ok.mp h
  obtain ⟨u, hdeal, h⟩ := bind_eq_ok.mp h
  obtain ⟨bounds, n, sequence, hview, hn, hperm, rfl⟩ := PlayScene.boarded_of_ok hbuttons hdeal
  cases hview
  cases h
  exact ⟨n, sequence, hn, hperm, rfl⟩

section Played

variable {ε : Type} (g : Game) (step : PlayScene → ε → Checked PlayScene)
  (may : PlayScene → ε → Prop) [∀ s e, Decidable (may s e)] (es : List ε)

/-- The run of a list of events, from the start of the game. -/
def played : Option PlayScene :=
  match g.start with
  | .ok s => Runs.replay step may s es
  | .error _ => none

theorem run_of_played (h : (g.played step may es).isSome) :
    ∃ s t, g.start = .ok s ∧ g.played step may es = some t ∧ Runs.Run step may s es t := by
  obtain ⟨t, ht⟩ := Option.isSome_iff_exists.mp h
  cases hs : g.start with
  | error e => simp [played, hs] at ht
  | ok s =>
    refine ⟨s, t, rfl, ht, ?_⟩
    simp only [played, hs] at ht
    exact Runs.replay_run ht

theorem run_of_map {β : Type} {f : PlayScene → β} {v : β}
    (h : (g.played step may es).map f = some v) :
    ∃ s t, g.start = .ok s ∧ g.played step may es = some t ∧ Runs.Run step may s es t ∧
      f t = v := by
  obtain ⟨t, ht, hv⟩ := Option.map_eq_some_iff.mp h
  obtain ⟨s, t', hs, ht', hrun⟩ := run_of_played g step may es (by rw [ht]; rfl)
  cases ht.symm.trans ht'
  exact ⟨s, t, hs, ht, hrun, hv⟩

end Played

/-- A game with two by two cards, whose shuffle always draws 0: the cards at 0 and 3
are a pair, and those at 1 and 2. -/
def small : Game where
  assets := ⟨fun _ => ⟨120, 60⟩, fun _ _ _ => ⟨⟨-70, -8⟩, ⟨140, 32⟩⟩, fun r => ⟨2 * r, 2 * r⟩⟩
  draws := .first
  now := 0
  size := ⟨750, 1334⟩
  bounds := ⟨375, 667⟩
  difficulty := 0
  time := 120
  cardsPerRow := 2
  cardsPerColumn := 2
  defaults := .empty

end Game
end CardsGame
