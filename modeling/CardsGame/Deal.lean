import CardsGame.PlayScene

/-!
# The deal

`RemoveAllCards`, `FillCardSequence`, `CreateCardboard` and `ResetCardsStatus` in a
row. The board is described in closed form: `filled b m` is the scene `b` after
`m` calls of `CreateCard`, whose `k`-th call makes the nodes `frontId` and `backId`.
-/
namespace CardsGame
namespace PlayScene

open Swift SpriteKit
open Shuffle (Draws)

theorem foldl_removeFromParent (ns : List Nat) (s : PlayScene) :
    ns.foldl (fun s card => s.removeFromParent card) s =
      { s with children := s.children.filter (· ∉ ns) } := by
  induction ns generalizing s with
  | nil => simp
  | cons n ns ih =>
    rw [List.foldl_cons, ih]
    simp only [removeFromParent, List.filter_filter, List.mem_cons, not_or, Bool.decide_and,
      Bool.and_comm]

theorem removeAllCards_eq (s : PlayScene) :
    removeAllCards s =
      { s with
        children := s.children.filter (· ∉ s.cards ++ s.cardsBacks)
        cards := []
        cardsBacks := []
        cardsStatus := []
        cardsSequence := []
        selectedCard1Value := ""
        selectedCard2Value := ""
        selectedCardIndex1 := -1
        selectedCardIndex2 := -1 } := by
  simp only [removeAllCards, foldl_removeFromParent, List.filter_filter, List.mem_append, not_or,
    Bool.decide_and, Bool.and_comm]

@[simp] theorem cardsPerRow_removeAllCards (s : PlayScene) :
    (removeAllCards s).cardsPerRow = s.cardsPerRow := by rw [removeAllCards_eq]

@[simp] theorem cardsPerColumn_removeAllCards (s : PlayScene) :
    (removeAllCards s).cardsPerColumn = s.cardsPerColumn := by rw [removeAllCards_eq]

/-- Two of each value from 1 to `n`, before the shuffle. -/
def pairs (n : Nat) : List Int :=
  (List.range n).flatMap fun k : Nat => [1 + (k : Int), 1 + (k : Int)]

@[simp] theorem length_pairs (n : Nat) : (pairs n).length = 2 * n := by
  simp [pairs, List.length_flatMap, Nat.mul_comm]

theorem count_pairs (n : Nat) (v : Int) :
    (pairs n).count v = if 1 ≤ v ∧ v ≤ n then 2 else 0 := by
  induction n with
  | zero =>
    rw [if_neg (by omega)]
    rfl
  | succ n ih =>
    have hsplit : pairs (n + 1) = pairs n ++ [1 + (n : Int), 1 + (n : Int)] := by
      simp [pairs, List.range_succ]
    rw [hsplit, List.count_append, ih]
    by_cases hv : v = 1 + (n : Int)
    · subst hv
      rw [if_neg (by omega), if_pos (by omega)]
      simp
    · have hlast : [1 + (n : Int), 1 + (n : Int)].count v = 0 := by
        simp [Ne.symm hv]
      rw [hlast]
      by_cases hin : 1 ≤ v ∧ v ≤ n
      · rw [if_pos hin, if_pos (by omega)]
      · rw [if_neg hin, if_neg (by omega)]

theorem foldl_appendPairs (values : List Int) (s : PlayScene) :
    values.foldl (fun s i => { s with cardsSequence := s.cardsSequence ++ [i] ++ [i] }) s =
      { s with cardsSequence := s.cardsSequence ++ values.flatMap fun i => [i, i] } := by
  induction values generalizing s with
  | nil => simp
  | cons v values ih =>
    rw [List.foldl_cons, ih]
    simp

theorem flatMap_numbers (n : Nat) :
    ((List.range n).map fun k : Nat => 1 + (k : Int)).flatMap (fun i => [i, i]) = pairs n := by
  rw [List.flatMap_map]
  rfl

/-- With `n` pairs, the sequence is a rearrangement of them. -/
theorem fillCardSequence_ok (draws : Draws) {s : PlayScene} {n : Nat} (hn : 0 < n)
    (hboard : s.cardsPerRow * s.cardsPerColumn / 2 = n) (hfit : 2 * n ≤ 2 ^ 32 + 1) :
    ∃ sequence, sequence.Perm (pairs n) ∧
      fillCardSequence draws s = .ok { s with cardsSequence := sequence } := by
  have hlength : (pairs n).length ≤ 2 ^ 32 + 1 := by
    rw [length_pairs]
    exact hfit
  obtain ⟨sequence, hshuffle, hperm⟩ := Shuffle.shuffleArray_perm draws hlength
  refine ⟨sequence, hperm, ?_⟩
  simp only [fillCardSequence, hboard, closedRange_one hn, ok_bind, foldl_appendPairs,
    List.nil_append, flatMap_numbers, hshuffle]

theorem fillCardSequence_noPairs (draws : Draws) {s : PlayScene}
    (hboard : s.cardsPerRow * s.cardsPerColumn / 2 < 1) :
    fillCardSequence draws s = .error .emptyRange := by
  simp only [fillCardSequence, closedRange_empty hboard, error_bind]

theorem fillCardSequence_overflow (draws : Draws) {s : PlayScene} {n : Nat} (hn : 0 < n)
    (hboard : s.cardsPerRow * s.cardsPerColumn / 2 = n) (hlarge : 2 ^ 32 + 1 < 2 * n) :
    fillCardSequence draws s = .error .notRepresentable := by
  have hshuffle : Shuffle.shuffleArray draws (pairs n) = .error .notRepresentable :=
    Shuffle.shuffleArray_overflow draws (by simpa using hlarge)
  simp only [fillCardSequence, hboard, closedRange_one hn, ok_bind, foldl_appendPairs,
    List.nil_append, flatMap_numbers, hshuffle, error_bind]

def frontId (base k : Nat) : Nat := base + 2 * k
def backId (base k : Nat) : Nat := base + 2 * k + 1

/-- The value dealt to position `k`. -/
def cardValue (s : PlayScene) (k : Nat) : Int := s.cardsSequence[k]?.getD 0

/-- Where position `k` lies: column by column, `cardsPerColumn` cards in each. -/
def slot (s : PlayScene) (k : Nat) : Point :=
  let c := s.cardsPerColumn.toNat
  s.cardPosition ((k / c : Nat) : Int) ((k % c : Nat) : Int)

def frontNode (s : PlayScene) (k : Nat) : Node :=
  { image := "Number-" ++ formatInt (s.cardValue k)
    size := ⟨cardSizeX, cardSizeY⟩
    anchorPoint := ⟨1 / 2, 1 / 2⟩
    position := s.slot k
    zPosition := 9
    name := some (formatInt (s.cardValue k)) }

def backNode (s : PlayScene) (k : Nat) : Node :=
  { image := "CardBack"
    size := ⟨cardSizeX, cardSizeY⟩
    anchorPoint := ⟨1 / 2, 1 / 2⟩
    position := s.slot k
    zPosition := 9 + 1
    name := some (formatInt (s.cardValue k)) }

/-- The store after the cards of the first `m` positions were made. -/
def filledNode (b : PlayScene) (m : Nat) (n : Nat) : Node :=
  if b.nextNode ≤ n ∧ n < b.nextNode + 2 * m then
    if (n - b.nextNode) % 2 = 0 then b.frontNode ((n - b.nextNode) / 2)
    else b.backNode ((n - b.nextNode) / 2)
  else b.node n

/-- The scene after the cards of the first `m` positions were made. -/
def filled (b : PlayScene) (m : Nat) : PlayScene :=
  { b with
    node := filledNode b m
    nextNode := b.nextNode + 2 * m
    children := b.children ++
      (List.range m).flatMap fun k => [frontId b.nextNode k, backId b.nextNode k]
    cards := (List.range m).map (frontId b.nextNode)
    cardsBacks := (List.range m).map (backId b.nextNode) }

theorem filledNode_front (b : PlayScene) {m k : Nat} (h : k < m) :
    filledNode b m (frontId b.nextNode k) = b.frontNode k := by
  have hk : (frontId b.nextNode k - b.nextNode) = 2 * k := by simp [frontId]
  rw [filledNode, if_pos (by simp only [frontId]; omega), hk, if_pos (by omega),
    Nat.mul_div_cancel_left k (by omega)]

theorem filledNode_back (b : PlayScene) {m k : Nat} (h : k < m) :
    filledNode b m (backId b.nextNode k) = b.backNode k := by
  have hk : (backId b.nextNode k - b.nextNode) = 2 * k + 1 := by simp [backId, Nat.add_assoc]
  have hhalf : (2 * k + 1) / 2 = k := by omega
  rw [filledNode, if_pos (by simp only [backId]; omega), hk, if_neg (by omega), hhalf]

theorem filledNode_below (b : PlayScene) (m : Nat) {n : Nat} (h : n < b.nextNode) :
    filledNode b m n = b.node n := by
  rw [filledNode, if_neg (by omega)]

theorem filledNode_succ (b : PlayScene) (m : Nat) :
    Function.update (Function.update (filledNode b m) (b.nextNode + 2 * m) (b.frontNode m))
      (b.nextNode + 2 * m + 1) (b.backNode m) = filledNode b (m + 1) := by
  funext n
  by_cases hback : n = b.nextNode + 2 * m + 1
  · subst hback
    rw [Function.update_self]
    exact (filledNode_back b (Nat.lt_succ_self m)).symm
  · rw [Function.update_of_ne hback]
    by_cases hfront : n = b.nextNode + 2 * m
    · subst hfront
      rw [Function.update_self]
      exact (filledNode_front b (Nat.lt_succ_self m)).symm
    · rw [Function.update_of_ne hfront]
      by_cases hin : b.nextNode ≤ n ∧ n < b.nextNode + 2 * m
      · have hin' : b.nextNode ≤ n ∧ n < b.nextNode + 2 * (m + 1) := by omega
        rw [filledNode, filledNode, if_pos hin, if_pos hin']
      · have hin' : ¬ (b.nextNode ≤ n ∧ n < b.nextNode + 2 * (m + 1)) := by omega
        rw [filledNode, filledNode, if_neg hin, if_neg hin']

/-- The call of `CreateCard` for position `m`. -/
theorem createCard_filled (b : PlayScene) {m : Nat} (h : m < b.cardsSequence.length) :
    createCard (b.slot m).x (b.slot m).y (m : Int) (filled b m) = .ok (filled b (m + 1)) := by
  have hvalue : subscript (filled b m).cardsSequence (m : Int) = .ok (b.cardValue m) := by
    change subscript b.cardsSequence (m : Int) = _
    rw [subscript_lt h, cardValue, List.getElem?_eq_getElem h, Option.getD_some]
  simp only [createCard, hvalue, ok_bind, alloc, addChild]
  simp only [filled, List.range_succ, List.map_append, List.flatMap_append, Except.ok.injEq,
    PlayScene.mk.injEq, true_and, and_true]
  refine ⟨rfl, rfl, ?_, by omega, ?_⟩
  · exact filledNode_succ b m
  · simp [frontId, backId]

theorem createCard_pastEnd (b : PlayScene) (posX posY : ℚ) :
    createCard posX posY (b.cardsSequence.length : Int) b = .error .indexOutOfRange := by
  simp only [createCard, subscript_ge (Nat.le_refl b.cardsSequence.length), error_bind]

theorem filled_zero (s : PlayScene) :
    filled s 0 = { s with cards := [], cardsBacks := [] } := by
  have hnode : filledNode s 0 = s.node := by
    funext n
    rw [filledNode, if_neg (by omega)]
  simp [filled, hnode]

/-- The pass of the outer loop of `CreateCardboard` for column `i`. -/
def columnPass (s t : PlayScene) (i : Int) : Checked PlayScene := do
  let rows ← closedRange 0 (t.cardsPerColumn - 1)
  rows.foldlM (fun t j =>
    createCard (s.cardPosition i j).x (s.cardPosition i j).y (i * t.cardsPerColumn + j) t) t

theorem createCardboard_eq (s : PlayScene) :
    createCardboard s =
      (closedRange 0 (s.cardsPerRow - 1) >>= fun columns =>
        columns.foldlM (columnPass s) (filled s 0)) := by
  rw [filled_zero]
  rfl

section Columns

variable {s : PlayScene} {c : Nat} (hc : s.cardsPerColumn = c) (hpos : 0 < c)

include hc

theorem filled_idx (m i k : Nat) :
    (i : Int) * (filled s m).cardsPerColumn + k = ((i * c + k : Nat) : Int) := by
  change (i : Int) * s.cardsPerColumn + k = _
  rw [hc]
  push_cast
  rfl

include hpos

theorem slot_eq {i k : Nat} (hk : k < c) : s.slot (i * c + k) = s.cardPosition i k := by
  have hdiv : (i * c + k) / c = i := by
    rw [Nat.mul_comm, Nat.mul_add_div hpos, Nat.div_eq_of_lt hk, Nat.add_zero]
  have hmod : (i * c + k) % c = k := by
    rw [Nat.mul_comm, Nat.mul_add_mod, Nat.mod_eq_of_lt hk]
  rw [slot, hc, Int.toNat_natCast, hdiv, hmod]

theorem createCard_column {i k : Nat} (hk : k < c) (hlength : i * c + k < s.cardsSequence.length) :
    createCard (s.cardPosition i k).x (s.cardPosition i k).y
        (i * (filled s (i * c + k)).cardsPerColumn + k) (filled s (i * c + k)) =
      .ok (filled s (i * c + (k + 1))) := by
  rw [filled_idx hc, ← slot_eq hc hpos hk]
  exact createCard_filled s hlength

theorem columnRows (m : Nat) :
    closedRange 0 ((filled s m).cardsPerColumn - 1) =
      .ok ((List.range c).map fun k : Nat => (k : Int)) := by
  change closedRange 0 (s.cardsPerColumn - 1) = _
  rw [hc]
  exact closedRange_zero hpos

/-- With a value for every position of the column, the pass adds the column. -/
theorem columnPass_ok {i : Nat} (hlength : (i + 1) * c ≤ s.cardsSequence.length) :
    columnPass s (filled s (i * c)) i = .ok (filled s ((i + 1) * c)) := by
  rw [Nat.succ_mul] at hlength
  rw [columnPass, columnRows hc hpos, ok_bind, Nat.succ_mul]
  apply @foldlM_range PlayScene _ fun k => filled s (i * c + k)
  intro k hk
  exact createCard_column hc hpos hk (by omega)

/-- One value short, the last call of `CreateCard` reads past the end of the sequence. -/
theorem columnPass_short {i : Nat} (hlength : (i + 1) * c = s.cardsSequence.length + 1) :
    columnPass s (filled s (i * c)) i = .error .indexOutOfRange := by
  obtain ⟨j, rfl⟩ : ∃ j, c = j + 1 := ⟨c - 1, by omega⟩
  rw [Nat.succ_mul] at hlength
  have hend : i * (j + 1) + j = s.cardsSequence.length := by omega
  rw [columnPass, columnRows hc hpos, ok_bind]
  apply @foldlM_range_error PlayScene _ fun k => filled s (i * (j + 1) + k)
  · intro k hk
    exact createCard_column hc hpos (by omega) (by omega)
  · rw [filled_idx hc, hend]
    exact createCard_pastEnd (filled s s.cardsSequence.length) _ _

theorem createCardboard_ok {r : Nat} (hr : s.cardsPerRow = r) (hr0 : 0 < r)
    (hlength : r * c ≤ s.cardsSequence.length) :
    createCardboard s = .ok (filled s (r * c)) := by
  rw [createCardboard_eq, hr, closedRange_zero hr0, ok_bind, ← Nat.zero_mul c]
  apply @foldlM_range PlayScene _ fun i => filled s (i * c)
  intro i hi
  exact columnPass_ok hc hpos ((Nat.mul_le_mul_right c hi).trans hlength)

theorem createCardboard_short {r : Nat} (hr : s.cardsPerRow = r) (hr0 : 0 < r)
    (hlength : r * c = s.cardsSequence.length + 1) :
    createCardboard s = .error .indexOutOfRange := by
  obtain ⟨i, rfl⟩ : ∃ i, r = i + 1 := ⟨r - 1, by omega⟩
  rw [createCardboard_eq, hr, closedRange_zero hr0, ok_bind, ← Nat.zero_mul c]
  apply @foldlM_range_error PlayScene _ fun i => filled s (i * c)
  · intro k hk
    have hle := Nat.mul_le_mul_right c (show k + 1 ≤ i from hk)
    rw [Nat.succ_mul i] at hlength
    exact columnPass_ok hc hpos (by omega)
  · exact columnPass_short hc hpos hlength

end Columns

/-- A board with no columns or no rows stops the process. -/
theorem createCardboard_noCards {s : PlayScene}
    (h : s.cardsPerRow < 1 ∨ s.cardsPerColumn < 1) :
    createCardboard s = .error .emptyRange := by
  rw [createCardboard_eq]
  by_cases hrow : s.cardsPerRow < 1
  · rw [closedRange_empty (by omega), error_bind]
  · obtain ⟨r, hr⟩ : ∃ r : Nat, s.cardsPerRow = ((r + 1 : Nat) : Int) :=
      ⟨(s.cardsPerRow - 1).toNat, by omega⟩
    have hrows : columnPass s (filled s 0) 0 = .error .emptyRange := by
      have hempty : (filled s 0).cardsPerColumn - 1 < 0 := by
        change s.cardsPerColumn - 1 < 0
        omega
      rw [columnPass, closedRange_empty hempty, error_bind]
    rw [hr, closedRange_zero (Nat.succ_pos r), ok_bind, List.range_succ_eq_map, List.map_cons,
      List.foldlM_cons]
    simp [hrows]

theorem foldl_appendFalse (positions : List Int) (s : PlayScene) :
    positions.foldl (fun s _ => { s with cardsStatus := s.cardsStatus ++ [false] }) s =
      { s with cardsStatus := s.cardsStatus ++ List.replicate positions.length false } := by
  induction positions generalizing s with
  | nil => simp
  | cons i positions ih =>
    rw [List.foldl_cons, ih]
    simp [List.replicate_succ]

theorem resetCardsStatus_ok {s : PlayScene} (h : 0 < s.cardsSequence.length) :
    resetCardsStatus s =
      .ok { s with cardsStatus := List.replicate s.cardsSequence.length false } := by
  simp [resetCardsStatus, closedRange_zero h, foldl_appendFalse]

/-- The scene with no cards and a sequence to deal. -/
def withSequence (s : PlayScene) (sequence : List Int) : PlayScene :=
  { removeAllCards s with cardsSequence := sequence }

@[simp] theorem cardsPerRow_withSequence (s : PlayScene) (sequence : List Int) :
    (s.withSequence sequence).cardsPerRow = s.cardsPerRow := by
  rw [withSequence, removeAllCards_eq]

@[simp] theorem cardsPerColumn_withSequence (s : PlayScene) (sequence : List Int) :
    (s.withSequence sequence).cardsPerColumn = s.cardsPerColumn := by
  rw [withSequence, removeAllCards_eq]

@[simp] theorem nextNode_withSequence (s : PlayScene) (sequence : List Int) :
    (s.withSequence sequence).nextNode = s.nextNode := by
  rw [withSequence, removeAllCards_eq]

theorem node_withSequence (s : PlayScene) (sequence : List Int) :
    (s.withSequence sequence).node = s.node := by
  rw [withSequence, removeAllCards_eq]

@[simp] theorem cardsSequence_withSequence (s : PlayScene) (sequence : List Int) :
    (s.withSequence sequence).cardsSequence = sequence := rfl

theorem children_withSequence (s : PlayScene) (sequence : List Int) :
    (s.withSequence sequence).children = s.children.filter (· ∉ s.cards ++ s.cardsBacks) := by
  rw [withSequence, removeAllCards_eq]

/-- The scene after a deal whose shuffle produced `sequence`. -/
def dealt (s : PlayScene) (sequence : List Int) : PlayScene :=
  { filled (s.withSequence sequence) sequence.length with
    cardsStatus := List.replicate sequence.length false }

section Dealt

variable (s : PlayScene) (sequence : List Int)

@[simp] theorem cardsSequence_dealt : (s.dealt sequence).cardsSequence = sequence := rfl

@[simp] theorem cardsStatus_dealt :
    (s.dealt sequence).cardsStatus = List.replicate sequence.length false := rfl

@[simp] theorem cards_dealt :
    (s.dealt sequence).cards = (List.range sequence.length).map (frontId s.nextNode) := by
  rw [← nextNode_withSequence s sequence]
  rfl

@[simp] theorem cardsBacks_dealt :
    (s.dealt sequence).cardsBacks = (List.range sequence.length).map (backId s.nextNode) := by
  rw [← nextNode_withSequence s sequence]
  rfl

theorem children_dealt :
    (s.dealt sequence).children = s.children.filter (· ∉ s.cards ++ s.cardsBacks) ++
      (List.range sequence.length).flatMap fun k =>
        [frontId s.nextNode k, backId s.nextNode k] := by
  rw [← nextNode_withSequence s sequence, ← children_withSequence s sequence]
  rfl

theorem node_dealt_front {k : Nat} (h : k < sequence.length) :
    (s.dealt sequence).node (frontId s.nextNode k) = (s.withSequence sequence).frontNode k := by
  rw [← nextNode_withSequence s sequence]
  exact filledNode_front _ h

theorem node_dealt_back {k : Nat} (h : k < sequence.length) :
    (s.dealt sequence).node (backId s.nextNode k) = (s.withSequence sequence).backNode k := by
  rw [← nextNode_withSequence s sequence]
  exact filledNode_back _ h

end Dealt

/-- The boards that can be dealt: `n` pairs fill them, and the shuffle can count them. -/
structure Dealable (s : PlayScene) (n : Nat) : Prop where
  rows : 1 ≤ s.cardsPerRow
  columns : 1 ≤ s.cardsPerColumn
  board : s.cardsPerRow * s.cardsPerColumn = 2 * (n : Int)
  fits : 2 * n ≤ 2 ^ 32 + 1

theorem Dealable.pos {s : PlayScene} {n : Nat} (h : Dealable s n) : 0 < n := by
  have := Int.mul_pos (show 0 < s.cardsPerRow by linarith [h.rows])
    (show 0 < s.cardsPerColumn by linarith [h.columns])
  rw [h.board] at this
  omega

theorem Dealable.half {s : PlayScene} {n : Nat} (h : Dealable s n) :
    (removeAllCards s).cardsPerRow * (removeAllCards s).cardsPerColumn / 2 = n := by
  rw [cardsPerRow_removeAllCards, cardsPerColumn_removeAllCards, h.board]
  omega

/-- Once the sequence is filled, the rest of the deal lays the cards out in its order. -/
theorem deal_filled (draws : Draws) {s : PlayScene} {n : Nat} {sequence : List Int}
    (h : Dealable s n) (hlength : sequence.length = 2 * n)
    (hfill : fillCardSequence draws (removeAllCards s) = .ok (s.withSequence sequence)) :
    deal draws s = .ok (dealt s sequence) := by
  obtain ⟨r, hr⟩ : ∃ r : Nat, s.cardsPerRow = r := Int.eq_ofNat_of_zero_le (by linarith [h.rows])
  obtain ⟨c, hc⟩ : ∃ c : Nat, s.cardsPerColumn = c :=
    Int.eq_ofNat_of_zero_le (by linarith [h.columns])
  have hr0 : 0 < r := by have := h.rows; omega
  have hc0 : 0 < c := by have := h.columns; omega
  have hsize : r * c = 2 * n := by
    have := h.board
    rw [hr, hc] at this
    exact_mod_cast this
  have hcards : r * c = sequence.length := by rw [hlength, hsize]
  have hr' := (cardsPerRow_withSequence s sequence).trans hr
  have hc' := (cardsPerColumn_withSequence s sequence).trans hc
  have hboard := createCardboard_ok hc' hc0 hr' hr0 (Nat.le_of_eq hcards)
  rw [deal, hfill, ok_bind, hboard, ok_bind, hcards]
  have hpos : 0 < sequence.length := by
    have := h.pos
    omega
  exact resetCardsStatus_ok hpos

/-- A dealable board is dealt, with some rearrangement of the pairs. -/
theorem deal_ok (draws : Draws) {s : PlayScene} {n : Nat} (h : Dealable s n) :
    ∃ sequence, sequence.Perm (pairs n) ∧ deal draws s = .ok (dealt s sequence) := by
  obtain ⟨sequence, hperm, hfill⟩ := fillCardSequence_ok draws h.pos h.half h.fits
  have hlength : sequence.length = 2 * n := by rw [hperm.length_eq, length_pairs]
  exact ⟨sequence, hperm, deal_filled draws h hlength hfill⟩

/-- What a completed `FillCardSequence` leaves, and that it needs at least one pair. -/
theorem fillCardSequence_eq_ok (draws : Draws) {s t : PlayScene}
    (h : fillCardSequence draws s = .ok t) :
    ∃ (n : Nat) (sequence : List Int), 0 < n ∧ s.cardsPerRow * s.cardsPerColumn / 2 = n ∧
      2 * n ≤ 2 ^ 32 + 1 ∧ sequence.Perm (pairs n) ∧ t = { s with cardsSequence := sequence } := by
  by_cases hnone : s.cardsPerRow * s.cardsPerColumn / 2 < 1
  · rw [fillCardSequence_noPairs draws hnone] at h
    cases h
  · obtain ⟨n, hn⟩ : ∃ n : Nat, s.cardsPerRow * s.cardsPerColumn / 2 = n :=
      Int.eq_ofNat_of_zero_le (by omega)
    have hpos : 0 < n := by omega
    by_cases hfit : 2 * n ≤ 2 ^ 32 + 1
    · obtain ⟨sequence, hperm, hfill⟩ := fillCardSequence_ok draws hpos hn hfit
      rw [hfill, Except.ok.injEq] at h
      exact ⟨n, sequence, hpos, hn, hfit, hperm, h.symm⟩
    · rw [fillCardSequence_overflow draws hpos hn (by omega)] at h
      cases h

/-- Nothing else is dealt: an odd board runs out of values, an empty one has no range. -/
theorem dealable_of_deal (draws : Draws) {s t : PlayScene} (h : deal draws s = .ok t) :
    ∃ n, Dealable s n := by
  rw [deal, bind_eq_ok] at h
  obtain ⟨u, hfill, h⟩ := h
  obtain ⟨v, hboard, -⟩ := bind_eq_ok.mp h
  obtain ⟨n, sequence, hpos, hn, hfit, hperm, rfl⟩ := fillCardSequence_eq_ok draws hfill
  rw [cardsPerRow_removeAllCards, cardsPerColumn_removeAllCards] at hn
  have hlength : sequence.length = 2 * n := by rw [hperm.length_eq, length_pairs]
  change createCardboard (s.withSequence sequence) = .ok v at hboard
  by_cases hempty : s.cardsPerRow < 1 ∨ s.cardsPerColumn < 1
  · rw [createCardboard_noCards (by simpa using hempty)] at hboard
    cases hboard
  · obtain ⟨r, hr⟩ : ∃ r : Nat, s.cardsPerRow = r := Int.eq_ofNat_of_zero_le (by omega)
    obtain ⟨c, hc⟩ : ∃ c : Nat, s.cardsPerColumn = c := Int.eq_ofNat_of_zero_le (by omega)
    have hhalf : ((r * c : Nat) : Int) / 2 = n := by
      rw [← hn]
      push_cast
      rw [← hr, ← hc]
    by_cases heven : r * c = 2 * n
    · refine ⟨n, by omega, by omega, ?_, hfit⟩
      rw [hr, hc]
      exact_mod_cast heven
    · have hodd : r * c = sequence.length + 1 := by omega
      have hr' := (cardsPerRow_withSequence s sequence).trans hr
      have hc' := (cardsPerColumn_withSequence s sequence).trans hc
      rw [createCardboard_short hc' (by omega) hr' (by omega) hodd] at hboard
      cases hboard

/-- The nodes of the board have been allocated, so that a new node is none of them. -/
def Allocated (s : PlayScene) : Prop :=
  ∀ n, n ∈ s.cards ∨ n ∈ s.cardsBacks → n < s.nextNode

end PlayScene
end CardsGame
