import CardsGame.Deal
import CardsGame.Spread

/-!
# The layout of the board

`CreateCardboard` spreads the columns over the width of the scene and the rows over its
height. The size of a card is a parameter here; the code has 80 by 120.
-/
namespace CardsGame

open Swift SpriteKit

/-- The rectangle lies within a scene of the given size. -/
def Inside (scene : Size) (r : Rect) : Prop :=
  0 ≤ r.origin.x ∧ r.origin.x + r.size.width ≤ scene.width ∧
    0 ≤ r.origin.y ∧ r.origin.y + r.size.height ≤ scene.height

/-- The point lies in the rectangle and on none of its edges. -/
def Interior (r : Rect) (p : Point) : Prop :=
  r.origin.x < p.x ∧ p.x < r.origin.x + r.size.width ∧
    r.origin.y < p.y ∧ p.y < r.origin.y + r.size.height

namespace PlayScene

/-- The position `CreateCardboard` computes, for cards of any size. -/
def positionFor (card : Size) (s : PlayScene) (i j : Int) : Point :=
  let offsetX := (s.size.width - s.cardsPerRow * card.width) / ((s.cardsPerRow + 1 : Int) : ℚ)
  let offsetY := (s.size.height - s.cardsPerColumn * card.height) /
    ((s.cardsPerColumn + 1 : Int) : ℚ)
  ⟨offsetX + card.width / 2 + i * (card.width + offsetX),
    offsetY + card.height / 2 + j * (card.height + offsetY)⟩

theorem cardPosition_eq (s : PlayScene) (i j : Int) :
    s.cardPosition i j = positionFor ⟨cardSizeX, cardSizeY⟩ s i j := rfl

/-- The rectangle of the card in column `i` and row `j`. -/
def cardRect (card : Size) (s : PlayScene) (i j : Int) : Rect :=
  anchored card ⟨1 / 2, 1 / 2⟩ (positionFor card s i j)

/-- The columns and rows of the board. -/
def Slot (s : PlayScene) (i j : Int) : Prop :=
  0 ≤ i ∧ i < s.cardsPerRow ∧ 0 ≤ j ∧ j < s.cardsPerColumn

/-- No point is in the interior of two cards. -/
def Apart (card : Size) (s : PlayScene) : Prop :=
  ∀ i j i' j' p, Slot s i j → Slot s i' j' → Interior (cardRect card s i j) p →
    Interior (cardRect card s i' j') p → i = i' ∧ j = j'

section Spread

variable (card : Size) (s : PlayScene) (i j : Int)

theorem left_cardRect : (cardRect card s i j).origin.x =
    Spread.lower s.size.width card.width s.cardsPerRow i := by
  simp only [cardRect, anchored, positionFor, Spread.lower, Spread.centre, Spread.gap]
  ring

theorem right_cardRect : (cardRect card s i j).origin.x + card.width =
    Spread.upper s.size.width card.width s.cardsPerRow i := by
  rw [left_cardRect, Spread.lower, Spread.upper]
  ring

theorem bottom_cardRect : (cardRect card s i j).origin.y =
    Spread.lower s.size.height card.height s.cardsPerColumn j := by
  simp only [cardRect, anchored, positionFor, Spread.lower, Spread.centre, Spread.gap]
  ring

theorem top_cardRect : (cardRect card s i j).origin.y + card.height =
    Spread.upper s.size.height card.height s.cardsPerColumn j := by
  rw [bottom_cardRect, Spread.lower, Spread.upper]
  ring

theorem inside_cardRect : Inside s.size (cardRect card s i j) ↔
    (0 ≤ Spread.lower s.size.width card.width s.cardsPerRow i ∧
      Spread.upper s.size.width card.width s.cardsPerRow i ≤ s.size.width) ∧
    0 ≤ Spread.lower s.size.height card.height s.cardsPerColumn j ∧
      Spread.upper s.size.height card.height s.cardsPerColumn j ≤ s.size.height := by
  rw [← right_cardRect card s i j, ← top_cardRect card s i j, ← left_cardRect card s i j,
    ← bottom_cardRect card s i j, and_assoc]
  rfl

theorem interior_cardRect (p : Point) : Interior (cardRect card s i j) p ↔
    (Spread.lower s.size.width card.width s.cardsPerRow i < p.x ∧
      p.x < Spread.upper s.size.width card.width s.cardsPerRow i) ∧
    Spread.lower s.size.height card.height s.cardsPerColumn j < p.y ∧
      p.y < Spread.upper s.size.height card.height s.cardsPerColumn j := by
  rw [← right_cardRect card s i j, ← top_cardRect card s i j, ← left_cardRect card s i j,
    ← bottom_cardRect card s i j, and_assoc]
  rfl

theorem contains_cardRect (p : Point) : (cardRect card s i j).Contains p ↔
    (Spread.lower s.size.width card.width s.cardsPerRow i ≤ p.x ∧
      p.x < Spread.upper s.size.width card.width s.cardsPerRow i) ∧
    Spread.lower s.size.height card.height s.cardsPerColumn j ≤ p.y ∧
      p.y < Spread.upper s.size.height card.height s.cardsPerColumn j := by
  rw [← right_cardRect card s i j, ← top_cardRect card s i j, ← left_cardRect card s i j,
    ← bottom_cardRect card s i j, and_assoc]
  rfl

end Spread

section Layout

variable {card : Size} {s : PlayScene} (hrow : 1 ≤ s.cardsPerRow) (hcolumn : 1 ≤ s.cardsPerColumn)

include hrow hcolumn

variable (hcard : 0 < card.width ∧ 0 < card.height)

include hcard

theorem inside_iff : (∀ i j, Slot s i j → Inside s.size (cardRect card s i j)) ↔
    s.cardsPerRow * card.width ≤ s.size.width ∧ s.cardsPerColumn * card.height ≤ s.size.height := by
  have hr : 0 < s.cardsPerRow := Int.lt_of_lt_of_le Int.one_pos hrow
  have hc : 0 < s.cardsPerColumn := Int.lt_of_lt_of_le Int.one_pos hcolumn
  rw [← Spread.inside_iff hcard.1 hr, ← Spread.inside_iff hcard.2 hc]
  simp only [inside_cardRect]
  constructor
  · intro hinside
    constructor
    · intro i hi hir
      exact (hinside i 0 ⟨hi, hir, Int.le_refl 0, hc⟩).1
    · intro j hj hjc
      exact (hinside 0 j ⟨Int.le_refl 0, hr, hj, hjc⟩).2
  · rintro ⟨hcolumns, hrows⟩ i j ⟨hi, hir, hj, hjc⟩
    exact ⟨hcolumns i hi hir, hrows j hj hjc⟩

theorem apart (hfits : s.cardsPerRow * card.width ≤ s.size.width ∧
    s.cardsPerColumn * card.height ≤ s.size.height) : Apart card s := by
  have hr : 0 < s.cardsPerRow := Int.lt_of_lt_of_le Int.one_pos hrow
  have hc : 0 < s.cardsPerColumn := Int.lt_of_lt_of_le Int.one_pos hcolumn
  have hgapX := (Spread.gap_nonneg_iff hr).mpr hfits.1
  have hgapY := (Spread.gap_nonneg_iff hc).mpr hfits.2
  intro i j i' j' p _ _ hin hin'
  rw [interior_cardRect] at hin hin'
  exact ⟨Spread.item_unique hcard.1 hgapX hin.1 hin'.1,
    Spread.item_unique hcard.2 hgapY hin.2 hin'.2⟩

end Layout

/-- `i * cardsPerColumn + j` numbers the slots from 0 on, without gaps. -/
theorem index_bijOn {s : PlayScene} (hcolumn : 1 ≤ s.cardsPerColumn) :
    Set.BijOn (fun slot : Int × Int => slot.1 * s.cardsPerColumn + slot.2)
      {slot | Slot s slot.1 slot.2} {k | 0 ≤ k ∧ k < s.cardsPerRow * s.cardsPerColumn} := by
  have hc : 0 < s.cardsPerColumn := Int.lt_of_lt_of_le Int.one_pos hcolumn
  have hdivide : ∀ i j, Slot s i j → (i * s.cardsPerColumn + j) / s.cardsPerColumn = i ∧
      (i * s.cardsPerColumn + j) % s.cardsPerColumn = j := by
    rintro i j ⟨-, -, hj, hjc⟩
    rw [Int.ediv_emod_unique hc]
    exact ⟨by ring, hj, hjc⟩
  refine ⟨?_, ?_, ?_⟩
  · rintro ⟨i, j⟩ ⟨hi, hir, hj, hjc⟩
    dsimp only at hi hir hj hjc
    have hlower := Int.mul_nonneg hi hc.le
    have hupper := Int.mul_le_mul_of_nonneg_right (Int.add_one_le_of_lt hir) hc.le
    rw [Int.add_mul, Int.one_mul] at hupper
    change 0 ≤ i * s.cardsPerColumn + j ∧ i * s.cardsPerColumn + j < _
    omega
  · rintro ⟨i, j⟩ hslot ⟨i', j'⟩ hslot' heq
    obtain ⟨hi, hj⟩ := hdivide i j hslot
    obtain ⟨hi', hj'⟩ := hdivide i' j' hslot'
    dsimp only at heq
    rw [heq] at hi hj
    exact Prod.ext (hi.symm.trans hi') (hj.symm.trans hj')
  · rintro k ⟨hk, hkc⟩
    refine ⟨(k / s.cardsPerColumn, k % s.cardsPerColumn), ⟨?_, ?_, ?_, ?_⟩, ?_⟩
    · exact Int.ediv_nonneg hk hc.le
    · exact Int.ediv_lt_of_lt_mul hc hkc
    · exact Int.emod_nonneg k hc.ne'
    · exact Int.emod_lt_of_pos k hc
    · exact Int.ediv_mul_add_emod k s.cardsPerColumn

end PlayScene
end CardsGame
