import Mathlib.Algebra.Order.Field.Basic
import Mathlib.Data.Int.Cast.Lemmas
import Mathlib.Tactic.Linarith
import Mathlib.Tactic.Ring

/-!
# Items spread evenly over a length

`n` items of width `w` in a row, with the same gap between neighbours and to both ends
of a length. The gap is negative when the items do not fit. Nothing here mentions
what the items are.
-/
namespace Spread

variable {K : Type} [Field K] [LinearOrder K] [IsStrictOrderedRing K]

section Row

variable (length w : K) (n : Int)

def gap : K := (length - n * w) / ((n + 1 : Int) : K)

/-- The middle of item `i`. -/
def centre (i : Int) : K := gap length w n + w / 2 + i * (w + gap length w n)

/-- Where item `i` begins and ends. -/
def lower (i : Int) : K := centre length w n i - w / 2
def upper (i : Int) : K := centre length w n i + w / 2

end Row

variable {length w : K} {n : Int}

theorem lower_eq (i : Int) : lower length w n i = gap length w n + i * (w + gap length w n) := by
  rw [lower, centre]
  ring

theorem upper_eq (i : Int) : upper length w n i = (i + 1) * (w + gap length w n) := by
  rw [upper, centre]
  ring

theorem gaps_pos (hn : 0 < n) : (0 : K) < n + 1 := by
  have hpos : (0 : K) < n := Int.cast_pos.mpr hn
  linarith

/-- The gaps and the items fill the length. -/
theorem gap_mul (hn : 0 < n) : gap length w n * (n + 1) = length - n * w := by
  rw [gap]
  push_cast
  exact div_mul_cancel₀ _ (gaps_pos hn).ne'

theorem gap_nonneg_iff (hn : 0 < n) : 0 ≤ gap length w n ↔ n * w ≤ length := by
  rw [← mul_nonneg_iff_of_pos_right (gaps_pos hn), gap_mul hn, sub_nonneg]

theorem gap_before : lower length w n 0 = gap length w n := by
  rw [lower_eq]
  simp

theorem gap_after (hn : 0 < n) : length - upper length w n (n - 1) = gap length w n := by
  have hfill : gap length w n * (n + 1) = length - n * w := gap_mul hn
  rw [upper_eq]
  push_cast
  linarith

section Fitting

variable (hw : 0 < w)

include hw

/-- With a gap that is not negative, no item begins before an earlier one ends. -/
theorem apart (hgap : 0 ≤ gap length w n) {i j : Int} (hij : i < j) :
    upper length w n i ≤ lower length w n j := by
  have hstep : ((i + 1 : Int) : K) ≤ j := Int.cast_le.mpr hij
  have hpitch : 0 ≤ w + gap length w n := by linarith
  have hmul := mul_le_mul_of_nonneg_right hstep hpitch
  rw [upper_eq, lower_eq]
  push_cast at hmul
  linarith

/-- With such a gap, a point lies in one item at most, ends aside. -/
theorem item_eq (hgap : 0 ≤ gap length w n) {i j : Int} {x : K}
    (hi : lower length w n i ≤ x ∧ x < upper length w n i)
    (hj : lower length w n j ≤ x ∧ x < upper length w n j) : i = j := by
  obtain hlt | heq | hgt := lt_trichotomy i j
  · have happart := apart hw hgap hlt
    linarith [hi.2, hj.1]
  · exact heq
  · have happart := apart hw hgap hgt
    linarith [hi.1, hj.2]

theorem item_unique (hgap : 0 ≤ gap length w n) {i j : Int} {x : K}
    (hi : lower length w n i < x ∧ x < upper length w n i)
    (hj : lower length w n j < x ∧ x < upper length w n j) : i = j :=
  item_eq hw hgap ⟨hi.1.le, hi.2⟩ ⟨hj.1.le, hj.2⟩

/-- All items lie within the length exactly when together they are no longer. -/
theorem inside_iff (hn : 0 < n) :
    (∀ i, 0 ≤ i → i < n → 0 ≤ lower length w n i ∧ upper length w n i ≤ length) ↔
      n * w ≤ length := by
  rw [← gap_nonneg_iff hn]
  constructor
  · intro hinside
    rw [← gap_before]
    exact (hinside 0 (Int.le_refl 0) hn).1
  · intro hgap i hi hin
    have hpitch : 0 ≤ w + gap length w n := by linarith
    constructor
    · rw [lower_eq]
      have hmul := mul_nonneg (Int.cast_nonneg hi : (0 : K) ≤ i) hpitch
      linarith
    · have hlast : length - upper length w n (n - 1) = gap length w n := gap_after hn
      have hstep : ((i + 1 : Int) : K) ≤ n := Int.cast_le.mpr hin
      have hmul := mul_le_mul_of_nonneg_right hstep hpitch
      rw [upper_eq] at hlast ⊢
      push_cast at hlast hmul
      linarith

end Fitting

end Spread
