import Mathlib.SetTheory.Cardinal.Finite
import CardsGame.Swift

/-!
# The shuffle of the deck

`ShuffleArray` walks `index` down from the last position to 1 and exchanges the
element there with the one at `j = Int(arc4random_uniform(UInt32(index-1)))`.
`arc4random_uniform(bound)` returns a value below `bound`, and 0 when `bound` is
0 or 1. So at index 1 the draw is 0, and above it position `index - 1` is never
drawn.
-/
namespace Shuffle

open Swift

variable {α : Type}

/-- The values `arc4random_uniform(UInt32(index-1))` returns, by loop index. -/
structure Draws where
  value : Nat → Nat
  below : ∀ index, value index < max (index - 1) 1

/-- The draws that are all 0. -/
def Draws.first : Draws where
  value _ := 0
  below := by
    intro index
    omega

/-- The loop of `ShuffleArray`, from `index` down to 1. -/
def shuffleLoop (draws : Draws) : Nat → List α → Checked (List α)
  | 0, array => .ok array
  | k + 1, array => do
    let index : Int := ((k + 1 : Nat) : Int)
    let _ ← toUInt32 (index - 1)
    let j : Int := (draws.value (k + 1) : Int)
    let temp ← subscript array index
    let array ← setAt array index (← subscript array j)
    let array ← setAt array j temp
    shuffleLoop draws k array

/-- `ShuffleArray`: the returned array, which is also what the in-out array holds. -/
def shuffleArray (draws : Draws) (array : List α) : Checked (List α) :=
  shuffleLoop draws (array.length - 1) array

/-- The element at `i` and the one at `j` change places. -/
def exchange (array : List α) (i j : Nat) (hi : i < array.length) (hj : j < array.length) :
    List α := (array.set i array[j]).set j array[i]

@[simp] theorem length_exchange (array : List α) (i j : Nat) (hi : i < array.length)
    (hj : j < array.length) : (exchange array i j hi hj).length = array.length := by
  simp [exchange]

theorem exchange_perm (array : List α) (i j : Nat) (hi : i < array.length)
    (hj : j < array.length) : (exchange array i j hi hj).Perm array :=
  List.set_set_perm hi hj

theorem getElem?_exchange_left (array : List α) (i j : Nat) (hi : i < array.length)
    (hj : j < array.length) : (exchange array i j hi hj)[i]? = some array[j] := by
  by_cases h : j = i
  · subst h
    simp [exchange, hi]
  · simp [exchange, h, hi]

theorem getElem?_exchange_other (array : List α) {i j k : Nat} (hi : i < array.length)
    (hj : j < array.length) (hki : k ≠ i) (hkj : k ≠ j) :
    (exchange array i j hi hj)[k]? = array[k]? := by
  simp [exchange, Ne.symm hki, Ne.symm hkj]

theorem draw_lt (draws : Draws) (k : Nat) : draws.value (k + 1) < k + 1 := by
  have h := draws.below (k + 1)
  simp only [Nat.add_sub_cancel] at h
  omega

/-- One iteration exchanges, provided `index - 1` fits an unsigned 32-bit integer. -/
theorem shuffleLoop_succ (draws : Draws) {k : Nat} {array : List α} (hk : k + 1 < array.length)
    (hfit : k < 2 ^ 32) :
    shuffleLoop draws (k + 1) array = shuffleLoop draws k
      (exchange array (k + 1) (draws.value (k + 1)) hk
        (Nat.lt_trans (draw_lt draws k) hk)) := by
  have hj := Nat.lt_trans (draw_lt draws k) hk
  have hconvert : toUInt32 (((k + 1 : Nat) : Int) - 1) = .ok k := by
    rw [toUInt32, if_pos (by omega)]
    congr 1
    omega
  rw [shuffleLoop]
  simp only [hconvert, ok_bind, subscript_lt hk, subscript_lt hj, setAt_lt _ hk]
  rw [setAt_lt _ (by simpa using hj), ok_bind]
  rfl

theorem shuffleLoop_overflow (draws : Draws) {k : Nat} (array : List α) (h : 2 ^ 32 ≤ k) :
    shuffleLoop draws (k + 1) array = .error .notRepresentable := by
  have hconvert : toUInt32 (((k + 1 : Nat) : Int) - 1) = .error .notRepresentable := by
    rw [toUInt32, if_neg (by omega)]
  rw [shuffleLoop]
  simp only [hconvert, error_bind]

/-- The loop from `index` leaves every position above `index` alone. -/
theorem shuffleLoop_above (draws : Draws) {k : Nat} {array result : List α}
    (hk : k < array.length ∨ k = 0) (h : shuffleLoop draws k array = .ok result) {i : Nat}
    (hi : k < i) : result[i]? = array[i]? := by
  induction k generalizing array with
  | zero =>
    simp only [shuffleLoop, Except.ok.injEq] at h
    rw [h]
  | succ k ih =>
    have hlt : k + 1 < array.length := by omega
    have hdraw := draw_lt draws k
    by_cases hfit : k < 2 ^ 32
    · rw [shuffleLoop_succ draws hlt hfit] at h
      rw [ih (.inl (by simp; omega)) h (by omega)]
      exact getElem?_exchange_other array _ _ (by omega) (by omega)
    · rw [shuffleLoop_overflow draws array (by omega)] at h
      cases h

/-- The loop completes exactly when its first index converts, and then it permutes. -/
theorem shuffleLoop_perm (draws : Draws) {k : Nat} {array : List α}
    (hk : k < array.length ∨ k = 0) (hfit : k ≤ 2 ^ 32) :
    ∃ result, shuffleLoop draws k array = .ok result ∧ result.Perm array := by
  induction k generalizing array with
  | zero => exact ⟨array, rfl, .refl array⟩
  | succ k ih =>
    have hlt : k + 1 < array.length := by omega
    have hj := Nat.lt_trans (draw_lt draws k) hlt
    have hlt' : k < (exchange array (k + 1) _ hlt hj).length := by
      rw [length_exchange]
      omega
    obtain ⟨result, hresult, hperm⟩ := ih (.inl hlt') (by omega)
    refine ⟨result, ?_, hperm.trans (exchange_perm array _ _ hlt hj)⟩
    rw [shuffleLoop_succ draws hlt (by omega), hresult]

/-- `ShuffleArray` completes exactly up to 2^32 + 1 elements, and then it permutes. -/
theorem shuffleArray_perm (draws : Draws) {array : List α} (h : array.length ≤ 2 ^ 32 + 1) :
    ∃ result, shuffleArray draws array = .ok result ∧ result.Perm array :=
  shuffleLoop_perm draws (by omega) (by omega)

theorem shuffleArray_overflow (draws : Draws) {array : List α} (h : 2 ^ 32 + 1 < array.length) :
    shuffleArray draws array = .error .notRepresentable := by
  obtain ⟨k, hk⟩ : ∃ k, array.length - 1 = k + 1 := ⟨array.length - 2, by omega⟩
  rw [shuffleArray, hk]
  exact shuffleLoop_overflow draws array (by omega)

/-- With two elements or more, the last position receives the element at the first draw, and
no later iteration touches it. -/
theorem shuffleArray_last (draws : Draws) {array result : List α} (hlength : 2 ≤ array.length)
    (h : shuffleArray draws array = .ok result) :
    result[array.length - 1]? = array[draws.value (array.length - 1)]? := by
  obtain ⟨k, hk⟩ : ∃ k, array.length - 1 = k + 1 := ⟨array.length - 2, by omega⟩
  have hlt : k + 1 < array.length := by omega
  have hdraw := draw_lt draws k
  rw [shuffleArray, hk] at h
  by_cases hfit : k < 2 ^ 32
  · rw [shuffleLoop_succ draws hlt hfit] at h
    rw [hk, shuffleLoop_above draws (.inl (by simp; omega)) h (by omega),
      getElem?_exchange_left, List.getElem?_eq_getElem]
  · rw [shuffleLoop_overflow draws array (by omega)] at h
    cases h

/-- The last element always moves. -/
theorem shuffleArray_moves_last (draws : Draws) {array result : List α}
    (hlength : 2 ≤ array.length) (h : shuffleArray draws array = .ok result) :
    ∃ j, j < array.length - 1 ∧ result[array.length - 1]? = array[j]? := by
  have hbelow := draws.below (array.length - 1)
  exact ⟨_, by omega, shuffleArray_last draws hlength h⟩

/-- The draws of one shuffle of `n` elements: one value for each loop index from 1 to
`n - 1`, here listed from `k = 0`. -/
abbrev DrawSequence (n : Nat) := (k : Fin (n - 1)) → Fin (max k.val 1)

/-- The draws that a sequence makes, where the indices outside the loop do not matter. -/
def DrawSequence.draws {n : Nat} (sequence : DrawSequence n) : Draws where
  value index := if h : index - 1 < n - 1 then (sequence ⟨index - 1, h⟩).val else 0
  below index := by
    split
    · next h => exact (sequence ⟨index - 1, h⟩).isLt
    · omega

/-- Every rearrangement comes from the same positive number of draw sequences. -/
def Fair (array : List α) : Prop :=
  ∃ count, 0 < count ∧ ∀ result, result.Perm array →
    Nat.card {sequence : DrawSequence array.length //
      shuffleArray sequence.draws array = .ok result} = count

/-- The deal that changes nothing never comes up. -/
theorem shuffleArray_ne_self (draws : Draws) {array : List α} (hdistinct : array.Nodup)
    (hlength : 2 ≤ array.length) : shuffleArray draws array ≠ .ok array := by
  intro h
  obtain ⟨j, hj, hmoved⟩ := shuffleArray_moves_last draws hlength h
  have hsame := (List.getElem?_inj (by omega) hdistinct).mp hmoved
  omega

theorem not_fair (array : List α) (hdistinct : array.Nodup) (hlength : 2 ≤ array.length) :
    ¬ Fair array := by
  rintro ⟨count, hpos, hcount⟩
  have hnone : Nat.card {sequence : DrawSequence array.length //
      shuffleArray sequence.draws array = .ok array} = 0 := by
    rw [Nat.card_eq_zero]
    left
    exact ⟨fun ⟨sequence, h⟩ => shuffleArray_ne_self sequence.draws hdistinct hlength h⟩
  rw [hcount array (.refl array)] at hnone
  omega

theorem fair_of_length_le_one (array : List α) (hlength : array.length ≤ 1) : Fair array := by
  refine ⟨1, Nat.one_pos, ?_⟩
  intro result hperm
  have hresult : result = array := by
    match array, hlength with
    | [], _ => exact hperm.eq_nil
    | [a], _ => exact hperm.eq_singleton
  have hindex : array.length - 1 = 0 := by omega
  have hdeal : ∀ draws : Draws, shuffleArray draws array = .ok result := by
    intro draws
    rw [shuffleArray, hindex, hresult]
    rfl
  have hempty : IsEmpty (Fin (array.length - 1)) := by
    rw [hindex]
    infer_instance
  rw [Nat.card_eq_one_iff_unique]
  refine ⟨⟨fun a b => Subtype.ext (funext fun k => hempty.elim k)⟩, ?_⟩
  exact ⟨⟨fun k => hempty.elim k, hdeal _⟩⟩

/-- Only the deals of at most one card are fair. -/
theorem fair_iff (array : List α) (hdistinct : array.Nodup) :
    Fair array ↔ array.length ≤ 1 := by
  constructor
  · intro hfair
    by_contra hlength
    exact not_fair array hdistinct (by omega) hfair
  · exact fair_of_length_le_one array

theorem fair_iff_three : Fair [1, 2, 3] ↔ [1, 2, 3].length ≤ 1 :=
  fair_iff [1, 2, 3] (by decide)

/-- Three cards: the order in which they already lie is never dealt. -/
theorem three_cards_not_fair : ¬ ∀ array : List Nat, array.Nodup → Fair array := by
  intro h
  exact not_fair [1, 2, 3] (by decide) (by decide) (h [1, 2, 3] (by decide))

end Shuffle
