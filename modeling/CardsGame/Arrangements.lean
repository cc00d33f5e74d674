import Mathlib.Algebra.BigOperators.Fin
import Mathlib.Algebra.Order.BigOperators.Ring.Finset
import Mathlib.Data.Fintype.BigOperators
import Mathlib.Data.Fintype.Pi
import CardsGame.Cycles
import CardsGame.Shuffle

/-!
# The arrangements a shuffle deals

Every exchange brings the position at `index` into the cycle of the positions below it,
so the whole loop turns the positions round in one cycle. And no later exchange
touches `index` again, so the arrangement that comes out betrays every draw.
-/
namespace Shuffle

open Swift
open Equiv (Perm swap)

variable {α : Type}

/-- `ShuffleArray` with both of its results: the array it returns, and what its in-out
argument holds afterwards. -/
def shuffleArrayInOut (draws : Draws) (array : List α) : Checked (List α × List α) := do
  let array ← shuffleLoop draws (array.length - 1) array
  .ok (array, array)

theorem shuffleArrayInOut_ok {draws : Draws} {array result : List α}
    (h : shuffleArray draws array = .ok result) :
    shuffleArrayInOut draws array = .ok (result, result) := by
  rw [shuffleArray] at h
  rw [shuffleArrayInOut, h, ok_bind]

/-- Position `i` of the result holds what position `σ i` of the array held. -/
def Rearranges {n : Nat} (σ : Perm (Fin n)) (array result : List α) : Prop :=
  ∀ i : Fin n, result[i.val]? = array[(σ i).val]?

theorem rearranges_exchange {n : Nat} {array : List α} (i j : Fin n) (hi : i.val < array.length)
    (hj : j.val < array.length) :
    Rearranges (swap i j) array (exchange array i.val j.val hi hj) := by
  intro k
  by_cases hki : k = i
  · subst hki
    rw [Equiv.swap_apply_left, getElem?_exchange_left, List.getElem?_eq_getElem]
  · by_cases hkj : k = j
    · subst hkj
      rw [Equiv.swap_apply_right]
      simp [exchange, hi, hj]
    · have hval : ∀ m : Fin n, k ≠ m → k.val ≠ m.val := fun m hne heq => hne (Fin.ext heq)
      rw [Equiv.swap_apply_of_ne_of_ne hki hkj,
        getElem?_exchange_other array hi hj (hval i hki) (hval j hkj)]

theorem Rearranges.mul {n : Nat} {σ τ : Perm (Fin n)} {array middle result : List α}
    (h : Rearranges σ array middle) (h' : Rearranges τ middle result) :
    Rearranges (σ * τ) array result := by
  intro i
  rw [h' i, h (τ i)]
  rfl

/-- The positions up to `k`, which the loop from `k` rearranges. -/
def below (n k : Nat) : Set (Fin n) := {i | i.val ≤ k}

theorem mem_below {n k : Nat} {i : Fin n} : i ∈ below n k ↔ i.val ≤ k := Iff.rfl

theorem below_succ {n k : Nat} (hk : k + 1 < n) :
    below n (k + 1) = insert ⟨k + 1, hk⟩ (below n k) := by
  ext i
  rw [Set.mem_insert_iff, mem_below, mem_below, Fin.ext_iff]
  exact Nat.le_succ_iff.trans or_comm

theorem below_zero_subsingleton (n : Nat) : (below n 0).Subsingleton := by
  intro i hi j hj
  rw [mem_below] at hi hj
  ext
  omega

theorem whole_below {n : Nat} : below n (n - 1) = Set.univ := by
  ext i
  simp only [mem_below, Set.mem_univ, iff_true]
  omega

/-- What the loop from an index does to the positions. -/
def turned (draws : Draws) (n : Nat) : Nat → Perm (Fin n)
  | 0 => 1
  | k + 1 =>
    if h : k + 1 < n then
      swap ⟨k + 1, h⟩ ⟨draws.value (k + 1), (draw_lt draws k).trans h⟩ * turned draws n k
    else turned draws n k

section Turned

variable (draws : Draws) {n : Nat}

theorem turned_succ {k : Nat} (h : k + 1 < n) : turned draws n (k + 1) =
    swap ⟨k + 1, h⟩ ⟨draws.value (k + 1), (draw_lt draws k).trans h⟩ * turned draws n k :=
  dif_pos h

/-- The positions above the index stay where they are. -/
theorem turned_above {k : Nat} {i : Fin n} (hi : k < i.val) : turned draws n k i = i := by
  induction k with
  | zero => rfl
  | succ k ih =>
    have hlt : k + 1 < n := by omega
    have hdraw := draw_lt draws k
    rw [turned_succ draws hlt, Equiv.Perm.mul_apply, ih (by omega)]
    apply Equiv.swap_apply_of_ne_of_ne
    · exact fun heq => absurd (congrArg Fin.val heq) (by simp only; omega)
    · exact fun heq => absurd (congrArg Fin.val heq) (by simp only; omega)

/-- The loop from `k` takes the positions up to `k` round in one cycle. -/
theorem turned_cycle {k : Nat} (hk : k < n) : (turned draws n k).IsCycleOn (below n k) := by
  induction k with
  | zero => exact (below_zero_subsingleton n).isCycleOn_one
  | succ k ih =>
    have hnew : (⟨k + 1, hk⟩ : Fin n) ∉ below n k := by simp [mem_below]
    have hold : (⟨draws.value (k + 1), (draw_lt draws k).trans hk⟩ : Fin n) ∈ below n k :=
      Nat.le_of_lt_succ (draw_lt draws k)
    rw [turned_succ draws hk, below_succ hk]
    exact Cycles.isCycleOn_insert (ih (by omega)) hnew
      (turned_above draws (Nat.lt_succ_self k)) hold

/-- This is what the loop does. -/
theorem shuffleLoop_turned {k : Nat} {array : List α} (hlength : array.length = n)
    (hk : k < n ∨ k = 0) (hfit : k ≤ 2 ^ 32) :
    ∃ result, shuffleLoop draws k array = .ok result ∧
      Rearranges (turned draws n k) array result := by
  induction k generalizing array with
  | zero => exact ⟨array, rfl, fun _ => rfl⟩
  | succ k ih =>
    have hlt : k + 1 < n := by omega
    have hi : k + 1 < array.length := hlength ▸ hlt
    have hj : draws.value (k + 1) < array.length := (draw_lt draws k).trans hi
    obtain ⟨result, hresult, hrest⟩ :=
      ih ((length_exchange array _ _ hi hj).trans hlength) (.inl (by omega)) (by omega)
    refine ⟨result, ?_, ?_⟩
    · rw [shuffleLoop_succ draws hi (by omega), hresult]
    · rw [turned_succ draws hlt]
      exact (rearranges_exchange ⟨k + 1, hlt⟩ ⟨_, (draw_lt draws k).trans hlt⟩ hi hj).mul hrest

/-- With two positions or more it is one cycle of all of them. -/
theorem turned_whole (hn : 2 ≤ n) : (turned draws n (n - 1)).IsCycle ∧
    (turned draws n (n - 1)).support = Finset.univ := by
  have hcycle := turned_cycle draws (show n - 1 < n by omega)
  rw [whole_below] at hcycle
  have hnontrivial : Nontrivial (Fin n) := Fin.nontrivial_iff_two_le.mpr hn
  exact Cycles.isCycle_of_isCycleOn_univ hcycle

theorem shuffleArray_turned {array : List α} (hfit : array.length ≤ 2 ^ 32 + 1) :
    ∃ result, shuffleArray draws array = .ok result ∧ result.Perm array ∧
      Rearranges (turned draws array.length (array.length - 1)) array result := by
  have hk : array.length - 1 < array.length ∨ array.length - 1 = 0 := by omega
  obtain ⟨result, hresult, hrearranges⟩ := shuffleLoop_turned draws rfl hk (by omega)
  obtain ⟨result', hresult', hperm⟩ := shuffleArray_perm draws hfit
  cases hresult.symm.trans hresult'
  exact ⟨result, hresult, hperm, hrearranges⟩

end Turned

/-- Up to 2^32 elements the shuffle completes, returns what its in-out argument holds,
and rearranges the array by one cycle of all its positions. -/
theorem shuffleArray_cycle (draws : Draws) (array : List α) (hlength : array.length ≤ 2 ^ 32) :
    ∃ result, shuffleArrayInOut draws array = .ok (result, result) ∧ result.Perm array ∧
      ∃ σ : Perm (Fin array.length), Rearranges σ array result ∧
        (2 ≤ array.length → σ.IsCycle ∧ σ.support = Finset.univ ∧ ∀ i, σ i ≠ i) := by
  have hfit : array.length ≤ 2 ^ 32 + 1 := by omega
  obtain ⟨result, hresult, hperm, hσ⟩ := shuffleArray_turned draws hfit
  refine ⟨result, shuffleArrayInOut_ok hresult, hperm, _, hσ, ?_⟩
  intro htwo
  obtain ⟨hcycle, hsupport⟩ := turned_whole draws htwo
  refine ⟨hcycle, hsupport, fun i => ?_⟩
  rw [← Equiv.Perm.mem_support, hsupport]
  exact Finset.mem_univ i

theorem shuffleArray_cycle_three : ∃ result,
    shuffleArrayInOut .first [1, 2, 3] = .ok (result, result) ∧
      ∃ σ : Perm (Fin 3), Rearranges σ [1, 2, 3] result ∧ σ.IsCycle := by
  obtain ⟨result, hresult, -, σ, hσ, hcycle⟩ := shuffleArray_cycle .first [1, 2, 3] (by decide)
  exact ⟨result, hresult, σ, hσ, (hcycle (by decide)).1⟩

/-- Two runs of the loop over one array of distinct elements with the same result made
the same draws. -/
theorem shuffleLoop_injective {a b : Draws} {k : Nat} {array result : List α}
    (hk : k < array.length ∨ k = 0) (hdistinct : array.Nodup)
    (ha : shuffleLoop a k array = .ok result) (hb : shuffleLoop b k array = .ok result) {i : Nat}
    (hi : i < k) : a.value (i + 1) = b.value (i + 1) := by
  induction k generalizing array with
  | zero => exact absurd hi (Nat.not_lt_zero i)
  | succ k ih =>
    have hlt : k + 1 < array.length := by omega
    have hja := (draw_lt a k).trans hlt
    have hjb := (draw_lt b k).trans hlt
    have hfit : k < 2 ^ 32 := by
      by_contra hlarge
      rw [shuffleLoop_overflow a array (by omega)] at ha
      cases ha
    rw [shuffleLoop_succ a hlt hfit] at ha
    rw [shuffleLoop_succ b hlt hfit] at hb
    -- the rest of the loop leaves position `k + 1` alone, so it still shows the draw
    have hshown : ∀ {c : Draws} (hj : c.value (k + 1) < array.length),
        shuffleLoop c k (exchange array (k + 1) (c.value (k + 1)) hlt hj) = .ok result →
          result[k + 1]? = array[c.value (k + 1)]? := by
      intro c hj hc
      rw [shuffleLoop_above c (.inl (by simp; omega)) hc (Nat.lt_succ_self k),
        getElem?_exchange_left, List.getElem?_eq_getElem]
    have hdraw : a.value (k + 1) = b.value (k + 1) := by
      apply (List.getElem?_inj hja hdistinct).mp
      rw [← hshown hja ha, ← hshown hjb hb]
    obtain rfl | hlower := Nat.lt_succ_iff_lt_or_eq.mp hi |>.symm
    · exact hdraw
    · simp only [← hdraw] at hb
      have hnodup := (exchange_perm array _ _ hlt hja).nodup_iff.mpr hdistinct
      exact ih (.inl (by simp; omega)) hnodup ha hb hlower

theorem DrawSequence.draws_succ {n : Nat} (sequence : DrawSequence n) (k : Fin (n - 1)) :
    sequence.draws.value (k.val + 1) = (sequence k).val := by
  exact dif_pos k.isLt

theorem drawSequence_injective {array result : List α} (hdistinct : array.Nodup)
    {a b : DrawSequence array.length} (ha : shuffleArray a.draws array = .ok result)
    (hb : shuffleArray b.draws array = .ok result) : a = b := by
  funext k
  apply Fin.ext
  rw [← a.draws_succ, ← b.draws_succ]
  exact shuffleLoop_injective (by omega) hdistinct ha hb k.isLt

/-- The draws can lead to this arrangement. -/
def Arises (array result : List α) : Prop :=
  ∃ sequence : DrawSequence array.length, shuffleArray sequence.draws array = .ok result

/-- The chance of a draw sequence whose draws are uniform and independent: the draw at
index `k + 1` is one of `max k 1` values. -/
def sequenceChance (n : Nat) : ℚ := ∏ k : Fin (n - 1), 1 / ((max k.val 1 : Nat) : ℚ)

open Classical in
/-- The chance of an arrangement: the sum over the draw sequences that lead to it. -/
noncomputable def chance (array result : List α) : ℚ :=
  ∑ sequence : DrawSequence array.length,
    if shuffleArray sequence.draws array = .ok result then sequenceChance array.length else 0

theorem sequenceChance_eq (n : Nat) :
    sequenceChance n = 1 / (Fintype.card (DrawSequence n) : ℚ) := by
  rw [sequenceChance, Fintype.card_pi, Nat.cast_prod, Finset.prod_div_distrib,
    Finset.prod_const_one]
  simp only [Fintype.card_fin]

theorem chance_eq {array result : List α} (hdistinct : array.Nodup) (h : Arises array result) :
    chance array result = 1 / (Fintype.card (DrawSequence array.length) : ℚ) := by
  obtain ⟨sequence, hsequence⟩ := h
  rw [chance, ← sequenceChance_eq, Finset.sum_eq_single sequence]
  · exact if_pos hsequence
  · intro other _ hne
    exact if_neg fun hother => hne (drawSequence_injective hdistinct hother hsequence)
  · intro hnot
    exact absurd (Finset.mem_univ sequence) hnot

/-- Distinct draws make distinct arrangements of distinct elements, so the arrangements
that arise are equally likely. -/
theorem shuffleArray_injective (array : List α) (hdistinct : array.Nodup) :
    (∀ a b : DrawSequence array.length, a ≠ b → ∀ result result',
      shuffleArray a.draws array = .ok result → shuffleArray b.draws array = .ok result' →
        result ≠ result') ∧
      (∀ a : DrawSequence array.length,
        (∃ result, shuffleArray a.draws array = .ok result) ↔ array.length ≤ 2 ^ 32 + 1) ∧
      ∀ result, Arises array result →
        chance array result = 1 / (Fintype.card (DrawSequence array.length) : ℚ) := by
  refine ⟨?_, ?_, fun result h => chance_eq hdistinct h⟩
  · rintro a b hne result _ ha hb rfl
    exact hne (drawSequence_injective hdistinct ha hb)
  · intro a
    constructor
    · rintro ⟨result, hresult⟩
      by_contra hlarge
      rw [shuffleArray_overflow a.draws (by omega)] at hresult
      cases hresult
    · intro hfit
      obtain ⟨result, hresult, -⟩ := shuffleArray_perm a.draws hfit
      exact ⟨result, hresult⟩

/-- The sequences of the least draws and of the greatest. -/
def DrawSequence.least (n : Nat) : DrawSequence n := fun k => ⟨0, by omega⟩
def DrawSequence.greatest (n : Nat) : DrawSequence n := fun k => ⟨max k.val 1 - 1, by omega⟩

theorem shuffleArray_injective_four : ∃ result result',
    shuffleArray (DrawSequence.least 4).draws [1, 2, 3, 4] = .ok result ∧
      shuffleArray (DrawSequence.greatest 4).draws [1, 2, 3, 4] = .ok result' ∧
      result ≠ result' := by
  obtain ⟨hdistinct, hcompletes, -⟩ := shuffleArray_injective [1, 2, 3, 4] (by decide)
  obtain ⟨result, hresult⟩ := (hcompletes (.least 4)).mpr (by decide)
  obtain ⟨result', hresult'⟩ := (hcompletes (.greatest 4)).mpr (by decide)
  refine ⟨result, result', hresult, hresult', ?_⟩
  exact hdistinct (.least 4) (.greatest 4) (by decide) result result' hresult hresult'

end Shuffle
