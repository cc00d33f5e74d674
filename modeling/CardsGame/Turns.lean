import Mathlib.Data.Nat.Factorial.BigOperators
import CardsGame.Arrangements
import CardsGame.Cycles

/-!
# Which arrangements a shuffle deals

The draw at an index is where the permutation of the positions falls from there. So the
shuffle deals exactly the rearrangements by one cycle that never falls by one position,
the step from 1 to 0 aside.
-/
namespace Shuffle

open Swift
open Descents (Falls)
open Equiv (Perm swap)

variable {α : Type}

section Turned

variable (draws : Draws) {n : Nat}

theorem turned_congr {a b : Draws} {k : Nat} (h : ∀ i, i < k → a.value (i + 1) = b.value (i + 1)) :
    turned a n k = turned b n k := by
  induction k with
  | zero => rfl
  | succ k ih =>
    have hrest := ih fun i hi => h i (by omega)
    have hdraw := h k (Nat.lt_succ_self k)
    by_cases hlt : k + 1 < n
    · simp only [turned_succ _ hlt, hrest, hdraw]
    · rw [turned, turned, dif_neg hlt, dif_neg hlt, hrest]

/-- The permutation falls from every index to the draw there. -/
theorem turned_falls {k : Nat} (hk : k < n) {i j : Fin n} (hpos : 0 < i.val) (hi : i.val ≤ k) :
    Falls (turned draws n k) i j ↔ j.val = draws.value i.val := by
  induction k with
  | zero => omega
  | succ k ih =>
    have hdraw := draw_lt draws k
    have hfix : turned draws n k ⟨k + 1, hk⟩ = ⟨k + 1, hk⟩ :=
      turned_above draws (Nat.lt_succ_self k)
    rw [turned_succ draws hk]
    obtain hlast | hlower := Nat.eq_or_lt_of_le hi
    · obtain rfl : i = ⟨k + 1, hk⟩ := Fin.ext hlast
      rw [Descents.falls_joined_new hfix (Fin.lt_def.mpr hdraw), Fin.ext_iff]
    · rw [Descents.falls_joined_iff hfix (Fin.lt_def.mpr hlower)]
      exact ih (by omega) (by omega)

end Turned

/-- The draws with another one at `index`. -/
def Draws.extended (draws : Draws) {index j : Nat} (hj : j < max (index - 1) 1) : Draws where
  value := Function.update draws.value index j
  below i := by
    by_cases hi : i = index
    · subst hi
      rwa [Function.update_self]
    · rw [Function.update_of_ne hi]
      exact draws.below i

theorem Draws.extended_self (draws : Draws) {index j : Nat} (hj : j < max (index - 1) 1) :
    (draws.extended hj).value index = j := Function.update_self _ _ _

theorem Draws.extended_of_ne (draws : Draws) {index j i : Nat} (hj : j < max (index - 1) 1)
    (hi : i ≠ index) : (draws.extended hj).value i = draws.value i := Function.update_of_ne hi _ _

/-- One cycle of the positions that falls by one only from 1. -/
structure Dealt {n : Nat} (σ : Perm (Fin n)) : Prop where
  cycle : σ.IsCycle
  support : σ.support = Finset.univ
  falls : ∀ i j, 2 ≤ i.val → Falls σ i j → j.val + 1 ≠ i.val

/-- One such cycle of the positions up to `k`, with those above left alone. -/
structure DealtBelow {n : Nat} (k : Nat) (σ : Perm (Fin n)) : Prop where
  cycle : σ.IsCycleOn (below n k)
  above : ∀ i, k < i.val → σ i = i
  falls : ∀ i j, 2 ≤ i.val → i.val ≤ k → Falls σ i j → j.val + 1 ≠ i.val

namespace DealtBelow

theorem eq_one {n : Nat} {σ : Perm (Fin n)} (h : DealtBelow 0 σ) : σ = 1 := by
  ext i
  by_cases hi : 0 < i.val
  · rw [h.above i hi]
    rfl
  · have hmem : σ i ∈ below n 0 := h.cycle.apply_mem_iff.mpr (Nat.le_of_not_lt hi)
    rw [mem_below] at hmem
    change _ = i.val
    omega

variable {n k : Nat} {σ : Perm (Fin n)} (h : DealtBelow (k + 1) σ) (hk : k + 1 < n)

include h

theorem last_le : (σ ⟨k + 1, hk⟩).val ≤ k := by
  have hnontrivial : (below n (k + 1)).Nontrivial :=
    ⟨⟨0, by omega⟩, Nat.zero_le _, ⟨k + 1, hk⟩, Nat.le_refl _, by simp [Fin.ext_iff]⟩
  have hmem : (⟨k + 1, hk⟩ : Fin n) ∈ below n (k + 1) := Nat.le_refl _
  have hle := h.cycle.apply_mem_iff.mpr hmem
  have hne : (σ ⟨k + 1, hk⟩).val ≠ k + 1 :=
    fun heq => h.cycle.apply_ne hnontrivial hmem (Fin.ext heq)
  rw [mem_below] at hle
  omega

/-- The last position goes to where `σ` falls from it, and this is a possible draw. -/
theorem last_draw : (σ ⟨k + 1, hk⟩).val < max (k + 1 - 1) 1 := by
  have hle := h.last_le hk
  by_cases hzero : k = 0
  · subst hzero
    exact lt_max_of_lt_right (by omega)
  · have hfall : Falls σ ⟨k + 1, hk⟩ (σ ⟨k + 1, hk⟩) :=
      (Descents.falls_of_apply_lt (Fin.lt_def.mpr (Nat.lt_succ_of_le hle))).mpr rfl
    have hne := h.falls _ _ (by simp only; omega) (Nat.le_refl _) hfall
    simp only [ne_eq, Nat.add_right_cancel_iff] at hne
    exact lt_max_of_lt_left (by omega)

/-- Without the last position it is a cycle of the others, that falls as before. -/
theorem peeled : DealtBelow k (swap ⟨k + 1, hk⟩ (σ ⟨k + 1, hk⟩) * σ) := by
  have hlt := Nat.lt_succ_of_le (h.last_le hk)
  have hfix : (swap ⟨k + 1, hk⟩ (σ ⟨k + 1, hk⟩) * σ) ⟨k + 1, hk⟩ = ⟨k + 1, hk⟩ := by
    rw [Equiv.Perm.mul_apply, Equiv.swap_apply_right]
  have hundo := Equiv.swap_mul_self_mul ⟨k + 1, hk⟩ (σ ⟨k + 1, hk⟩) σ
  have hnew : (⟨k + 1, hk⟩ : Fin n) ∉ below n k := by simp [mem_below]
  constructor
  · refine Cycles.isCycleOn_of_joined hfix hnew (h.last_le hk) ?_
    rw [hundo, ← below_succ hk]
    exact h.cycle
  · intro i hi
    obtain hlast | hhigher := Nat.eq_or_lt_of_le hi
    · rwa [show i = ⟨k + 1, hk⟩ from Fin.ext hlast.symm]
    · rw [Equiv.Perm.mul_apply, h.above i hhigher]
      apply Equiv.swap_apply_of_ne_of_ne
      · exact fun heq => absurd (congrArg Fin.val heq) (by simp only; omega)
      · exact fun heq => absurd (congrArg Fin.val heq) (by omega)
  · intro i j htwo hi hfall
    have hlower : i < ⟨k + 1, hk⟩ := Fin.lt_def.mpr (Nat.lt_succ_of_le hi)
    rw [← Descents.falls_joined_iff hfix hlower (y := σ ⟨k + 1, hk⟩), hundo] at hfall
    exact h.falls i j htwo (by omega) hfall

end DealtBelow

/-- Every such cycle is what the loop does with some draws. -/
theorem exists_turned {n k : Nat} (hk : k < n) {σ : Perm (Fin n)} (h : DealtBelow k σ) :
    ∃ draws, turned draws n k = σ := by
  induction k generalizing σ with
  | zero => exact ⟨.first, h.eq_one.symm⟩
  | succ k ih =>
    obtain ⟨draws, hdraws⟩ := ih (by omega) (h.peeled hk)
    have hdraw := h.last_draw hk
    refine ⟨draws.extended hdraw, ?_⟩
    have hrest : turned (draws.extended hdraw) n k = turned draws n k := by
      apply turned_congr
      intro i hi
      exact draws.extended_of_ne hdraw (by omega)
    rw [turned_succ _ hk, hrest, hdraws]
    simp only [Draws.extended_self, Fin.eta]
    exact Equiv.swap_mul_self_mul _ _ σ

/-- What the shuffle does to the positions of `n` elements. -/
theorem turned_dealt (draws : Draws) {n : Nat} (hn : 2 ≤ n) : Dealt (turned draws n (n - 1)) := by
  obtain ⟨hcycle, hsupport⟩ := turned_whole draws hn
  refine ⟨hcycle, hsupport, ?_⟩
  intro i j hi hfall
  rw [turned_falls draws (by omega) (by omega) (by omega)] at hfall
  have hbelow := draws.below i.val
  omega

theorem exists_dealt {n : Nat} (hn : 2 ≤ n) {σ : Perm (Fin n)} (hσ : Dealt σ) :
    ∃ draws, turned draws n (n - 1) = σ := by
  refine exists_turned (by omega) ⟨?_, fun i hi => absurd i.isLt (by omega),
    fun i j hi _ hfall => hσ.falls i j hi hfall⟩
  have hall : {i : Fin n | σ i ≠ i} = Set.univ := by
    ext i
    have hmem : i ∈ σ.support := hσ.support ▸ Finset.mem_univ i
    simpa using hmem
  rw [whole_below, ← hall]
  exact hσ.cycle.isCycleOn

/-- The draws of a loop over `n` elements, listed. -/
def Draws.sequence (draws : Draws) (n : Nat) : DrawSequence n :=
  fun k => ⟨draws.value (k.val + 1), by
    have hbelow := draws.below (k.val + 1)
    rwa [Nat.add_sub_cancel] at hbelow⟩

theorem turned_sequence (draws : Draws) (n : Nat) :
    turned (draws.sequence n).draws n (n - 1) = turned draws n (n - 1) := by
  apply turned_congr
  intro i hi
  exact (draws.sequence n).draws_succ ⟨i, hi⟩

theorem rearranges_unique {n : Nat} {σ : Perm (Fin n)} {array r r' : List α} (hr : r.length = n)
    (hr' : r'.length = n) (h : Rearranges σ array r) (h' : Rearranges σ array r') : r = r' := by
  apply List.ext_getElem?
  intro i
  by_cases hi : i < n
  · exact (h ⟨i, hi⟩).trans (h' ⟨i, hi⟩).symm
  · rw [List.getElem?_eq_none (by omega), List.getElem?_eq_none (by omega)]

/-- The draws outside the loop do not matter. -/
theorem arises_of_shuffle {draws : Draws} {array result : List α} (hfit : array.length ≤ 2 ^ 32 + 1)
    (h : shuffleArray draws array = .ok result) : Arises array result := by
  obtain ⟨r, hr, hperm, hrearranges⟩ := shuffleArray_turned draws hfit
  obtain ⟨r', hr', hperm', hrearranges'⟩ :=
    shuffleArray_turned (draws.sequence array.length).draws hfit
  cases h.symm.trans hr
  rw [turned_sequence] at hrearranges'
  rw [rearranges_unique hperm.length_eq hperm'.length_eq hrearranges hrearranges']
  exact ⟨_, hr'⟩

/-- The draws can be read off the permutation, and the arrangements that arise are those by
one cycle of all positions which falls by one only from 1. -/
theorem arises_iff_dealt (array : List α) (htwo : 2 ≤ array.length)
    (hfit : array.length ≤ 2 ^ 32 + 1) :
    (∀ draws result, shuffleArray draws array = .ok result →
      ∃ σ : Perm (Fin array.length), Rearranges σ array result ∧
        ∀ i j, 0 < i.val → (Falls σ i j ↔ j.val = draws.value i.val)) ∧
    ∀ result, Arises array result ↔ result.length = array.length ∧
      ∃ σ : Perm (Fin array.length), Dealt σ ∧ Rearranges σ array result := by
  constructor
  · intro draws result hresult
    obtain ⟨result', hresult', -, hrearranges⟩ := shuffleArray_turned draws hfit
    cases hresult.symm.trans hresult'
    exact ⟨_, hrearranges, fun i j hpos => turned_falls draws (by omega) hpos (by omega)⟩
  · intro result
    constructor
    · rintro ⟨sequence, hresult⟩
      obtain ⟨result', hresult', hperm, hrearranges⟩ := shuffleArray_turned sequence.draws hfit
      cases hresult.symm.trans hresult'
      exact ⟨hperm.length_eq, _, turned_dealt sequence.draws htwo, hrearranges⟩
    · rintro ⟨hlength, σ, hσ, hrearranges⟩
      obtain ⟨draws, rfl⟩ := exists_dealt htwo hσ
      obtain ⟨result', hresult', hperm, hrearranges'⟩ := shuffleArray_turned draws hfit
      rw [rearranges_unique hlength hperm.length_eq hrearranges hrearranges']
      exact arises_of_shuffle hfit hresult'

theorem arises_iff_dealt_four : ∃ result, Arises [1, 2, 3, 4] result ∧
    ∃ σ : Perm (Fin 4), Dealt σ ∧ Rearranges σ [1, 2, 3, 4] result := by
  obtain ⟨result, hresult, -⟩ := shuffleArray_perm (DrawSequence.least 4).draws
    (show [1, 2, 3, 4].length ≤ 2 ^ 32 + 1 by decide)
  have harises : Arises [1, 2, 3, 4] result := ⟨.least 4, hresult⟩
  obtain ⟨-, hiff⟩ := arises_iff_dealt [1, 2, 3, 4] (by decide) (by decide)
  exact ⟨result, harises, ((hiff result).mp harises).2⟩

theorem prod_max_one (m : Nat) : ∏ k : Fin (m + 1), max k.val 1 = m.factorial := by
  induction m with
  | zero => rfl
  | succ m ih =>
    rw [Fin.prod_univ_castSucc]
    simp only [Fin.val_castSucc, Fin.val_last, ih]
    rw [max_eq_left (Nat.succ_le_succ (Nat.zero_le m)), Nat.factorial_succ, mul_comm]

theorem card_drawSequence {n : Nat} (hn : 2 ≤ n) :
    Fintype.card (DrawSequence n) = (n - 2).factorial := by
  obtain ⟨m, rfl⟩ := Nat.exists_eq_add_of_le' hn
  rw [Fintype.card_pi]
  simp only [Fintype.card_fin]
  exact prod_max_one m

theorem turned_injective {n : Nat} (hn : 2 ≤ n) {a b : DrawSequence n}
    (h : turned a.draws n (n - 1) = turned b.draws n (n - 1)) : a = b := by
  funext k
  apply Fin.ext
  have hk := k.isLt
  have hlt := draw_lt a.draws k
  have hfall : Falls (turned a.draws n (n - 1)) ⟨k.val + 1, by omega⟩
      ⟨a.draws.value (k.val + 1), by omega⟩ :=
    (turned_falls a.draws (by omega) (Nat.succ_pos k) (by simp only; omega)).mpr rfl
  rw [h, turned_falls b.draws (by omega) (Nat.succ_pos k) (by simp only; omega)] at hfall
  rwa [← a.draws_succ, ← b.draws_succ]

/-- Of the arrangements of `n` distinct elements the shuffle deals `(n - 2)!`, not `n!`, and
these with the same chance. -/
theorem card_arises (array : List α) (hdistinct : array.Nodup) (htwo : 2 ≤ array.length)
    (hfit : array.length ≤ 2 ^ 32 + 1) :
    Nat.card {result // Arises array result} = (array.length - 2).factorial ∧
      (∀ result, Arises array result →
        chance array result = 1 / ((array.length - 2).factorial : ℚ)) ∧
      Nat.card {σ : Perm (Fin array.length) // Dealt σ} = (array.length - 2).factorial := by
  rw [← card_drawSequence htwo]
  refine ⟨?_, fun result h => chance_eq hdistinct h, ?_⟩
  · choose result hresult _ using fun sequence : DrawSequence array.length =>
      shuffleArray_perm sequence.draws hfit
    rw [← Nat.card_eq_fintype_card]
    refine (Nat.card_congr (Equiv.ofBijective
      (fun sequence => ⟨result sequence, sequence, hresult sequence⟩) ⟨?_, ?_⟩)).symm
    · intro a b hab
      have hsame : result a = result b := congrArg Subtype.val hab
      exact drawSequence_injective hdistinct (hsame ▸ hresult a) (hresult b)
    · rintro ⟨other, sequence, hother⟩
      refine ⟨sequence, Subtype.ext ?_⟩
      exact Except.ok.inj ((hresult sequence).symm.trans hother)
  · rw [← Nat.card_eq_fintype_card]
    refine (Nat.card_congr (Equiv.ofBijective
      (fun sequence => ⟨_, turned_dealt sequence.draws htwo⟩) ⟨?_, ?_⟩)).symm
    · intro a b hab
      exact turned_injective htwo (congrArg Subtype.val hab)
    · rintro ⟨σ, hσ⟩
      obtain ⟨draws, rfl⟩ := exists_dealt htwo hσ
      exact ⟨draws.sequence array.length, Subtype.ext (turned_sequence draws array.length)⟩

/-- Of the `24` arrangements of four cards only `2` are dealt. -/
theorem card_arises_four : Nat.card {result // Arises [1, 2, 3, 4] result} = 2 :=
  (card_arises [1, 2, 3, 4] (by decide) (by decide) (by decide)).1

end Shuffle
