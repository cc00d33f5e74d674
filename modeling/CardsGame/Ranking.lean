import Mathlib.Data.List.Induction
import Mathlib.Data.List.Sort
import Mathlib.Order.Basic

/-!
# The persisted ranking

`UserDefaults.standard` maps keys to integers; `integer(forKey:)` answers 0 for a
missing key, and reads return the last value set. Three of its keys hold the largest
scores: the `k` largest elements of a list, repetitions counted and listed in
non-increasing order, are what the list determines up to its order.
-/
namespace Largest

variable {α : Type} [LinearOrder α]

/-- The `k` largest elements of `xs`, largest first. -/
def largest (k : Nat) (xs : List α) : List α := (xs.insertionSort (· ≥ ·)).take k

/-- Only the first `k` elements matter to the first `k` elements after an insertion. -/
theorem take_orderedInsert (k : Nat) (a : α) (xs : List α) :
    (xs.orderedInsert (· ≥ ·) a).take k = ((xs.take k).orderedInsert (· ≥ ·) a).take k := by
  induction xs generalizing k with
  | nil => simp
  | cons b xs ih =>
    cases k with
    | zero => simp
    | succ k =>
      simp only [List.take_succ_cons, List.orderedInsert_cons]
      split
      · simp only [List.take_succ_cons]
        cases k with
        | zero => rfl
        | succ k => simp only [List.take_succ_cons, List.take_take, Nat.min_eq_left (Nat.le_succ k)]
      · simp only [List.take_succ_cons, ih k]

/-- The `k` largest are maintained by inserting each new element and cutting off. -/
theorem largest_cons (k : Nat) (a : α) (xs : List α) :
    largest k (a :: xs) = ((largest k xs).orderedInsert (· ≥ ·) a).take k := by
  rw [largest, List.insertionSort_cons]
  exact take_orderedInsert k a _

theorem largest_perm (k : Nat) {xs ys : List α} (h : xs.Perm ys) :
    largest k xs = largest k ys := by
  have hsort : xs.insertionSort (· ≥ ·) = ys.insertionSort (· ≥ ·) := by
    apply List.Perm.eq_of_pairwise' (r := (· ≥ ·))
    · exact List.pairwise_insertionSort _ xs
    · exact List.pairwise_insertionSort _ ys
    · exact (List.perm_insertionSort _ xs).trans (h.trans (List.perm_insertionSort _ ys).symm)
  rw [largest, largest, hsort]

theorem largest_sorted (k : Nat) (xs : List α) : (largest k xs).Pairwise (· ≥ ·) :=
  (List.pairwise_insertionSort _ xs).sublist (List.take_sublist k _)

/-- What is left over is bounded by everything that was taken. -/
theorem largest_dominates (k : Nat) (xs : List α) :
    ∃ rest, xs.Perm (largest k xs ++ rest) ∧ ∀ a ∈ largest k xs, ∀ b ∈ rest, b ≤ a := by
  refine ⟨(xs.insertionSort (· ≥ ·)).drop k, ?_, ?_⟩
  · rw [largest, List.take_append_drop]
    exact (List.perm_insertionSort _ xs).symm
  · have hsorted := List.pairwise_insertionSort (· ≥ ·) xs
    rw [← List.take_append_drop k (xs.insertionSort (· ≥ ·)), List.pairwise_append] at hsorted
    exact hsorted.2.2

end Largest

namespace Ranking

open Largest (largest)

abbrev UserDefaults := String → Option Int

namespace UserDefaults

def empty : UserDefaults := fun _ => none

/-- `integer(forKey:)` -/
def integer (store : UserDefaults) (key : String) : Int := (store key).getD 0

/-- `set(_:forKey:)` -/
def set (store : UserDefaults) (value : Int) (key : String) : UserDefaults :=
  fun k => if k = key then some value else store k

@[simp] theorem integer_set_self (store : UserDefaults) (value : Int) (key : String) :
    (store.set value key).integer key = value := by
  simp [integer, set]

theorem integer_set_other (store : UserDefaults) (value : Int) {key k : String} (h : k ≠ key) :
    (store.set value key).integer k = store.integer k := by
  simp [integer, set, h]

end UserDefaults

open UserDefaults

/-- `PlayScene.UpdateRanking`, where `score` is the field of the scene. Every value
is read back from the store at the moment it is copied. -/
def updateRanking (score : Int) (store : UserDefaults) : UserDefaults :=
  if store.integer "rankingFirst" < score then
    let store := store.set (store.integer "rankingSecond") "rankingThird"
    let store := store.set (store.integer "rankingFirst") "rankingSecond"
    store.set score "rankingFirst"
  else if store.integer "rankingSecond" < score then
    let store := store.set (store.integer "rankingSecond") "rankingThird"
    store.set score "rankingSecond"
  else if store.integer "rankingThird" < score then
    store.set score "rankingThird"
  else store

/-- The three values `LeaderboardsScene` shows. -/
def ranking (store : UserDefaults) : List Int :=
  [store.integer "rankingFirst", store.integer "rankingSecond", store.integer "rankingThird"]

/-- Successive calls of `UpdateRanking`, one for each finished game. -/
def recordAll (scores : List Int) (store : UserDefaults) : UserDefaults :=
  scores.foldl (fun store score => updateRanking score store) store

/-- The three branches write these triples, whatever else the store holds. -/
theorem ranking_updateRanking (score : Int) (store : UserDefaults) :
    ranking (updateRanking score store) =
      if store.integer "rankingFirst" < score then
        [score, store.integer "rankingFirst", store.integer "rankingSecond"]
      else if store.integer "rankingSecond" < score then
        [store.integer "rankingFirst", score, store.integer "rankingSecond"]
      else if store.integer "rankingThird" < score then
        [store.integer "rankingFirst", store.integer "rankingSecond", score]
      else ranking store := by
  unfold updateRanking ranking
  split_ifs <;> simp [integer_set_other]

theorem ranking_sorted_iff (store : UserDefaults) :
    (ranking store).Pairwise (· ≥ ·) ↔
      store.integer "rankingSecond" ≤ store.integer "rankingFirst" ∧
        store.integer "rankingThird" ≤ store.integer "rankingSecond" := by
  simp only [ranking, List.pairwise_cons, List.mem_cons, List.not_mem_nil, or_false,
    forall_eq_or_imp, forall_eq, ge_iff_le]
  constructor
  · rintro ⟨⟨hsecond, -⟩, hthird, -⟩
    exact ⟨hsecond, hthird⟩
  · rintro ⟨hsecond, hthird⟩
    exact ⟨⟨hsecond, hthird.trans hsecond⟩, hthird, by simp⟩

/-- On a sorted triple, `UpdateRanking` inserts the score and drops the fourth value. -/
theorem ranking_inserts (score : Int) {store : UserDefaults}
    (hsorted : (ranking store).Pairwise (· ≥ ·)) :
    ranking (updateRanking score store) =
      ((ranking store).orderedInsert (· ≥ ·) score).take 3 := by
  obtain ⟨hsecond, hthird⟩ := (ranking_sorted_iff store).mp hsorted
  rw [ranking_updateRanking]
  simp only [ranking, List.orderedInsert_cons, List.orderedInsert_nil]
  -- A tie is written below the equal value by the code, above it by the insertion.
  split_ifs <;> simp only [List.take_succ_cons, List.take_zero, List.cons.injEq, and_true,
    true_and] <;>
    omega

/-- The triple after any history is the three largest of the scores and three zeros. -/
theorem ranking_recordAll (scores : List Int) :
    ranking (recordAll scores empty) = largest 3 (scores ++ [0, 0, 0]) := by
  induction scores using List.reverseRecOn with
  | nil => rfl
  | append_singleton scores score ih =>
    have hperm : (scores ++ [score] ++ [0, 0, 0]).Perm (score :: (scores ++ [0, 0, 0])) := by
      rw [List.append_assoc]
      exact List.perm_middle
    have hsorted : (ranking (recordAll scores empty)).Pairwise (· ≥ ·) := by
      rw [ih]
      exact Largest.largest_sorted 3 _
    rw [Largest.largest_perm 3 hperm, Largest.largest_cons, ← ih, ← ranking_inserts score hsorted]
    simp [recordAll]

/-- From a sorted triple on, the three largest of the scores and of the triple are kept. -/
theorem ranking_recordAll_from (scores : List Int) {store : UserDefaults}
    (hsorted : (ranking store).Pairwise (· ≥ ·)) :
    ranking (recordAll scores store) = largest 3 (scores ++ ranking store) := by
  induction scores using List.reverseRecOn with
  | nil =>
    change ranking store = ((ranking store).insertionSort (· ≥ ·)).take 3
    rw [List.Pairwise.insertionSort_eq hsorted]
    rfl
  | append_singleton scores score ih =>
    have hperm : (scores ++ [score] ++ ranking store).Perm
        (score :: (scores ++ ranking store)) := by
      rw [List.append_assoc]
      exact List.perm_middle
    have hkept : (ranking (recordAll scores store)).Pairwise (· ≥ ·) := by
      rw [ih]
      exact Largest.largest_sorted 3 _
    rw [Largest.largest_perm 3 hperm, Largest.largest_cons, ← ih, ← ranking_inserts score hkept]
    simp [recordAll]

/-- Scores up to a bound do not take the triple out of its bounds. -/
theorem ranking_within {lower upper : Int} {scores : List Int} {store : UserDefaults}
    (hstore : ∀ v ∈ ranking store, lower ≤ v ∧ v ≤ upper) (hscores : ∀ v ∈ scores, v ≤ upper) :
    ∀ v ∈ ranking (recordAll scores store), lower ≤ v ∧ v ≤ upper := by
  induction scores generalizing store with
  | nil => exact hstore
  | cons score scores ih =>
    obtain ⟨hscore, hscores⟩ := List.forall_mem_cons.mp hscores
    refine @ih (updateRanking score store) ?_ hscores
    rw [ranking_updateRanking]
    simp only [ranking, List.forall_mem_cons] at hstore
    obtain ⟨hfirst, hsecond, hthird, -⟩ := hstore
    split_ifs <;> simp only [ranking, List.forall_mem_cons, List.not_mem_nil, false_imp_iff,
      implies_true, and_true] <;> omega

/-- Whatever the history and its order, the stored triple is non-increasing, takes
the largest of the scores and three zeros, and leaves nothing larger behind. -/
theorem ranking_is_top_three (scores : List Int) :
    (ranking (recordAll scores empty)).Pairwise (· ≥ ·) ∧
      (∃ rest, (scores ++ [0, 0, 0]).Perm (ranking (recordAll scores empty) ++ rest) ∧
        ∀ a ∈ ranking (recordAll scores empty), ∀ b ∈ rest, b ≤ a) ∧
      ∀ history, scores.Perm history →
        ranking (recordAll history empty) = ranking (recordAll scores empty) := by
  simp only [ranking_recordAll]
  refine ⟨Largest.largest_sorted 3 _, Largest.largest_dominates 3 _, ?_⟩
  intro history hperm
  exact Largest.largest_perm 3 (hperm.symm.append_right _)

example : ranking (recordAll [7, -2, 7, 9] empty) = [9, 7, 7] := by decide

end Ranking
