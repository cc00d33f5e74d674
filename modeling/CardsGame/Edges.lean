import Mathlib.Data.Nat.Find

/-!
# Edges in a sequence of samples

Where the maximal runs of high samples start, and what a detector sees of them that
remembers one sample and fires when a low one is followed by a high one. Nothing here
mentions what the samples are.
-/
namespace Edges

variable {α : Type} (low high : α → Prop)

/-- The samples from position `i` up to `j` are high, and those next to them are not. -/
structure MaximalRun (xs : List α) (i j : Nat) : Prop where
  nonempty : i < j
  inside : ∀ k, i ≤ k → k < j → ∃ x, xs[k]? = some x ∧ high x
  left : ∀ k x, k + 1 = i → xs[k]? = some x → ¬ high x
  right : ∀ x, xs[j]? = some x → ¬ high x

/-- A maximal run of high samples starts at position `i`. -/
def Starts (xs : List α) (i : Nat) : Prop := ∃ j, MaximalRun high xs i j

/-- The sample before position `k`, where `initial` stands before the first. -/
def previous (initial : α) (xs : List α) : Nat → Option α
  | 0 => some initial
  | k + 1 => xs[k]?

/-- A detector that remembers the previous sample fires at position `k`. -/
def Fires (initial : α) (xs : List α) (k : Nat) : Prop :=
  ∃ y x, previous initial xs k = some y ∧ xs[k]? = some x ∧ low y ∧ high x

variable {low high} {initial : α} {xs : List α} {i j k : Nat}

/-- From a high sample on, the samples stay high up to some end. -/
theorem exists_end {x : α} (hx : xs[i]? = some x) (hhigh : high x) :
    ∃ j, i < j ∧ (∀ k, i ≤ k → k < j → ∃ x, xs[k]? = some x ∧ high x) ∧
      ∀ x, xs[j]? = some x → ¬ high x := by
  classical
  have hex : ∃ j, i < j ∧ ∀ x, xs[j]? = some x → ¬ high x := by
    refine ⟨xs.length, (List.getElem?_eq_some_iff.mp hx).1, ?_⟩
    intro y hy
    rw [List.getElem?_eq_none (Nat.le_refl _)] at hy
    cases hy
  obtain ⟨hlt, hright⟩ := Nat.find_spec hex
  refine ⟨Nat.find hex, hlt, ?_, hright⟩
  intro k hik hk
  obtain rfl | hlater := Nat.eq_or_lt_of_le hik
  · exact ⟨x, hx, hhigh⟩
  · have hmin := Nat.find_min hex hk
    by_contra hnone
    refine hmin ⟨hlater, ?_⟩
    intro y hy hhigh
    exact hnone ⟨y, hy, hhigh⟩

theorem starts_iff : Starts high xs k ↔
    (∃ x, xs[k]? = some x ∧ high x) ∧ ∀ m y, m + 1 = k → xs[m]? = some y → ¬ high y := by
  constructor
  · rintro ⟨j, hrun⟩
    exact ⟨hrun.inside k (Nat.le_refl k) hrun.nonempty, hrun.left⟩
  · rintro ⟨⟨x, hx, hhigh⟩, hleft⟩
    obtain ⟨j, hlt, hinside, hright⟩ := exists_end hx hhigh
    exact ⟨j, hlt, hinside, hleft, hright⟩

theorem starts_lt (h : Starts high xs k) : k < xs.length := by
  obtain ⟨⟨x, hx, -⟩, -⟩ := starts_iff.mp h
  exact (List.getElem?_eq_some_iff.mp hx).1

theorem previous_append (xs ys : List α) :
    previous initial (xs ++ ys) xs.length = some (xs.getLast?.getD initial) := by
  cases hlength : xs.length with
  | zero =>
    rw [List.length_eq_zero_iff.mp hlength]
    rfl
  | succ m =>
    have hm : m < xs.length := by omega
    rw [previous, List.getElem?_append_left hm, List.getLast?_eq_getElem?, hlength,
      Nat.add_sub_cancel, List.getElem?_eq_getElem hm]
    rfl

theorem fires_iff {y x : α} (hy : previous initial xs k = some y) (hx : xs[k]? = some x) :
    Fires low high initial xs k ↔ low y ∧ high x := by
  constructor
  · rintro ⟨y', x', hy', hx', h⟩
    cases hy.symm.trans hy'
    cases hx.symm.trans hx'
    exact h
  · intro h
    exact ⟨y, x, hy, hx, h⟩

/-- A detector fires only where a run starts, if low samples are not high. -/
theorem Fires.starts (hdisjoint : ∀ x, low x → ¬ high x) (h : Fires low high initial xs k) :
    Starts high xs k := by
  obtain ⟨y, x, hy, hx, hlow, hhigh⟩ := h
  rw [starts_iff]
  refine ⟨⟨x, hx, hhigh⟩, ?_⟩
  rintro m z rfl hz
  cases hz.symm.trans hy
  exact hdisjoint _ hlow

/-- The detector sees every start of a run exactly when no sample that is neither low
nor high stands right before a high one. -/
theorem fires_iff_starts (hdisjoint : ∀ x, low x → ¬ high x) (hinitial : low initial) :
    (∀ k, Fires low high initial xs k ↔ Starts high xs k) ↔
      ∀ k y x, xs[k]? = some y → xs[k + 1]? = some x → high x → low y ∨ high y := by
  constructor
  · intro hall k y x hy hx hhigh
    by_cases hy' : high y
    · exact .inr hy'
    · have hstarts : Starts high xs (k + 1) := by
        rw [starts_iff]
        refine ⟨⟨x, hx, hhigh⟩, ?_⟩
        rintro m z hm hz
        cases Nat.succ.inj hm
        cases hz.symm.trans hy
        exact hy'
      obtain ⟨y', _, hprevious, -, hlow, -⟩ := (hall (k + 1)).mpr hstarts
      cases hprevious.symm.trans hy
      exact .inl hlow
  · intro hclear k
    refine ⟨Fires.starts hdisjoint, ?_⟩
    rw [starts_iff]
    rintro ⟨⟨x, hx, hhigh⟩, hleft⟩
    cases k with
    | zero => exact ⟨initial, x, rfl, hx, hinitial, hhigh⟩
    | succ k =>
      obtain ⟨hlt, -⟩ := List.getElem?_eq_some_iff.mp hx
      have hy := List.getElem?_eq_getElem (Nat.lt_of_succ_lt hlt)
      obtain hlow | hhigh' := hclear k _ x hy hx hhigh
      · exact ⟨_, x, hy, hx, hlow, hhigh⟩
      · exact absurd hhigh' (hleft k _ rfl hy)

end Edges
