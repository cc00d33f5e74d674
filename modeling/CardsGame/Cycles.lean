import Mathlib.GroupTheory.Perm.Cycle.Basic

/-!
# Cycles grown by exchanges

A permutation that is one cycle on a set, followed by the exchange of a point of the
set with a point that was fixed, is one cycle on both. Nothing here mentions what the
points are. If they are ordered, follow the permutation from a point on: the first point
below this one is where it falls. When a new greatest point is joined to a cycle, no other
point falls elsewhere than before, and the new one falls where it was joined.
-/
namespace Cycles

open Equiv Equiv.Perm

variable {α : Type} {f g : Perm α} {s : Set α} {x y z : α}

theorem sameCycle_of_apply (h : g x = y) : g.SameCycle x y := by
  subst h
  exact SameCycle.rfl.apply_right

/-- Points that `f` joins are joined by `g`, if `g` joins every point to its image. -/
theorem sameCycle_of_steps [Finite α] (hf : Set.MapsTo f s s)
    (hstep : ∀ z ∈ s, g.SameCycle z (f z)) (hx : x ∈ s) (h : f.SameCycle x y) :
    g.SameCycle x y := by
  obtain ⟨n, rfl⟩ := h.exists_nat_pow_eq
  clear h
  induction n with
  | zero => exact .rfl
  | succ n ih =>
    rw [pow_succ', mul_apply]
    exact ih.trans (hstep _ (hf.perm_pow n hx))

section Insert

variable [DecidableEq α] (hf : f.IsCycleOn s) (hx : x ∉ s) (hfix : f x = x) (hy : y ∈ s)

theorem swap_mul_new (hfix : f x = x) : (swap x y * f) x = y := by
  rw [mul_apply, hfix, swap_apply_left]

include hf hx

theorem swap_mul_old (hz : z ∈ s) (hne : f z ≠ y) : (swap x y * f) z = f z := by
  have hfz : f z ∈ s := hf.apply_mem_iff.mpr hz
  have hnew : f z ≠ x := by
    intro heq
    exact hx (heq ▸ hfz)
  rw [mul_apply, swap_apply_of_ne_of_ne hnew hne]

include hfix

/-- The new cycle passes through `x` on its way to `y`, and is the old one elsewhere. -/
theorem swap_mul_joins (hz : z ∈ s) : (swap x y * f).SameCycle z (f z) := by
  by_cases hne : f z = y
  · have hfirst : (swap x y * f) z = x := by rw [mul_apply, hne, swap_apply_right]
    have hsecond : (swap x y * f) x = f z := by rw [swap_mul_new hfix, hne]
    exact (sameCycle_of_apply hfirst).trans (sameCycle_of_apply hsecond)
  · exact sameCycle_of_apply (swap_mul_old hf hx hz hne)

include hy

theorem isCycleOn_insert [Finite α] : (swap x y * f).IsCycleOn (insert x s) := by
  have hbij : Set.BijOn f (insert x s) (insert x s) := by
    have hinsert := hf.1.insert (a := x) (by rwa [hfix])
    rwa [hfix] at hinsert
  have hjoin : ∀ z ∈ insert x s, (swap x y * f).SameCycle z y := by
    rintro z (rfl | hz)
    · exact sameCycle_of_apply (swap_mul_new hfix)
    · exact sameCycle_of_steps hf.1.mapsTo (fun z hz => swap_mul_joins hf hx hfix hz) hz
        (hf.2 hz hy)
  constructor
  · exact (bijOn_swap (Set.mem_insert x s) (Set.mem_insert_of_mem x hy)).comp hbij
  · intro z hz w hw
    exact (hjoin z hz).trans (hjoin w hw).symm

end Insert

section Joined

variable [DecidableEq α] (hfix : f x = x)

include hfix

omit [DecidableEq α] in
theorem apply_ne_of_fixed (hz : z ≠ x) : f z ≠ x := by
  intro heq
  exact hz (f.injective (heq.trans hfix.symm))

/-- Where the old permutation comes to `y`, the new one comes to `x`. -/
theorem swap_mul_cases (hz : z ≠ x) :
    f z = y ∧ (swap x y * f) z = x ∨ f z ≠ y ∧ (swap x y * f) z = f z := by
  by_cases hne : f z = y
  · exact .inl ⟨hne, by rw [mul_apply, hne, swap_apply_right]⟩
  · exact .inr ⟨hne, by rw [mul_apply, swap_apply_of_ne_of_ne (apply_ne_of_fixed hfix hz) hne]⟩

/-- The steps of the new permutation, cut short at `x`, are steps of the old one. -/
theorem sameCycle_of_joined [Finite α] (hz : z ≠ x) (hxy : y ≠ x)
    (h : (swap x y * f).SameCycle z w) : (w = x → f.SameCycle z y) ∧ (w ≠ x → f.SameCycle z w) := by
  obtain ⟨n, rfl⟩ := h.exists_nat_pow_eq
  clear h
  induction n with
  | zero => exact ⟨fun heq => absurd heq hz, fun _ => .rfl⟩
  | succ n ih =>
    rw [pow_succ', mul_apply]
    by_cases hw : ((swap x y * f) ^ n) z = x
    · rw [hw, swap_mul_new hfix]
      exact ⟨fun heq => absurd heq hxy, fun _ => ih.1 hw⟩
    · have hnext := (ih.2 hw).apply_right
      obtain ⟨hfw, hnew⟩ | ⟨-, hsame⟩ := swap_mul_cases (y := y) hfix hw
      · rw [hfw] at hnext
        exact ⟨fun _ => hnext, fun hne => absurd hnew hne⟩
      · rw [hsame]
        exact ⟨fun heq => absurd heq (apply_ne_of_fixed hfix hw), fun _ => hnext⟩

/-- A cycle that takes up a fixed point was one without it. -/
theorem isCycleOn_of_joined [Finite α] (hx : x ∉ s) (hy : y ∈ s)
    (h : (swap x y * f).IsCycleOn (insert x s)) : f.IsCycleOn s := by
  have hne : ∀ z ∈ s, z ≠ x := fun z hz heq => hx (heq ▸ hz)
  have hundo : swap x y * (swap x y * f) = f := by rw [← mul_assoc, swap_mul_self, one_mul]
  have hbij : Set.BijOn f (insert x s) (insert x s) := by
    have hswap := (bijOn_swap (Set.mem_insert x s) (Set.mem_insert_of_mem x hy)).comp h.1
    rwa [← coe_mul, hundo] at hswap
  constructor
  · have hold := hbij.sdiff_singleton (Set.mem_insert x s)
    rwa [hfix, Set.insert_sdiff_self_of_notMem hx] at hold
  · intro z hz w hw
    exact (sameCycle_of_joined hfix (hne z hz) (hne y hy)
      (h.2 (Set.mem_insert_of_mem x hz) (Set.mem_insert_of_mem x hw))).2 (hne w hw)

end Joined

/-- One cycle through every point: a cycle that leaves no point where it was. -/
theorem isCycle_of_isCycleOn_univ [Fintype α] [DecidableEq α] [Nontrivial α]
    (hf : f.IsCycleOn Set.univ) : f.IsCycle ∧ f.support = Finset.univ := by
  have hnontrivial : (Set.univ : Set α).Nontrivial := Set.nontrivial_univ
  constructor
  · rw [isCycle_iff_exists_isCycleOn]
    exact ⟨Set.univ, hnontrivial, hf, fun z _ => Set.mem_univ z⟩
  · rw [Finset.eq_univ_iff_forall]
    intro z
    rw [mem_support]
    exact hf.apply_ne hnontrivial (Set.mem_univ z)

end Cycles

namespace Descents

open Equiv Equiv.Perm

variable {α : Type} [LinearOrder α] {f g : Perm α} {s : Set α} {x y z w : α}

/-- The points that `f` comes to from `z`, up to the first one below it. -/
inductive Comes (f : Perm α) (z : α) : α → Prop where
  | first : Comes f z (f z)
  | next {w : α} (h : Comes f z w) (hle : z ≤ w) : Comes f z (f w)

/-- `f` falls from `z` to `w`. -/
def Falls (f : Perm α) (z w : α) : Prop := Comes f z w ∧ w < z

theorem falls_of_apply_lt (h : f z < z) : Falls f z w ↔ w = f z := by
  constructor
  · rintro ⟨hcomes, -⟩
    induction hcomes with
    | first => rfl
    | next _ hle ih =>
      subst ih
      exact absurd h (not_lt.mpr hle)
  · rintro rfl
    exact ⟨.first, h⟩

section Joined

variable (hfix : f x = x)

include hfix

theorem comes_of_joined (hz : z < x) (h : Comes (swap x y * f) z w) :
    (w = x → Comes f z y) ∧ (w ≠ x → Comes f z w) := by
  have hstep : ∀ v, v ≠ x → Comes f z (f v) →
      ((swap x y * f) v = x → Comes f z y) ∧
        ((swap x y * f) v ≠ x → Comes f z ((swap x y * f) v)) := by
    intro v hv hcomes
    obtain ⟨hfv, hnew⟩ | ⟨-, hsame⟩ := Cycles.swap_mul_cases (y := y) hfix hv
    · rw [hfv] at hcomes
      exact ⟨fun _ => hcomes, fun hne => absurd hnew hne⟩
    · rw [hsame]
      exact ⟨fun heq => absurd heq (Cycles.apply_ne_of_fixed hfix hv), fun _ => hcomes⟩
  induction h with
  | first => exact hstep z hz.ne .first
  | @next v h hle ih =>
    by_cases hv : v = x
    · subst hv
      rw [Cycles.swap_mul_new hfix]
      exact ⟨fun _ => ih.1 rfl, fun _ => ih.1 rfl⟩
    · exact hstep v hv (.next (ih.2 hv) hle)

theorem joined_comes (hz : z < x) (h : Comes f z w) : Comes (swap x y * f) z w := by
  have hstep : ∀ v, v ≠ x → Comes (swap x y * f) z ((swap x y * f) v) →
      Comes (swap x y * f) z (f v) := by
    intro v hv hcomes
    obtain ⟨hfv, hnew⟩ | ⟨-, hsame⟩ := Cycles.swap_mul_cases (y := y) hfix hv
    · rw [hnew] at hcomes
      have hnext := hcomes.next hz.le
      rw [Cycles.swap_mul_new hfix] at hnext
      rwa [hfv]
    · rwa [hsame] at hcomes
  induction h with
  | first => exact hstep z hz.ne .first
  | @next v h hle ih =>
    by_cases hv : v = x
    · subst hv
      rwa [hfix]
    · exact hstep v hv (.next ih hle)

/-- Below `x` everything falls where it did. -/
theorem falls_joined_iff (hz : z < x) : Falls (swap x y * f) z w ↔ Falls f z w := by
  constructor
  · rintro ⟨hcomes, hlt⟩
    exact ⟨(comes_of_joined hfix hz hcomes).2 (hlt.trans hz).ne, hlt⟩
  · rintro ⟨hcomes, hlt⟩
    exact ⟨joined_comes hfix hz hcomes, hlt⟩

theorem falls_joined_new (hy : y < x) : Falls (swap x y * f) x w ↔ w = y := by
  have hnew : (swap x y * f) x = y := Cycles.swap_mul_new hfix
  rw [falls_of_apply_lt (hnew.symm ▸ hy), hnew]

end Joined
end Descents
