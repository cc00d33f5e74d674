import Mathlib.Data.List.Basic

/-!
# Runs of a fallible machine under a guard

`step` executes one event or stops with a failure; `may` says which events can
happen in which state. A run is a finite list of events, each of which may
happen and succeeds. What the steps put out, in order, is the trace of the run.
Two fallible computations agree when both stop with the same failure, or both end
in related values. Nothing here mentions what the machine is.
-/
namespace Runs

variable {σ ε τ : Type}

/-- `Run step may s es t`: the events `es`, in order, lead from `s` to `t`. -/
inductive Run (step : σ → ε → Except τ σ) (may : σ → ε → Prop) : σ → List ε → σ → Prop where
  | nil (s : σ) : Run step may s [] s
  | cons {s t u : σ} {e : ε} {es : List ε} :
      may s e → step s e = .ok t → Run step may t es u → Run step may s (e :: es) u

variable {step : σ → ε → Except τ σ} {may may' : σ → ε → Prop}

theorem Run.single {s t : σ} {e : ε} (hm : may s e) (hs : step s e = .ok t) :
    Run step may s [e] t := .cons hm hs (.nil t)

theorem Run.append {s t u : σ} {es fs : List ε} (h : Run step may s es t)
    (h' : Run step may t fs u) : Run step may s (es ++ fs) u := by
  induction h with
  | nil s => exact h'
  | cons hm hs _ ih => exact .cons hm hs (ih h')

/-- A run is also a run under every weaker guard. -/
theorem Run.mono {s t : σ} {es : List ε} (hle : ∀ s e, may s e → may' s e)
    (h : Run step may s es t) : Run step may' s es t := by
  induction h with
  | nil s => exact .nil s
  | cons hm hs _ ih => exact .cons (hle _ _ hm) hs ih

/-- A run of events of one kind is a run under the guard that asks for the kind. -/
theorem Run.restrict {P : ε → Prop} {s t : σ} {es : List ε} (h : Run step may s es t)
    (hes : ∀ e ∈ es, P e) : Run step (fun s e => may s e ∧ P e) s es t := by
  induction h with
  | nil s => exact .nil s
  | cons hm hs _ ih =>
    obtain ⟨he, hes⟩ := List.forall_mem_cons.mp hes
    exact .cons ⟨hm, he⟩ hs (ih hes)

/-- What every step preserves, every run preserves. -/
theorem Run.preserves {I : σ → Prop}
    (hstep : ∀ s e t, I s → may s e → step s e = .ok t → I t)
    {s t : σ} {es : List ε} (hi : I s) (h : Run step may s es t) : I t := by
  induction h with
  | nil s => exact hi
  | cons hm hs _ ih => exact ih (hstep _ _ _ hi hm hs)

/-- The same for a relation to the first state, under an invariant of the run. -/
theorem Run.relates {I : σ → Prop} {R : σ → σ → Prop}
    (hstep : ∀ s e t, I s → may s e → step s e = .ok t → I t)
    (hrefl : ∀ s, R s s) (htrans : ∀ s t u, R s t → R t u → R s u)
    (hrel : ∀ s e t, I s → may s e → step s e = .ok t → R s t)
    {s t : σ} {es : List ε} (hi : I s) (h : Run step may s es t) : R s t := by
  induction h with
  | nil s => exact hrefl s
  | cons hm hs _ ih =>
    exact htrans _ _ _ (hrel _ _ _ hi hm hs) (ih (hstep _ _ _ hi hm hs))

/-- A counter that steps move by one on events of one kind, and only on these, counts
the events of that kind. -/
theorem Run.counts {I : σ → Prop} {count : σ → Int} {p : ε → Bool}
    (hstep : ∀ s e t, I s → may s e → step s e = .ok t →
      I t ∧ count t = count s + if p e then 1 else 0)
    {s t : σ} {es : List ε} (hi : I s) (h : Run step may s es t) :
    count t = count s + es.countP p := by
  induction h with
  | nil s => simp
  | @cons s _ _ e es hm hs _ ih =>
    obtain ⟨hi', hcount⟩ := hstep _ _ _ hi hm hs
    rw [ih hi', hcount, List.countP_cons]
    split
    · push_cast
      omega
    · push_cast
      omega

/-- Execute a list of events, giving up on the first that may not happen or fails. -/
def replay (step : σ → ε → Except τ σ) (may : σ → ε → Prop)
    [∀ s e, Decidable (may s e)] (s : σ) : List ε → Option σ
  | [] => some s
  | e :: es =>
    if may s e then
      match step s e with
      | .ok t => replay step may t es
      | .error _ => none
    else none

theorem replay_run [∀ s e, Decidable (may s e)] {s t : σ} {es : List ε}
    (h : replay step may s es = some t) : Run step may s es t := by
  induction es generalizing s with
  | nil =>
    simp only [replay, Option.some.injEq] at h
    subst h
    exact .nil s
  | cons e es ih =>
    simp only [replay] at h
    split at h
    · next hm =>
      split at h
      · next u hs => exact .cons hm hs (ih h)
      · cases h
    · cases h

theorem run_of_map {β : Type} [∀ s e, Decidable (may s e)] {s : σ} {es : List ε} {f : σ → β}
    {v : β} (h : (replay step may s es).map f = some v) :
    ∃ t, replay step may s es = some t ∧ Run step may s es t ∧ f t = v := by
  obtain ⟨t, ht, hv⟩ := Option.map_eq_some_iff.mp h
  exact ⟨t, ht, replay_run ht, hv⟩

end Runs

namespace Trace

open Runs (Run)

variable {σ ε τ β ρ : Type}

/-- The values that the events put out from `s` on; `out s e t` is what the step from `s`
to `t` does. -/
def trace (step : σ → ε → Except τ σ) (out : σ → ε → σ → List β) (s : σ) : List ε → List β
  | [] => []
  | e :: es =>
    match step s e with
    | .ok t => out s e t ++ trace step out t es
    | .error _ => []

variable {step : σ → ε → Except τ σ} {may : σ → ε → Prop} {out : σ → ε → σ → List β} {s t : σ}
  {es : List ε}

theorem trace_cons {e : ε} (h : step s e = .ok t) (es : List ε) :
    trace step out s (e :: es) = out s e t ++ trace step out t es := by
  rw [trace, h]

/-- A summary of the state that every step updates by what it puts out. -/
theorem trace_folds {I : σ → Prop} {f : σ → ρ} {add : ρ → β → ρ}
    (hstep : ∀ s e t, I s → may s e → step s e = .ok t →
      I t ∧ f t = (out s e t).foldl add (f s))
    (hi : I s) (h : Run step may s es t) :
    f t = (trace step out s es).foldl add (f s) := by
  induction h with
  | nil s => rfl
  | @cons s _ _ e es hm hs _ ih =>
    obtain ⟨hi', hf⟩ := hstep s e _ hi hm hs
    rw [ih hi', hf, trace_cons hs, List.foldl_append]

/-- What every step puts out has a property; then all of the trace has it. -/
theorem trace_forall {I : σ → Prop} {P : β → Prop}
    (hstep : ∀ s e t, I s → may s e → step s e = .ok t → I t ∧ ∀ b ∈ out s e t, P b)
    (hi : I s) (h : Run step may s es t) : ∀ b ∈ trace step out s es, P b := by
  induction h with
  | nil s => simp [trace]
  | @cons s _ _ e es hm hs _ ih =>
    obtain ⟨hi', hout⟩ := hstep s e _ hi hm hs
    rw [trace_cons hs, List.forall_mem_append]
    exact ⟨hout, ih hi'⟩

end Trace

namespace Lifting

variable {τ α α' β β' : Type} {R : α → α' → Prop} {S : β → β' → Prop}

inductive Agree (R : α → α' → Prop) : Except τ α → Except τ α' → Prop where
  | ok {a : α} {a' : α'} (h : R a a') : Agree R (.ok a) (.ok a')
  | error (t : τ) : Agree R (.error t) (.error t)

theorem Agree.of_eq (x : Except τ α) : Agree (· = ·) x x := by
  cases x with
  | error t => exact .error t
  | ok a => exact .ok rfl

theorem Agree.bind {x : Except τ α} {y : Except τ α'} {f : α → Except τ β}
    {g : α' → Except τ β'} (h : Agree R x y) (hf : ∀ a a', R a a' → Agree S (f a) (g a')) :
    Agree S (x >>= f) (y >>= g) := by
  cases h with
  | ok h => exact hf _ _ h
  | error t => exact .error t

/-- The same computation first, then computations that agree on its value. -/
theorem Agree.after {f : α → Except τ β} {g : α → Except τ β'} (x : Except τ α)
    (hf : ∀ a, Agree S (f a) (g a)) : Agree S (x >>= f) (x >>= g) := by
  apply (Agree.of_eq x).bind
  rintro a _ rfl
  exact hf a

theorem Agree.ite {x y : Except τ α} {x' y' : Except τ α'} (p : Prop) [Decidable p]
    (hx : Agree R x x') (hy : Agree R y y') :
    Agree R (if p then x else y) (if p then x' else y') := by
  split
  · exact hx
  · exact hy

theorem Agree.left {a : α} {y : Except τ α'} (h : Agree R (.ok a) y) :
    ∃ a', y = .ok a' ∧ R a a' := by
  cases h with
  | ok h => exact ⟨_, rfl, h⟩

theorem Agree.right {x : Except τ α} {a' : α'} (h : Agree R x (.ok a')) :
    ∃ a, x = .ok a ∧ R a a' := by
  cases h with
  | ok h => exact ⟨_, rfl, h⟩

end Lifting
