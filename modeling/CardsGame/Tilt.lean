import CardsGame.Backdrop
import CardsGame.Board
import CardsGame.Edges

/-!
# Tilting to the menu

The accelerometer handler remembers the last sample in `lastZ` and calls `GoMenu` when
a sample below 0.5 is followed by one above. A sample of exactly 0.5 is neither.
-/
namespace CardsGame

open Swift SpriteKit
open Edges (MaximalRun Fires Starts previous)
open Runs (Run)

/-- The x value that an event brings to the handler. -/
def Event.sample : Event → Option ℚ
  | .accelerometer (some acceleration) => some acceleration.x
  | _ => none

def samples (es : List Event) : List ℚ := es.filterMap Event.sample

theorem Event.sample_eq_some {e : Event} {x : ℚ} (h : e.sample = some x) :
    ∃ acceleration, e = .accelerometer (some acceleration) ∧ acceleration.x = x := by
  cases e with
  | accelerometer data =>
    cases data with
    | none => cases h
    | some acceleration => exact ⟨acceleration, rfl, Option.some.inj h⟩
  | _ => cases h

theorem samples_append (es fs : List Event) : samples (es ++ fs) = samples es ++ samples fs :=
  List.filterMap_append

namespace PlayScene

/-- A sample on the near side of the threshold, and one beyond it. -/
def Level (x : ℚ) : Prop := x < 1 / 2
def Steep (x : ℚ) : Prop := 1 / 2 < x

instance (x : ℚ) : Decidable (Level x) := inferInstanceAs (Decidable (x < 1 / 2))
instance (x : ℚ) : Decidable (Steep x) := inferInstanceAs (Decidable (1 / 2 < x))

theorem level_not_steep (x : ℚ) (h : Level x) : ¬ Steep x := not_lt_of_gt h

/-- The handler calls `GoMenu` this many times for the sample. -/
def MenuCalls (s : PlayScene) (acceleration : Point) (calls : Nat) : Prop :=
  (s.accelerometerHandler (some acceleration)).effects =
    s.effects ++ List.replicate calls .goMenu

theorem effects_goMenu (s : PlayScene) : s.goMenu.effects = s.effects ++ [.goMenu] := by
  unfold goMenu present
  split <;> rfl

/-- The handler calls `GoMenu` once for a step over the threshold, and otherwise not. -/
theorem menuCalls_iff (s : PlayScene) (acceleration : Point) (calls : Nat) :
    MenuCalls s acceleration calls ↔
      calls = if Level s.lastZ ∧ Steep acceleration.x then 1 else 0 := by
  have heffects : (s.accelerometerHandler (some acceleration)).effects = s.effects ++
      List.replicate (if Level s.lastZ ∧ Steep acceleration.x then 1 else 0) .goMenu := by
    unfold accelerometerHandler
    by_cases htilt : s.lastZ < 1 / 2 ∧ acceleration.x > 1 / 2
    · have htilt' : Level s.lastZ ∧ Steep acceleration.x := htilt
      simp only [if_pos htilt, if_pos htilt']
      exact effects_goMenu { s with gravity := acceleration }
    · have htilt' : ¬ (Level s.lastZ ∧ Steep acceleration.x) := htilt
      simp only [if_neg htilt, if_neg htilt', List.replicate_zero, List.append_nil]
  rw [MenuCalls, heffects, List.append_cancel_left_eq]
  constructor
  · intro h
    simpa using (congrArg List.length h).symm
  · intro h
    rw [h]

/-- Only a sample changes `lastZ`. -/
theorem lastZ_step {s t : PlayScene} {e : Event} (h : step s e = .ok t) :
    t.lastZ = e.sample.getD s.lastZ := by
  cases e with
  | touch nod =>
    have hlast := congrArg PlayScene.lastZ (backdrop_step (e := .touch nod) trivial h)
    exact hlast
  | fire b =>
    have hlast := congrArg PlayScene.lastZ (backdrop_step (e := .fire b) trivial h)
    exact hlast
  | frame currentTime =>
    obtain ⟨-, rfl⟩ | ⟨-, difficulty, timer, -, -, rfl⟩ := update_eq_ok h
    · rfl
    · rfl
  | togglePause now later =>
    obtain ⟨rfl, -⟩ | ⟨-, pauseLayer, pauseImg, -, -, rfl⟩ := togglePause_eq_ok h
    · rfl
    · rfl
  | accelerometer data =>
    cases h
    cases data with
    | none => rfl
    | some acceleration => rfl
  | evaluateActions | leave =>
    cases h
    rfl

theorem run_lastZ {s t : PlayScene} {es : List Event} (hrun : Run step Occurs s es t) :
    t.lastZ = (samples es).getLast?.getD s.lastZ := by
  induction hrun with
  | nil s => rfl
  | @cons s u t e es ho hs hrun ih =>
    rw [ih, lastZ_step hs, samples, samples, List.filterMap_cons]
    cases e.sample with
    | none => rfl
    | some x =>
      dsimp only
      rw [List.getLast?_cons]
      rfl

/-- Every sample of a run is handled in a state that the run reaches. -/
theorem exists_sample {s t : PlayScene} {es : List Event} (hrun : Run step Occurs s es t) {k : Nat}
    (hk : k < (samples es).length) :
    ∃ before acceleration after u, es = before ++ .accelerometer (some acceleration) :: after ∧
      (samples before).length = k ∧ Run step Occurs s before u := by
  induction hrun generalizing k with
  | nil s => exact absurd hk (Nat.not_lt_zero k)
  | @cons s v t e es ho hs hrun ih =>
    -- a sample that comes later is reached through `e`
    have hlater : ∀ m, k = (samples [e]).length + m → m < (samples es).length →
        ∃ before acceleration after u,
          e :: es = before ++ .accelerometer (some acceleration) :: after ∧
            (samples before).length = k ∧ Run step Occurs s before u := by
      intro m hm hlt
      obtain ⟨before, acceleration, after, u, rfl, hlength, hbefore⟩ := ih hlt
      refine ⟨e :: before, acceleration, after, u, rfl, ?_, .cons ho hs hbefore⟩
      rw [← List.singleton_append, samples_append, List.length_append, hlength, hm]
    have hsplit : (samples (e :: es)).length = (samples [e]).length + (samples es).length := by
      rw [← List.singleton_append, samples_append, List.length_append]
    cases hsample : e.sample with
    | none =>
      have hnone : (samples [e]).length = 0 := by simp [samples, hsample]
      exact hlater k (by omega) (by omega)
    | some x =>
      have hone : (samples [e]).length = 1 := by simp [samples, hsample]
      cases k with
      | zero =>
        obtain ⟨acceleration, rfl, -⟩ := Event.sample_eq_some hsample
        exact ⟨[], acceleration, es, s, rfl, rfl, .nil s⟩
      | succ k => exact hlater k (by omega) (by omega)

/-- The handler calls `GoMenu` this many times for the sample at position `k`. -/
def CallsAt (s : PlayScene) (es : List Event) (k calls : Nat) : Prop :=
  ∀ before acceleration after u, es = before ++ .accelerometer (some acceleration) :: after →
    (samples before).length = k → Run step Occurs s before u → MenuCalls u acceleration calls

/-- `GoMenu` is called once at the first sample of each maximal run of samples beyond the
threshold, and at no other sample. -/
structure EdgeTriggered (s : PlayScene) (es : List Event) : Prop where
  once : ∀ i j, MaximalRun Steep (samples es) i j → CallsAt s es i 1
  never : ∀ k, (∀ j, ¬ MaximalRun Steep (samples es) k j) → CallsAt s es k 0

section Calls

variable {s t : PlayScene} {es : List Event} (hlast : s.lastZ = 0)

include hlast

theorem fires_at {before : List Event} {u : PlayScene} (hbefore : Run step Occurs s before u)
    (acceleration : Point) (after : List Event) :
    Fires Level Steep 0 (samples (before ++ .accelerometer (some acceleration) :: after))
      (samples before).length ↔ Level u.lastZ ∧ Steep acceleration.x := by
  have hsplit : samples (before ++ .accelerometer (some acceleration) :: after) =
      samples before ++ acceleration.x :: samples after := samples_append _ _
  have hprevious : previous 0 (samples before ++ acceleration.x :: samples after)
      (samples before).length = some u.lastZ := by
    rw [Edges.previous_append, run_lastZ hbefore, hlast]
  have hcurrent : (samples before ++ acceleration.x :: samples after)[(samples before).length]? =
      some acceleration.x := by simp
  rw [hsplit, Edges.fires_iff hprevious hcurrent]

theorem callsAt_iff (hrun : Run step Occurs s es t) {k : Nat} (hk : k < (samples es).length) :
    (CallsAt s es k 1 ↔ Fires Level Steep 0 (samples es) k) ∧
      (CallsAt s es k 0 ↔ ¬ Fires Level Steep 0 (samples es) k) := by
  have hcalls : ∀ calls, CallsAt s es k calls ↔
      (Fires Level Steep 0 (samples es) k ∧ calls = 1 ∨
        ¬ Fires Level Steep 0 (samples es) k ∧ calls = 0) := by
    intro calls
    constructor
    · intro hcalls
      obtain ⟨before, acceleration, after, u, rfl, rfl, hbefore⟩ := exists_sample hrun hk
      have hcount := hcalls before acceleration after u rfl rfl hbefore
      rw [menuCalls_iff] at hcount
      rw [fires_at hlast hbefore]
      split at hcount
      · next htilt => exact .inl ⟨htilt, hcount⟩
      · next htilt => exact .inr ⟨htilt, hcount⟩
    · rintro h before acceleration after u rfl rfl hbefore
      rw [fires_at hlast hbefore] at h
      rw [menuCalls_iff]
      obtain ⟨htilt, hcount⟩ | ⟨htilt, hcount⟩ := h
      · rw [if_pos htilt, hcount]
      · rw [if_neg htilt, hcount]
  rw [hcalls, hcalls]
  simp

theorem edgeTriggered_iff (hrun : Run step Occurs s es t) :
    EdgeTriggered s es ↔ ∀ k, (samples es)[k]? = some (1 / 2 : ℚ) →
      ∀ x, (samples es)[k + 1]? = some x → x ≤ 1 / 2 := by
  have hfires : EdgeTriggered s es ↔
      ∀ k, Fires Level Steep 0 (samples es) k ↔ Starts Steep (samples es) k := by
    constructor
    · intro htriggered k
      refine ⟨Fires.starts level_not_steep, ?_⟩
      rintro ⟨j, hmaximal⟩
      have hk := Edges.starts_lt ⟨j, hmaximal⟩
      exact (callsAt_iff hlast hrun hk).1.mp (htriggered.once k j hmaximal)
    · intro hall
      constructor
      · intro i j hmaximal
        have hi := Edges.starts_lt ⟨j, hmaximal⟩
        exact (callsAt_iff hlast hrun hi).1.mpr ((hall i).mpr ⟨j, hmaximal⟩)
      · intro k hnone before acceleration after u heq hlength
        have hk : k < (samples es).length := by
          rw [heq, samples_append, ← hlength]
          simp [samples, Event.sample]
        have hquiet : ¬ Fires Level Steep 0 (samples es) k := by
          rw [hall]
          rintro ⟨j, hmaximal⟩
          exact hnone j hmaximal
        exact (callsAt_iff hlast hrun hk).2.mpr hquiet before acceleration after u heq hlength
  have hinitial : Level 0 := by
    unfold Level
    norm_num
  rw [hfires, Edges.fires_iff_starts level_not_steep hinitial]
  constructor
  · intro hclear k hhalf x hx
    by_contra hsteep
    obtain hlow | hhigh := hclear k (1 / 2) x hhalf hx (not_le.mp hsteep)
    · exact lt_irrefl _ hlow
    · exact lt_irrefl _ hhigh
  · intro hclear k y x hy hx hsteep
    obtain hlow | rfl | hhigh := lt_trichotomy y (1 / 2)
    · exact .inl hlow
    · exact absurd hsteep (not_lt_of_ge (hclear k hy x hx))
    · exact .inr hhigh

end Calls

/-- In a run of a game the tilt is edge triggered exactly when no sample of 0.5 is
directly followed by one above it. -/
theorem tilt_iff (g : Game) {s t : PlayScene} {es : List Event} (hstart : g.start = .ok s)
    (hrun : Run step Occurs s es t) :
    EdgeTriggered s es ↔ ∀ k, (samples es)[k]? = some (1 / 2 : ℚ) →
      ∀ x, (samples es)[k + 1]? = some x → x ≤ 1 / 2 := by
  obtain ⟨n, sequence, -, -, rfl⟩ := Game.start_eq_ok hstart
  apply edgeTriggered_iff _ hrun
  rw [boarded, dealt_eq]
  rfl

/-- Two tilts, with a touch and a frame between the samples. -/
def twoTilts : List Event :=
  [.accelerometer (some ⟨3 / 5, 0⟩), .frame 1, .accelerometer (some ⟨4 / 5, 0⟩),
    .accelerometer (some ⟨1 / 5, 0⟩), .touch 7, .accelerometer (some ⟨1, 0⟩)]

theorem tilt_iff_small : ∃ s, Game.small.start = .ok s ∧ EdgeTriggered s twoTilts := by
  obtain ⟨s, t, hs, -, hrun⟩ :=
    Game.run_of_played Game.small step Occurs twoTilts (by decide +kernel)
  refine ⟨s, hs, (tilt_iff Game.small hs hrun).mpr ?_⟩
  intro k hhalf
  have hmem := List.mem_of_getElem? hhalf
  simp [samples, twoTilts, Event.sample] at hmem
  norm_num at hmem

/-- From 0.5 to 0.6 the handler misses the edge. -/
theorem tilt_missed : ¬ ∀ (g : Game) (s t : PlayScene) (es : List Event), g.start = .ok s →
    Run step Occurs s es t → EdgeTriggered s es := by
  intro hall
  obtain ⟨s, t, hs, -, hrun⟩ := Game.run_of_played Game.small step Occurs
    [.accelerometer (some ⟨1 / 2, 0⟩), .accelerometer (some ⟨3 / 5, 0⟩)] (by decide +kernel)
  have htriggered := hall Game.small s t _ hs hrun
  obtain ⟨n, sequence, -, -, rfl⟩ := Game.start_eq_ok hs
  have hclear := (edgeTriggered_iff (by rw [boarded, dealt_eq]; rfl) hrun).mp htriggered 0 rfl _ rfl
  norm_num at hclear

end PlayScene
end CardsGame
