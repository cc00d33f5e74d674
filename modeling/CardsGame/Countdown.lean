import Mathlib.Algebra.BigOperators.Group.List.Basic
import Mathlib.Algebra.Order.BigOperators.Group.List
import Mathlib.Algebra.Order.Group.Defs
import Mathlib.Algebra.Order.Group.MinMax

/-!
# A countdown over frames

At every frame the clock takes the time; it charges the interval since the last frame
when the frame is not a paused one, and stops at zero. Nothing here mentions what is
being timed.
-/
namespace Countdown

/-- A frame: its time, and whether it is paused. -/
abbrev Frame (K : Type) := K × Bool

/-- What remains, the time of the last frame, and whether there was one. -/
structure Clock (K : Type) where
  remaining : K
  last : K
  started : Bool

variable {K : Type} [AddCommGroup K]

/-- The interval between two frames, if it ends in one that is not paused. -/
def charge (previous frame : Frame K) : K := if frame.2 then 0 else frame.1 - previous.1

/-- The time between the frames, over the intervals that end in a frame not paused. -/
def unpaused (frames : List (Frame K)) : K := (frames.zipWith charge frames.tail).sum

theorem unpaused_cons_cons (a b : Frame K) (frames : List (Frame K)) :
    unpaused (a :: b :: frames) = charge a b + unpaused (b :: frames) := List.sum_cons

variable [LinearOrder K]

def Clock.tick (c : Clock K) (frame : Frame K) : Clock K where
  remaining :=
    if c.started = true ∧ frame.2 = false then max 0 (c.remaining - (frame.1 - c.last))
    else c.remaining
  last := frame.1
  started := true

/-- A started clock charges the next frame, down to zero. -/
theorem tick_started {c : Clock K} (hstarted : c.started = true) (hremaining : 0 ≤ c.remaining)
    (paused : Bool) (frame : Frame K) :
    (c.tick frame).remaining = max 0 (c.remaining - charge (c.last, paused) frame) := by
  cases hpaused : frame.2 with
  | false => simp [Clock.tick, charge, hstarted, hpaused]
  | true => simp [Clock.tick, charge, hpaused, hremaining]

/-- The times of the frames do not decrease. -/
def Ordered (frames : List (Frame K)) : Prop := frames.Pairwise fun a b => a.1 ≤ b.1

variable [IsOrderedAddMonoid K]

theorem charge_nonneg {a b : Frame K} (h : a.1 ≤ b.1) : 0 ≤ charge a b := by
  unfold charge
  split
  · exact le_refl 0
  · exact sub_nonneg.mpr h

theorem unpaused_nonneg {frames : List (Frame K)} (h : Ordered frames) : 0 ≤ unpaused frames := by
  induction frames with
  | nil => exact le_refl 0
  | cons a frames ih =>
    cases frames with
    | nil => exact le_refl 0
    | cons b frames =>
      obtain ⟨hfirst, hrest⟩ := List.pairwise_cons.mp h
      rw [unpaused_cons_cons]
      exact add_nonneg (charge_nonneg (hfirst b List.mem_cons_self)) (ih hrest)

/-- Stopping at zero early makes no difference to what is charged later. -/
theorem max_sub_clamped (a : K) {b : K} (hb : 0 ≤ b) : max 0 (max 0 a - b) = max 0 (a - b) := by
  obtain h | h := le_total 0 a
  · rw [max_eq_right h]
  · rw [max_eq_left h, max_eq_left, max_eq_left]
    · exact (sub_le_self a hb).trans h
    · exact sub_le_self 0 hb

/-- Past the first frame, what remains is what was left then without the unpaused time. -/
theorem ticks_started (frames : List (Frame K)) {c : Clock K} (hstarted : c.started = true)
    (hremaining : 0 ≤ c.remaining) (paused : Bool) (h : Ordered ((c.last, paused) :: frames)) :
    (frames.foldl Clock.tick c).remaining =
      max 0 (c.remaining - unpaused ((c.last, paused) :: frames)) := by
  induction frames generalizing c paused with
  | nil => simp [unpaused, hremaining]
  | cons frame frames ih =>
    obtain ⟨hfirst, hrest⟩ := List.pairwise_cons.mp h
    have htick := tick_started hstarted hremaining paused frame
    have hnonneg : 0 ≤ (c.tick frame).remaining := by
      rw [htick]
      exact le_max_left _ _
    rw [List.foldl_cons, @ih (c.tick frame) rfl hnonneg frame.2 hrest, htick, unpaused_cons_cons]
    change max 0 (max 0 _ - unpaused (frame :: frames)) = _
    rw [max_sub_clamped _ (unpaused_nonneg hrest), sub_sub]

/-- A countdown from `T` shows `T` without the unpaused time, but never less than zero. -/
theorem ticks (frames : List (Frame K)) {T last : K} (hT : 0 ≤ T) (h : Ordered frames) :
    (frames.foldl Clock.tick ⟨T, last, false⟩).remaining = max 0 (T - unpaused frames) := by
  cases frames with
  | nil => simp [unpaused, hT]
  | cons frame frames => exact ticks_started frames rfl hT frame.2 h

end Countdown
