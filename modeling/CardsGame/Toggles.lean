import Mathlib.Algebra.Order.Group.Defs
import Mathlib.Data.List.Chain
import Mathlib.Tactic.Abel
import Mathlib.Tactic.GCongr
import CardsGame.Backdrop
import CardsGame.Fresh

/-!
# The pause and the gyroscope

A timer looks at the gyroscope sixty times a second, and calls `TogglePause` whenever the
device turns fast enough. What becomes of these calls depends on their dates alone: it is
a debounce, which lets those through that come more than `d` after the time that the last
one let through has left behind.
-/
namespace Debounce

/-- A call: the time it comes at, and the time it leaves behind if it is let through. -/
abbrev Call (K : Type) := K × K

variable {K : Type} [AddCommGroup K] [LinearOrder K]

/-- The calls that are let through, in order. -/
def accepted (d : K) : K → List (Call K) → List (Call K)
  | _, [] => []
  | last, call :: calls =>
    if last + d < call.1 then call :: accepted d call.2 calls else accepted d last calls

/-- The time that is left behind by the last of them. -/
def remembered (d : K) : K → List (Call K) → K
  | last, [] => last
  | last, call :: calls =>
    if last + d < call.1 then remembered d call.2 calls else remembered d last calls

variable {d last : K} {call : Call K}

theorem accepted_cons (h : last + d < call.1) (calls : List (Call K)) :
    accepted d last (call :: calls) = call :: accepted d call.2 calls := if_pos h

theorem accepted_skip (h : ¬ last + d < call.1) (calls : List (Call K)) :
    accepted d last (call :: calls) = accepted d last calls := if_neg h

theorem accepted_append (calls calls' : List (Call K)) :
    accepted d last (calls ++ calls') =
      accepted d last calls ++ accepted d (remembered d last calls) calls' := by
  induction calls generalizing last with
  | nil => rfl
  | cons call calls ih =>
    by_cases h : last + d < call.1
    · rw [List.cons_append, accepted_cons h, accepted_cons h, remembered, if_pos h, ih,
        List.cons_append]
    · rw [List.cons_append, accepted_skip h, accepted_skip h, remembered, if_neg h, ih]

theorem remembered_append (calls calls' : List (Call K)) :
    remembered d last (calls ++ calls') = remembered d (remembered d last calls) calls' := by
  induction calls generalizing last with
  | nil => rfl
  | cons call calls ih =>
    by_cases h : last + d < call.1
    · rw [List.cons_append, remembered, remembered, if_pos h, if_pos h, ih]
    · rw [List.cons_append, remembered, remembered, if_neg h, if_neg h, ih]

/-- More than `d` lies before the first call let through, and between any two. -/
theorem accepted_spaced (calls : List (Call K)) (d last x : K) :
    ((x, last) :: accepted d last calls).IsChain fun a b => a.2 + d < b.1 := by
  induction calls generalizing last x with
  | nil => exact List.isChain_singleton _
  | cons call calls ih =>
    by_cases h : last + d < call.1
    · rw [accepted_cons h]
      exact List.isChain_cons_cons.mpr ⟨h, ih call.2 call.1⟩
    · rw [accepted_skip h]
      exact ih last x

/-- So only so many are let through in a given time. -/
theorem accepted_bounded [IsOrderedAddMonoid K] {stop : K} {calls : List (Call K)}
    (hlast : last ≤ stop) (hcalls : ∀ call ∈ calls, call.1 ≤ call.2 ∧ call.2 ≤ stop) :
    (accepted d last calls).length • d ≤ stop - last := by
  induction calls generalizing last with
  | nil => simpa [accepted] using hlast
  | cons call calls ih =>
    obtain ⟨⟨hfirst, hstop⟩, hrest⟩ := List.forall_mem_cons.mp hcalls
    by_cases h : last + d < call.1
    · have hih := ih hstop hrest
      rw [accepted_cons h, List.length_cons, succ_nsmul]
      calc (accepted d call.2 calls).length • d + d
          ≤ stop - call.2 + d := by gcongr
        _ ≤ stop - (last + d) + d := by gcongr; exact h.le.trans hfirst
        _ = stop - last := by abel
    · rw [accepted_skip h]
      exact ih hlast hrest

end Debounce

namespace CardsGame

open Swift SpriteKit
open Debounce (Call accepted remembered)
open Pairs (Hand)
open Runs (Run)

namespace PlayScene

/-- The block of the gyroscope's timer; `x` is the rotation rate, if there is one yet, and
the dates are those that `TogglePause` reads. -/
def gyroBlock (x : Option ℚ) (now later : ℚ) (s : PlayScene) : Checked PlayScene :=
  match x with
  | some x => if x > 5 then togglePause now later s else .ok s
  | none => .ok s

/-- An event, or the timer. -/
inductive Moment where
  | event (e : Event)
  | gyro (x : Option ℚ) (now later : ℚ)

def sense (s : PlayScene) : Moment → Checked PlayScene
  | .event e => step s e
  | .gyro x now later => gyroBlock x now later s

def Senses (s : PlayScene) : Moment → Prop
  | .event e => Occurs s e
  | .gyro _ _ _ => True

instance (s : PlayScene) (m : Moment) : Decidable (Senses s m) :=
  match m with
  | .event e => inferInstanceAs (Decidable (Occurs s e))
  | .gyro _ _ _ => .isTrue trivial

/-- The call of `TogglePause` that a moment makes, if any. -/
def Moment.toggle : Moment → List (Call ℚ)
  | .event (.togglePause now later) => [(now, later)]
  | .gyro (some x) now later => if x > 5 then [(now, later)] else []
  | _ => []

def toggles (ms : List Moment) : List (Call ℚ) := ms.flatMap Moment.toggle

variable {base n : Nat} {h : Hand Nat} {s t : PlayScene}

/-- A moment is an event, or makes no difference. -/
theorem sense_cases {m : Moment} (hm : Senses s m) (hs : sense s m = .ok t) :
    (t = s ∧ m.toggle = []) ∨
      ∃ e, Occurs s e ∧ step s e = .ok t ∧ m.toggle = (Moment.event e).toggle := by
  cases m with
  | event e => exact .inr ⟨e, hm, hs, rfl⟩
  | gyro x now later =>
    cases x with
    | none =>
      cases hs
      exact .inl ⟨rfl, rfl⟩
    | some x =>
      simp only [sense, gyroBlock] at hs
      split at hs
      · next hfast => exact .inr ⟨.togglePause now later, trivial, hs, if_pos hfast⟩
      · next hslow =>
        cases hs
        exact .inl ⟨rfl, if_neg hslow⟩

theorem pause_of_backdrop (hs : t.backdrop = s.backdrop) :
    t.pauseTimer = s.pauseTimer ∧ t.pauseState = s.pauseState := by
  have htimer := congrArg PlayScene.pauseTimer hs
  have hstate := congrArg PlayScene.pauseState hs
  exact ⟨htimer, hstate⟩

/-- Only `TogglePause` writes the pause and its date. -/
theorem pause_kept {e : Event} (htoggle : (Moment.event e).toggle = []) (hs : step s e = .ok t) :
    t.pauseTimer = s.pauseTimer ∧ t.pauseState = s.pauseState := by
  cases e with
  | togglePause now later => cases htoggle
  | touch nod =>
    exact pause_of_backdrop (backdrop_step (e := .touch nod) trivial hs)
  | fire b =>
    exact pause_of_backdrop (backdrop_step (e := .fire b) trivial hs)
  | frame currentTime =>
    obtain ⟨-, rfl⟩ | ⟨-, difficulty, timer, -, -, rfl⟩ := update_eq_ok hs
    · exact ⟨rfl, rfl⟩
    · exact ⟨rfl, rfl⟩
  | accelerometer data =>
    cases hs
    obtain ⟨gravity, lastZ, presented, effects, heq⟩ := accelerometerHandler_eq data s
    rw [heq]
    exact ⟨rfl, rfl⟩
  | evaluateActions m | leave =>
    cases hs
    exact ⟨rfl, rfl⟩

/-- The pause of a scene is a debounce of its calls. -/
theorem toggle_sense {m : Moment} {last : ℚ} (hlast : s.pauseTimer = some last) (hm : Senses s m)
    (hs : sense s m = .ok t) : t.pauseTimer = some (remembered (1 / 2) last m.toggle) ∧
      t.pauseState = (s.pauseState ^^ (accepted (1 / 2) last m.toggle).length.bodd) := by
  obtain ⟨rfl, htoggle⟩ | ⟨e, -, hs, htoggle⟩ := sense_cases hm hs
  · rw [htoggle]
    exact ⟨hlast, by simp [accepted]⟩
  · rw [htoggle]
    cases hcalls : (Moment.event e).toggle with
    | nil =>
      obtain ⟨htimer, hstate⟩ := pause_kept hcalls hs
      exact ⟨htimer.trans hlast, by simp [accepted, hstate]⟩
    | cons call calls =>
      cases e with
      | togglePause now later =>
        cases hcalls
        obtain ⟨rfl, hreject⟩ | ⟨⟨last', hlast', haccept⟩, pauseLayer, pauseImg, -, -, rfl⟩ :=
          togglePause_eq_ok hs
        · have hnot : ¬ last + 1 / 2 < now := fun hnow => hreject ⟨last, hlast, hnow⟩
          rw [Debounce.accepted_skip hnot, remembered, if_neg hnot]
          exact ⟨hlast, by simp [accepted]⟩
        · cases hlast.symm.trans hlast'
          rw [Debounce.accepted_cons haccept, remembered, if_pos haccept]
          exact ⟨rfl, by simp [accepted, toggled]⟩
      | touch | frame | fire | accelerometer | evaluateActions | leave => cases hcalls

theorem run_toggles {ms : List Moment} {last : ℚ} (hlast : s.pauseTimer = some last)
    (hrun : Run sense Senses s ms t) : t.pauseTimer = some (remembered (1 / 2) last (toggles ms)) ∧
      t.pauseState = (s.pauseState ^^ (accepted (1 / 2) last (toggles ms)).length.bodd) := by
  induction hrun generalizing last with
  | nil s => exact ⟨hlast, by simp [toggles, accepted]⟩
  | @cons s u t m ms hm hs _ ih =>
    obtain ⟨htimer, hstate⟩ := toggle_sense hlast hm hs
    obtain ⟨htimer', hstate'⟩ := ih htimer
    have hcons : toggles (m :: ms) = m.toggle ++ toggles ms := List.flatMap_cons
    rw [hcons, Debounce.remembered_append, Debounce.accepted_append]
    refine ⟨htimer', ?_⟩
    rw [hstate', hstate, List.length_append, Nat.bodd_add, Bool.xor_assoc]

/-- Whatever happens in a game, it is paused after an odd number of toggles that are let
through. Of those asked for, by the gyroscope or otherwise, these are more than half a
second apart, and after the start: at most two in every second of the game. -/
theorem pause_debounced (g : Game) {s t : PlayScene} {ms : List Moment} (hstart : g.start = .ok s)
    (hrun : Run sense Senses s ms t) (hdates : ∀ call ∈ toggles ms, call.1 ≤ call.2) :
    (t.pauseState = true ↔ Odd (accepted (1 / 2) g.now (toggles ms)).length) ∧
      ((g.now, g.now) :: accepted (1 / 2) g.now (toggles ms)).IsChain
        (fun a b => a.2 + 1 / 2 < b.1) ∧
      ∀ stop, g.now ≤ stop → (∀ call ∈ toggles ms, call.2 ≤ stop) →
        ((accepted (1 / 2) g.now (toggles ms)).length : ℚ) ≤ 2 * (stop - g.now) := by
  obtain ⟨n, sequence, hn, hperm, rfl⟩ := Game.start_eq_ok hstart
  have hlast : (g.opened sequence).pauseTimer = some g.now := rfl
  obtain ⟨-, hstate⟩ := run_toggles hlast hrun
  refine ⟨?_, Debounce.accepted_spaced _ _ _ _, ?_⟩
  · have hbegin : (g.opened sequence).pauseState = false := rfl
    rw [hstate, hbegin, Bool.false_xor, Nat.odd_iff, Nat.mod_two_of_bodd]
    cases (accepted (1 / 2) g.now (toggles ms)).length.bodd <;> decide
  · intro stop hstop hcalls
    have hbound := Debounce.accepted_bounded (d := 1 / 2) hstop
      fun call hcall => ⟨hdates call hcall, hcalls call hcall⟩
    rw [nsmul_eq_mul] at hbound
    linarith

/-- The device is shaken for a second, then held still, and shaken again. -/
def shaken : List Moment :=
  [.gyro none 1 1, .gyro (some 6) 1 1, .gyro (some 7) (5 / 4) (5 / 4), .gyro (some 6) 2 2,
    .gyro (some 1) 3 3, .gyro (some 9) 4 4]

theorem pause_debounced_small : ∃ s t, Game.small.start = .ok s ∧ Run sense Senses s shaken t ∧
    t.pauseState = true ∧ Odd (accepted (1 / 2) Game.small.now (toggles shaken)).length := by
  have hplayed : (Game.small.played sense Senses shaken).map (·.pauseState) = some true := by
    decide +kernel
  obtain ⟨s, t, hs, ht, hrun, hpause⟩ := Game.run_of_map Game.small sense Senses shaken hplayed
  have hdates : ∀ call ∈ toggles shaken, call.1 ≤ call.2 := by decide +kernel
  exact ⟨s, t, hs, hrun, hpause, (pause_debounced Game.small hs hrun hdates).1.mp hpause⟩

end PlayScene
end CardsGame
