import CardsGame.Backdrop
import CardsGame.Board
import CardsGame.Countdown

/-!
# The time of a game

`update` takes the time in every frame and charges it in some. The three fields it
keeps for this are a countdown over the frames of the run.
-/
namespace CardsGame

open Swift
open Countdown (Clock Frame unpaused Ordered)
open Runs (Run)

namespace PlayScene

/-- The frame that an event is, with the pause state it runs under. -/
def observed (s : PlayScene) : Event → List (Frame ℚ)
  | .frame currentTime => [(currentTime, s.pauseState)]
  | _ => []

/-- The frames of a run, in order. -/
def framesOf (s : PlayScene) : List Event → List (Frame ℚ)
  | [] => []
  | e :: es =>
    match step s e with
    | .ok t => observed s e ++ framesOf t es
    | .error _ => []

/-- The fields of the scene are those of the clock. -/
structure Keeps (c : Clock ℚ) (s : PlayScene) : Prop where
  timer : s.timer = some c.remaining
  lastUpdateTimeInterval : s.lastUpdateTimeInterval = some c.last
  firstFrame : s.firstFrame = !c.started

section Steps

variable {c : Clock ℚ} {s t : PlayScene}

theorem Keeps.of_backdrop (h : Keeps c s) (hs : t.backdrop = s.backdrop) : Keeps c t := by
  have htimer := congrArg PlayScene.timer hs
  have hlast := congrArg PlayScene.lastUpdateTimeInterval hs
  have hfirst := congrArg PlayScene.firstFrame hs
  exact ⟨htimer.trans h.timer, hlast.trans h.lastUpdateTimeInterval, hfirst.trans h.firstFrame⟩

/-- The clamp of `update`, once the last frame is known. -/
theorem remaining_eq {timer last : ℚ} (hlast : s.lastUpdateTimeInterval = some last)
    (currentTime : ℚ) : s.remaining timer currentTime = max 0 (timer - (currentTime - last)) := by
  simp only [remaining, hlast]
  split
  · next hneg => rw [max_eq_left hneg.le]
  · next hpos => rw [max_eq_right (not_lt.mp hpos)]

theorem Keeps.update (h : Keeps c s) {currentTime : ℚ} (hs : update currentTime s = .ok t) :
    Keeps (c.tick (currentTime, s.pauseState)) t := by
  have hfirst := h.firstFrame
  obtain ⟨hidle, rfl⟩ | ⟨⟨hfirst', hpause⟩, difficulty, timer, -, ht, rfl⟩ := update_eq_ok hs
  · have htick : ¬ (c.started = true ∧ s.pauseState = false) := by
      rintro ⟨hstarted, hpause⟩
      rw [hstarted] at hfirst
      exact hidle ⟨hfirst, hpause⟩
    refine ⟨?_, rfl, rfl⟩
    change s.timer = some (if _ then _ else _)
    rw [if_neg htick, h.timer]
  · have htick : c.started = true ∧ s.pauseState = false := by
      rw [hfirst', Bool.false_eq, Bool.not_eq_false'] at hfirst
      exact ⟨hfirst, hpause⟩
    refine ⟨?_, rfl, rfl⟩
    change some (s.remaining timer currentTime) = some (if _ then _ else _)
    cases ht.symm.trans h.timer
    rw [if_pos htick, remaining_eq h.lastUpdateTimeInterval]

/-- A frame is a tick of the clock, and no other event is anything to it. -/
theorem Keeps.step (h : Keeps c s) {e : Event} (hs : step s e = .ok t) :
    Keeps ((observed s e).foldl Clock.tick c) t := by
  cases e with
  | frame currentTime => exact h.update hs
  | touch nod => exact h.of_backdrop (backdrop_step (e := .touch nod) trivial hs)
  | fire b => exact h.of_backdrop (backdrop_step (e := .fire b) trivial hs)
  | togglePause now later =>
    obtain ⟨rfl, -⟩ | ⟨-, pauseLayer, pauseImg, -, -, rfl⟩ := togglePause_eq_ok hs
    · exact h
    · exact ⟨h.timer, h.lastUpdateTimeInterval, h.firstFrame⟩
  | accelerometer data =>
    cases hs
    obtain ⟨gravity, lastZ, presented, effects, heq⟩ := accelerometerHandler_eq data s
    rw [heq]
    exact ⟨h.timer, h.lastUpdateTimeInterval, h.firstFrame⟩
  | evaluateActions | leave =>
    cases hs
    exact ⟨h.timer, h.lastUpdateTimeInterval, h.firstFrame⟩

theorem Keeps.run {es : List Event} (h : Keeps c s) (hrun : Run PlayScene.step Occurs s es t) :
    Keeps ((framesOf s es).foldl Clock.tick c) t := by
  induction hrun generalizing c with
  | nil s => exact h
  | @cons s u t e es ho hs hrun ih =>
    simp only [framesOf, hs, List.foldl_append]
    exact ih (h.step hs)

end Steps

theorem opened_keeps (g : Game) (sequence : List Int) :
    Keeps ⟨g.time, 0, false⟩ { g.scene.boarded g.assets g.bounds sequence with
      pauseTimer := some g.now } := by
  rw [boarded, dealt_eq]
  exact ⟨rfl, rfl, rfl⟩

/-- In every run whose frames come in order, the timer shows the time of the game
without the time between the frames that ran unpaused, and never leaves its bounds. -/
theorem timer_eq_unpaused (g : Game) (hT : 0 ≤ g.time) {s t : PlayScene} {es : List Event}
    (hstart : g.start = .ok s) (hrun : Run step Occurs s es t)
    (hordered : Ordered (framesOf s es)) :
    ∃ timer, t.timer = some timer ∧ timer = max 0 (g.time - unpaused (framesOf s es)) ∧
      0 ≤ timer ∧ timer ≤ g.time := by
  obtain ⟨n, sequence, -, -, rfl⟩ := Game.start_eq_ok hstart
  have hkeeps := (opened_keeps g sequence).run hrun
  refine ⟨_, hkeeps.timer, Countdown.ticks _ hT hordered, ?_⟩
  rw [Countdown.ticks _ hT hordered]
  refine ⟨le_max_left _ _, max_le hT ?_⟩
  exact sub_le_self _ (Countdown.unpaused_nonneg hordered)

/-- The first frame, ten seconds, ten seconds that end paused, and fifteen more. -/
def pausedGame : List Event :=
  [.frame 1000, .frame 1010, .togglePause 10 10, .frame 1020, .togglePause 30 30, .frame 1030,
    .frame 1035]

theorem timer_eq_unpaused_small : ∃ t,
    Game.small.played step Occurs pausedGame = some t ∧ t.timer = some 95 := by
  have hplayed : (Game.small.start.toOption.map fun s => framesOf s pausedGame) =
      some [(1000, false), (1010, false), (1020, true), (1030, false), (1035, false)] := by
    decide +kernel
  obtain ⟨s, t, hs, ht, hrun⟩ := Game.run_of_played Game.small step Occurs pausedGame
    (by decide +kernel)
  rw [hs] at hplayed
  have hframes : framesOf s pausedGame = _ := Option.some.inj hplayed
  have hordered : Ordered (framesOf s pausedGame) := by
    rw [hframes, Ordered]
    decide +kernel
  obtain ⟨timer, htimer, heq, -⟩ :=
    timer_eq_unpaused Game.small (by decide +kernel) hs hrun hordered
  have hunpaused : unpaused (framesOf s pausedGame) = 25 := by
    rw [hframes]
    decide +kernel
  refine ⟨t, ht, ?_⟩
  rw [htimer, heq, hunpaused]
  decide +kernel

end PlayScene
end CardsGame
