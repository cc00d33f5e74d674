import CardsGame.Backdrop
import CardsGame.Selection

/-!
# What a pause freezes

The touch handler and the frame look at `pauseState`; the delayed blocks and the
accelerometer handler do not. These two are all that moves a paused game.
-/
namespace CardsGame

open Swift SpriteKit
open Pairs (Hand)
open Runs (Run)

namespace PlayScene

/-- The game, its ranking and the scene being shown are as they were. -/
structure Frozen (s t : PlayScene) : Prop where
  index1 : t.selectedCardIndex1 = s.selectedCardIndex1
  index2 : t.selectedCardIndex2 = s.selectedCardIndex2
  lock : t.lockInteraction = s.lockInteraction
  cardsStatus : t.cardsStatus = s.cardsStatus
  visible : ∀ m, m ∈ s.cards ∨ m ∈ s.cardsBacks → (t.node m).settled = (s.node m).settled
  matchesCount : t.matchesCount = s.matchesCount
  tryCount : t.tryCount = s.tryCount
  score : t.score = s.score
  timer : t.timer = s.timer
  defaults : t.defaults = s.defaults
  presented : t.presented = s.presented
  view : t.view = s.view

/-- The toggle that ends the pause. -/
def EndsPause (s : PlayScene) : Event → Prop
  | .togglePause now _ => Accepts s now
  | _ => False

/-- The sample takes the scene to the menu. -/
def Tilts (s : PlayScene) (acceleration : Point) : Prop :=
  s.lastZ < 1 / 2 ∧ acceleration.x > 1 / 2

/-- No block fires, no sample of a scene with a view crosses the threshold, and the view
does not leave. -/
def Harmless (s : PlayScene) : Event → Prop
  | .fire _ => False
  | .accelerometer (some acceleration) => Tilts s acceleration → s.view = none
  | .leave => s.view = none
  | _ => True

theorem frozen_refl (s : PlayScene) : Frozen s s :=
  ⟨rfl, rfl, rfl, rfl, fun _ _ => rfl, rfl, rfl, rfl, rfl, rfl, rfl, rfl⟩

theorem Frozen.trans {base n : Nat} {s t u : PlayScene} (h : Frozen s t) (h' : Frozen t u)
    (hs : Board base n s) (ht : Board base n t) : Frozen s u where
  index1 := h'.index1.trans h.index1
  index2 := h'.index2.trans h.index2
  lock := h'.lock.trans h.lock
  cardsStatus := h'.cardsStatus.trans h.cardsStatus
  visible := by
    intro m hm
    have hm' : m ∈ t.cards ∨ m ∈ t.cardsBacks := by
      rw [ht.cards, ht.cardsBacks, ← hs.cards, ← hs.cardsBacks]
      exact hm
    rw [h'.visible m hm', h.visible m hm]
  matchesCount := h'.matchesCount.trans h.matchesCount
  tryCount := h'.tryCount.trans h.tryCount
  score := h'.score.trans h.score
  timer := h'.timer.trans h.timer
  defaults := h'.defaults.trans h.defaults
  presented := h'.presented.trans h.presented
  view := h'.view.trans h.view

section Paused

variable {base n : Nat} {h : Hand Nat} {s t : PlayScene}

theorem Board.base_le (hb : Board base n s) {m : Nat} (hm : m ∈ s.cards ∨ m ∈ s.cardsBacks) :
    base ≤ m := by
  rw [hb.cards, hb.cardsBacks] at hm
  simp only [List.mem_map, frontId, backId] at hm
  omega

/-- A quiet event keeps the game; the rest of what is frozen has to be checked. -/
theorem Quiet.frozen (hq : Quiet base s t) (hb : Board base n s) (hscore : t.score = s.score)
    (htimer : t.timer = s.timer) (hpresented : t.presented = s.presented)
    (hview : t.view = s.view) : Frozen s t where
  index1 := hq.index1
  index2 := hq.index2
  lock := hq.lock
  cardsStatus := hq.cardsStatus
  visible := by
    intro m hm
    obtain h | h := hq.node m (hb.base_le hm)
    · rw [h]
    · rw [h, Node.settled_evaluate]
  matchesCount := hq.matchesCount
  tryCount := hq.tryCount
  score := hscore
  timer := htimer
  defaults := hq.defaults
  presented := hpresented
  view := hview

/-- A sample leaves the shown scene alone exactly when it is no tilt or there is no view. -/
theorem accelerometer_fields (acceleration : Point) (s : PlayScene) :
    (s.accelerometerHandler (some acceleration)).score = s.score ∧
      (s.accelerometerHandler (some acceleration)).timer = s.timer ∧
      (s.accelerometerHandler (some acceleration)).pauseState = s.pauseState ∧
      ((s.accelerometerHandler (some acceleration)).presented = s.presented ↔
        (Tilts s acceleration → s.view = none)) := by
  unfold accelerometerHandler
  dsimp only
  by_cases htilt : s.lastZ < 1 / 2 ∧ acceleration.x > 1 / 2
  · rw [if_pos htilt]
    unfold goMenu present
    have htilts : Tilts s acceleration := htilt
    cases hview : s.view with
    | none => simp [emit]
    | some bounds => simp [emit, htilts]
  · rw [if_neg htilt]
    exact ⟨rfl, rfl, rfl, fun _ htilts => absurd htilts htilt, fun _ => rfl⟩

/-- While the game is paused, an event that does not end the pause freezes it exactly
when it is harmless. -/
theorem frozen_iff (hp : Playing base n h s) (hpaused : s.pauseState = true) {e : Event}
    (ho : Occurs s e) (hstep : step s e = .ok t) (hends : ¬ EndsPause s e) :
    Frozen s t ↔ Harmless s e := by
  have hview : e ≠ .leave → t.view = s.view := view_kept hstep
  cases e with
  | touch nod =>
    have hsame : t = s := by
      change processItemTouch nod s = _ at hstep
      rw [processItemTouch_paused _ hpaused] at hstep
      cases hstep
      rfl
    rw [hsame]
    exact ⟨fun _ => trivial, fun _ => frozen_refl s⟩
  | frame currentTime =>
    have hquiet := quiet_frame hp.board hstep
    obtain ⟨-, rfl⟩ | ⟨hrun, -⟩ := update_eq_ok hstep
    · exact ⟨fun _ => trivial, fun _ => hquiet.frozen hp.board rfl rfl rfl rfl⟩
    · rw [hpaused] at hrun
      cases hrun.2
  | togglePause now later =>
    obtain ⟨rfl, -⟩ | ⟨haccept, -⟩ := togglePause_eq_ok hstep
    · exact ⟨fun _ => trivial, fun _ => frozen_refl t⟩
    · exact absurd haccept hends
  | fire b =>
    have hchanged : ¬ Frozen s t := by
      intro hfrozen
      obtain ⟨h', houtcome⟩ := outcome_of_step hp ho hstep
      have hafter := (houtcome.playing hp).selected
      have hbefore := hp.selected
      cases houtcome with
      | quiet hfire => exact absurd rfl (hfire b)
      | found =>
        exact absurd ((hbefore.1.symm.trans hfrozen.index1.symm).trans hafter.1) (by omega)
      | missed =>
        exact absurd ((hbefore.1.symm.trans hfrozen.index1.symm).trans hafter.1) (by omega)
    exact ⟨fun hfrozen => hchanged hfrozen, fun hharmless => hharmless.elim⟩
  | accelerometer data =>
    cases hstep
    have hquiet := quiet_accelerometer base data s
    cases data with
    | none => exact ⟨fun _ => trivial, fun _ => frozen_refl s⟩
    | some acceleration =>
      obtain ⟨hscore, htimer, -, hpresented⟩ := accelerometer_fields acceleration s
      constructor
      · intro hfrozen
        exact hpresented.mp hfrozen.presented
      · intro hharmless
        exact hquiet.frozen hp.board hscore htimer (hpresented.mpr hharmless) (hview nofun)
  | evaluateActions m =>
    cases hstep
    exact ⟨fun _ => trivial, fun _ => (quiet_evaluate base m s).frozen hp.board rfl rfl rfl rfl⟩
  | leave =>
    cases hstep
    constructor
    · intro hfrozen
      exact hfrozen.view.symm
    · intro hharmless
      exact (quiet_leave base s).frozen hp.board rfl rfl rfl hharmless.symm

/-- Only an accepted toggle ends a pause, the blocks aside. -/
theorem still_paused (hpaused : s.pauseState = true) {e : Event} (hstep : step s e = .ok t)
    (hends : ¬ EndsPause s e) (hharmless : Harmless s e) : t.pauseState = true := by
  cases e with
  | touch nod =>
    change processItemTouch nod s = _ at hstep
    rw [processItemTouch_paused _ hpaused] at hstep
    cases hstep
    exact hpaused
  | frame currentTime =>
    obtain ⟨-, rfl⟩ | ⟨hrun, -⟩ := update_eq_ok hstep
    · exact hpaused
    · rw [hpaused] at hrun
      cases hrun.2
  | togglePause now later =>
    obtain ⟨rfl, -⟩ | ⟨haccept, -⟩ := togglePause_eq_ok hstep
    · exact hpaused
    · exact absurd haccept hends
  | fire b => exact hharmless.elim
  | accelerometer data =>
    cases hstep
    cases data with
    | none => exact hpaused
    | some acceleration => exact (accelerometer_fields acceleration s).2.2.1.trans hpaused
  | evaluateActions m | leave =>
    cases hstep
    exact hpaused

end Paused

/-- The events of a paused stretch without blocks and without a tilt. -/
def Idles (s : PlayScene) (e : Event) : Prop := Occurs s e ∧ ¬ EndsPause s e ∧ Harmless s e

/-- In every paused state that a run reaches, an event freezes the game exactly when it
is harmless, and a stretch of harmless events leaves it frozen all along. -/
theorem pause_freezes_iff (g : Game) {s t : PlayScene} {es : List Event}
    (hstart : g.start = .ok s) (hrun : Run step Occurs s es t) (hpaused : t.pauseState = true) :
    (∀ e u, Occurs t e → step t e = .ok u → ¬ EndsPause t e → (Frozen t u ↔ Harmless t e)) ∧
      ∀ fs u, Run step Idles t fs u → u.pauseState = true ∧ Frozen t u := by
  obtain ⟨n, sequence, hn, hperm, rfl⟩ := Game.start_eq_ok hstart
  obtain ⟨h, hp⟩ := run_playing (g.opened_playing hn hperm) hrun
  refine ⟨fun e u ho hstep hends => frozen_iff hp hpaused ho hstep hends, ?_⟩
  intro fs u hfs
  have hkept := hfs.preserves
    (I := fun u => u.pauseState = true ∧ Frozen t u ∧ ∃ h, Playing 6 n h u) ?_
    ⟨hpaused, frozen_refl t, h, hp⟩
  · exact ⟨hkept.1, hkept.2.1⟩
  · rintro u e v ⟨hpaused', hfrozen, h', hp'⟩ ⟨ho, hends, hharmless⟩ hstep
    obtain ⟨h'', houtcome⟩ := outcome_of_step hp' ho hstep
    exact ⟨still_paused hpaused' hstep hends hharmless,
      hfrozen.trans ((frozen_iff hp' hpaused' ho hstep hends).mpr hharmless) hp.board hp'.board,
      h'', houtcome.playing hp'⟩

/-- A pair is turned and the game paused, with its block still to fire. -/
theorem pause_freezes_iff_small : ∃ t,
    Game.small.played step Occurs [.touch 7, .touch 13, .togglePause 1 1] = some t ∧
      ∀ e u, Occurs t e → step t e = .ok u → ¬ EndsPause t e → (Frozen t u ↔ Harmless t e) := by
  have hplayed : (Game.small.played step Occurs [.touch 7, .touch 13, .togglePause 1 1]).map
      pauseState = some true := by decide +kernel
  obtain ⟨s, t, hs, ht, hrun, hplayed⟩ := Game.run_of_map Game.small step Occurs _ hplayed
  exact ⟨t, ht, (pause_freezes_iff Game.small hs hrun hplayed).1⟩

/-- The block of a pair that was turned before the pause fires behind the pause layer. -/
theorem pause_does_not_freeze : ¬ ∀ (g : Game) (s t u : PlayScene) (es : List Event) (e : Event),
    g.start = .ok s → Run step OnScreen s es t → t.pauseState = true → OnScreen t e →
      step t e = .ok u → ¬ EndsPause t e → Frozen t u := by
  intro hall
  have hplayed : (Game.small.played step OnScreen [.touch 7, .touch 13, .evaluateActions 4,
      .evaluateActions 5, .evaluateActions 7, .evaluateActions 13, .togglePause 1 1]).map
      (fun t => (t.pauseState, t.matchesCount, decide (OnScreen t (.fire ⟨.matched, 4⟩)),
        (step t (.fire ⟨.matched, 4⟩)).toOption.map matchesCount)) =
      some (true, 0, true, some 1) := by decide +kernel
  obtain ⟨s, t, hs, ht, hrun, hplayed⟩ := Game.run_of_map Game.small step OnScreen _ hplayed
  rw [Prod.mk.injEq, Prod.mk.injEq, Prod.mk.injEq,
    decide_eq_true_eq] at hplayed
  obtain ⟨hpaused, hbefore, hfire, hafter⟩ := hplayed
  cases hstep : step t (.fire ⟨.matched, 4⟩) with
  | error trap => simp [hstep, Except.toOption] at hafter
  | ok u =>
    have hfrozen := hall Game.small s t u _ _ hs hrun hpaused hfire hstep id
    rw [hstep] at hafter
    have hcount : u.matchesCount = 1 := Option.some.inj hafter
    rw [hfrozen.matchesCount, hbefore] at hcount
    cases hcount

end PlayScene
end CardsGame
