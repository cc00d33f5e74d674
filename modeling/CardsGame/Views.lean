import CardsGame.Backdrop
import CardsGame.Pause
import CardsGame.Standings
import CardsGame.Traps

/-!
# Scenes with and without a view

The scene that was presented last is always shown. A game that its view has left is not
over at once: the block that a pair has scheduled still runs, and may still feed the
ranking. Nothing else of it moves, not even its time.
-/
namespace CardsGame

open Swift SpriteKit
open Pairs (Hand)
open Ranking (UserDefaults)
open Runs (Run replay)
open Shuffle (Draws)

namespace PlayScene

variable {base n : Nat} {h : Hand Nat} {s t u : PlayScene} {e : Event}

/-- The cards found, the blocks, the counters, the score and the ranking are as they were. -/
structure Idle (s t : PlayScene) : Prop where
  pending : t.pending = s.pending
  cardsStatus : t.cardsStatus = s.cardsStatus
  matchesCount : t.matchesCount = s.matchesCount
  tryCount : t.tryCount = s.tryCount
  score : t.score = s.score
  rankings : t.rankings = s.rankings

/-- The last block has run: a mismatch is counted, or a match, and this may be the last. -/
structure Fired (b : Block) (s t : PlayScene) : Prop where
  pending : s.pending = [b] ∧ t.pending = []
  missed : b.kind = .unmatched → t.cardsStatus = s.cardsStatus ∧ t.matchesCount = s.matchesCount ∧
    t.tryCount = s.tryCount + 1 ∧ t.rankings = s.rankings
  found : b.kind = .matched → t.matchesCount = s.matchesCount + 1 ∧ t.tryCount = s.tryCount ∧
    (t.rankings = s.rankings ∨
      t.rankings = s.rankings ++ [t.score] ∧ ∀ found ∈ t.cardsStatus, found = true)

/-- What becomes of a scene without a view. -/
structure Lingers (s t : PlayScene) : Prop where
  view : t.view = none
  presented : t.presented = s.presented
  timer : t.timer = s.timer
  blocks : Idle s t ∨ ∃ b, Fired b s t

theorem Idle.trans (h : Idle s t) (h' : Idle t u) : Idle s u :=
  ⟨h'.pending.trans h.pending, h'.cardsStatus.trans h.cardsStatus,
    h'.matchesCount.trans h.matchesCount, h'.tryCount.trans h.tryCount, h'.score.trans h.score,
    h'.rankings.trans h.rankings⟩

theorem Idle.fired {b : Block} (h : Idle s t) (h' : Fired b t u) : Fired b s u := by
  obtain ⟨hpending, hmissed, hfound⟩ := h'
  rw [h.pending] at hpending
  rw [h.cardsStatus, h.matchesCount, h.tryCount, h.rankings] at hmissed
  rw [h.matchesCount, h.tryCount, h.rankings] at hfound
  exact ⟨hpending, hmissed, hfound⟩

theorem Fired.idle {b : Block} (h : Fired b s t) (h' : Idle t u) : Fired b s u := by
  refine ⟨⟨h.pending.1, h'.pending.trans h.pending.2⟩, ?_, ?_⟩
  · rw [h'.cardsStatus, h'.matchesCount, h'.tryCount, h'.rankings]
    exact h.missed
  · rw [h'.cardsStatus, h'.matchesCount, h'.tryCount, h'.rankings, h'.score]
    exact h.found

theorem Lingers.trans (h : Lingers s t) (h' : Lingers t u) : Lingers s u := by
  refine ⟨h'.view, h'.presented.trans h.presented, h'.timer.trans h.timer, ?_⟩
  obtain hidle | ⟨b, hfired⟩ := h.blocks
  · obtain hidle' | ⟨b, hfired⟩ := h'.blocks
    · exact .inl (hidle.trans hidle')
    · exact .inr ⟨b, hidle.fired hfired⟩
  · obtain hidle | ⟨b', hfired'⟩ := h'.blocks
    · exact .inr ⟨b, hfired.idle hidle⟩
    · exact absurd (hfired.pending.2.symm.trans hfired'.pending.1) (List.cons_ne_nil b' []).symm

theorem lingers_refl (hview : s.view = none) : Lingers s s :=
  ⟨hview, rfl, rfl, .inl ⟨rfl, rfl, rfl, rfl, rfl, rfl⟩⟩

theorem presented_finished_left (hview : s.view = none) : s.finished.presented = s.presented := by
  unfold finished goLeaderBoard present
  split_ifs
  · simp only [emit, updateRanking, hview]
  · rfl

/-- The match block of a scene without a view. -/
theorem lingers_found {i j after : Nat} {difficulty : Int} {timer : ℚ} (hview : s.view = none)
    (hpending : s.pending = [⟨.matched, after⟩]) :
    Lingers s (s.resolvedFound base i j difficulty timer) := by
  obtain ⟨defaults, presented, effects, heq⟩ := (s.marked base i j difficulty timer).finished_eq
  have hleft := presented_finished_left (s := s.marked base i j difficulty timer) hview
  by_cases hall : (s.marked base i j difficulty timer).cardsStatus.all id = true
  · obtain ⟨hrankings, -, -⟩ := finished_of_all hall
    rw [heq] at hrankings hleft
    rw [resolvedFound, heq]
    refine ⟨hview, hleft, rfl, .inr ⟨⟨.matched, after⟩, ⟨hpending, rfl⟩, by simp, fun _ => ?_⟩⟩
    exact ⟨rfl, rfl, .inr ⟨hrankings, List.all_eq_true.mp hall⟩⟩
  · rw [resolvedFound, finished_of_not_all hall]
    refine ⟨hview, rfl, rfl, .inr ⟨⟨.matched, after⟩, ⟨hpending, rfl⟩, by simp, fun _ => ?_⟩⟩
    exact ⟨rfl, rfl, .inl rfl⟩

/-- What can still happen to a game that the view has left. -/
theorem Playing.lingers (hp : Playing base n h s) (hview : s.view = none) (ho : Occurs s e)
    (htouch : ∀ nod, e ≠ .touch nod) (hframe : ∀ currentTime, e ≠ .frame currentTime)
    (hs : step s e = .ok t) : Lingers s t := by
  cases e with
  | touch nod => exact absurd rfl (htouch nod)
  | frame currentTime => exact absurd rfl (hframe currentTime)
  | togglePause now later =>
    have hrankings := (quiet_toggle hp.board hs).rankings
    obtain ⟨rfl, -⟩ | ⟨-, pauseLayer, pauseImg, -, -, rfl⟩ := togglePause_eq_ok hs
    · exact lingers_refl hview
    · exact ⟨hview, rfl, rfl, .inl ⟨rfl, rfl, rfl, rfl, rfl, hrankings⟩⟩
  | accelerometer data =>
    cases hs
    have hrankings := (quiet_accelerometer base data s).rankings
    have hpresented : (s.accelerometerHandler data).presented = s.presented := by
      cases data with
      | none => rfl
      | some acceleration =>
        obtain ⟨-, -, -, hpresented⟩ := accelerometer_fields acceleration s
        exact hpresented.mpr fun _ => hview
    obtain ⟨gravity, lastZ, presented, effects, heq⟩ := accelerometerHandler_eq data s
    rw [heq] at hrankings hpresented ⊢
    exact ⟨hview, hpresented, rfl, .inl ⟨rfl, rfl, rfl, rfl, rfl, hrankings⟩⟩
  | evaluateActions m =>
    cases hs
    exact ⟨hview, rfl, rfl, .inl ⟨rfl, rfl, rfl, rfl, rfl, rfl⟩⟩
  | leave =>
    cases hs
    exact ⟨rfl, rfl, rfl, .inl ⟨rfl, rfl, rfl, rfl, rfl, rfl⟩⟩
  | fire b =>
    obtain ⟨h', houtcome⟩ := outcome_of_step hp ho hs
    cases houtcome with
    | quiet hfire _ => exact absurd rfl (hfire b)
    | found _ hpending => exact lingers_found hview hpending
    | @missed i j _ after difficulty timer _ hpending =>
      refine ⟨hview, rfl, rfl, .inr ⟨⟨.unmatched, after⟩, ⟨hpending, rfl⟩, fun _ => ?_, by simp⟩⟩
      exact ⟨rfl, rfl, rfl, rfl⟩

/-- What another content of the store is to a game without a view. -/
theorem lingers_stored (hview : s.view = none) (d : UserDefaults) : Lingers s (s.stored d) :=
  ⟨hview, rfl, rfl, .inl ⟨rfl, rfl, rfl, rfl, rfl, rfl⟩⟩

end PlayScene

theorem GameScene.view_present (destination : Size → Destination) (s : GameScene) :
    (s.present destination).view = s.view := by
  unfold GameScene.present
  split <;> rfl

theorem GameScene.view_processItemTouch (nod : Node) (s : GameScene) :
    (s.processItemTouch nod).view = s.view := by
  unfold GameScene.processItemTouch
  split_ifs
  · exact view_present _ _
  · exact view_present _ _
  · exact view_present _ _
  · exact view_present _ _
  · exact view_present _ _
  · rfl

theorem OptionsScene.view_processItemTouch (nod : Node) (s : OptionsScene) :
    (s.processItemTouch nod).view = s.view := by
  unfold OptionsScene.processItemTouch OptionsScene.goMenu
  split
  · split <;> rfl
  · rfl

theorem LeaderboardsScene.view_processItemTouch (nod : Node) (s : LeaderboardsScene) :
    (s.processItemTouch nod).view = s.view := by
  unfold LeaderboardsScene.processItemTouch LeaderboardsScene.goMenu
  split
  · split <;> rfl
  · rfl

namespace Scene

variable {device : Device}

/-- A scene that is presented has the view, and has asked for nothing yet. -/
theorem fresh_didMove {draws : Draws} {now : ℚ} {app : App} {destination : Destination}
    {new : Scene} (hvalid : destination.Valid device)
    (h : didMove device draws now app destination = .ok new) :
    new.view = some device.view ∧ new.requested device = [] := by
  cases destination with
  | menu size =>
    obtain ⟨s, hs, h⟩ := bind_eq_ok.mp h
    cases h
    cases hs
    change (ite _ _ _ : GameScene).view = _ ∧ (ite _ _ _ : GameScene).presented = _
    split_ifs <;> exact ⟨rfl, rfl⟩
  | options size value | leaderboards size =>
    obtain ⟨s, hs, h⟩ := bind_eq_ok.mp h
    cases h
    cases hs
    exact ⟨rfl, rfl⟩
  | play size difficulty =>
    obtain ⟨rfl, d, rfl, hoffered⟩ := hvalid
    obtain ⟨s, hs, h⟩ := bind_eq_ok.mp h
    cases h
    rw [didMove_game device hoffered] at hs
    obtain ⟨n, sequence, -, -, rfl⟩ := Game.start_eq_ok hs
    obtain ⟨-, -, hbounds⟩ := device.game_fields d draws now app.defaults
    exact ⟨congrArg some hbounds, rfl⟩

/-- A scene that has asked for nothing keeps its view. -/
theorem view_acts {app : App} {scene after : Scene} {signal : Signal}
    (hreceives : scene.Receives signal) (hnone : scene.requested device = [])
    (h : scene.Acts app signal after) : after.view = scene.view := by
  cases h with
  | menuLeaves | optionsLeave | leaderboardsLeave => exact absurd hnone hreceives.2
  | slider => rfl
  | menu s p nod => exact s.view_processItemTouch nod
  | options s p nod => exact OptionsScene.view_processItemTouch nod _
  | leaderboards s p nod => exact s.view_processItemTouch nod
  | @play s t signal e hm hs =>
    refine PlayScene.view_kept (s := s.stored app.defaults) hs ?_
    rintro rfl
    exact hm.1.1 (List.map_eq_nil_iff.mp hnone)
  | idle scene x hoptions =>
    cases scene with
    | options s => exact absurd rfl (hoptions s)
    | menu s | play s | leaderboards s => rfl

/-- The scene is what has become of a game that has no view. -/
def Left (device : Device) (game : PlayScene) (scene : Scene) : Prop :=
  ∃ game', scene = .play game' ∧ game'.Alone device ∧ game.Lingers game'

/-- Without a view it receives neither touches nor frames. -/
theorem left_handled {game : PlayScene} {app : App} {scene after : Scene} {signal : Signal}
    (h : scene.Left device game) (hreceives : scene.Receives signal)
    (hafter : (scene.load app).handle device.assets signal = .ok after) :
    after.Left device game := by
  obtain ⟨game', rfl, halone, hlingers⟩ := h
  have hshown : ¬ game'.view.isSome = true := by simp [hlingers.view]
  cases signal with
  | touchesEnded p | touchesMoved x => exact absurd hreceives hshown
  | event e =>
    obtain ⟨next, hnext, hafter⟩ := bind_eq_ok.mp hafter
    cases hafter
    have hstored := PlayScene.Alone.stored halone app.defaults
    have hm := (PlayScene.may_stored app.defaults game' e).mpr hreceives.1
    obtain ⟨n, h, hp⟩ := hstored.playing
    have htouch : ∀ nod, e ≠ .touch nod := by
      rintro nod rfl
      exact hreceives.2
    have hframe : ∀ currentTime, e ≠ .frame currentTime := by
      rintro currentTime rfl
      exact hshown hreceives.2
    refine ⟨next, rfl, hstored.step hm hnext, hlingers.trans ?_⟩
    exact (PlayScene.lingers_stored hlingers.view app.defaults).trans
      (hp.lingers hlingers.view hm.1.occurs htouch hframe hnext)

end Scene

namespace App

variable {device : Device} {s t u : App} {es fs : List AppEvent}

/-- The scene that was presented last has the view, and has asked for nothing yet. -/
def LastShown (device : Device) (app : App) : Prop :=
  ∀ last ∈ app.scenes.getLast?, last.view = some device.view ∧ last.requested device = []

theorem Outcome.lastShown {e : AppEvent} (ho : Outcome device s e t) (hm : s.Receives e)
    (hsettled : ∀ scene ∈ s.scenes, Settled device scene) (h : LastShown device s) :
    LastShown device t := by
  cases ho with
  | @launch menu hmenu =>
    rintro last hlast
    cases hlast
    have hvalid : (Destination.menu (doubled device.view)).Valid device := rfl
    exact Scene.fresh_didMove hvalid hmenu
  | @signal index signal draws now scene after presented hscene hacts hpresented =>
    obtain ⟨scene', hscene', hreceives⟩ := hm
    cases hscene.symm.trans hscene'
    have hasks := Scene.asks_acts (hsettled scene (List.mem_of_getElem? hscene)).1.1 hacts
    rintro last hlast
    rw [List.getLast?_append] at hlast
    cases hnew : presented.getLast? with
    | some new =>
      rw [hnew] at hlast
      cases hlast
      obtain ⟨destination, hdestination, hmade⟩ :=
        mem_of_mapM hpresented (List.mem_of_getLast? hnew)
      exact Scene.fresh_didMove
        (hasks.requested destination (List.mem_of_mem_drop hdestination)) hmade
    | none =>
      rw [hnew, Option.none_or, List.getLast?_eq_getElem?, List.length_set] at hlast
      by_cases hindex : index = s.scenes.length - 1
      · -- The last scene has acted, and has asked for nothing.
        subst hindex
        have hlt := (List.getElem?_eq_some_iff.mp hscene).1
        rw [List.getElem?_set_self hlt] at hlast
        cases hlast
        obtain ⟨hview, hnone⟩ := h scene (List.getLast?_eq_getElem?.trans hscene)
        refine ⟨(Scene.view_acts hreceives hnone hacts).trans hview, ?_⟩
        rw [List.getLast?_eq_none_iff] at hnew
        rw [hnew, hnone, List.length_nil, List.drop_zero] at hpresented
        exact nil_of_mapM hpresented
      · rw [List.getElem?_set_ne hindex] at hlast
        exact h last (List.getLast?_eq_getElem?.trans hlast)

/-- Whenever the app runs, a scene is shown. -/
theorem lastShown_of_run (hclosed : s.scenes = []) (hrun : Run (step device) Receives s es t) :
    LastShown device t := by
  have hstart : (∀ scene ∈ s.scenes, Settled device scene) ∧ LastShown device s := by
    simp [hclosed, LastShown]
  refine (hrun.preserves
    (I := fun s => (∀ scene ∈ s.scenes, Settled device scene) ∧ LastShown device s) ?_ hstart).2
  rintro s e t ⟨hsettled, hlast⟩ hm hs
  have ho := outcome_of_step hm hs
  exact ⟨(ho.kept (kept_settled device) ⟨trivial, hsettled⟩).scenes, ho.lastShown hm hsettled hlast⟩

/-- What the signals that it receives keep true of a scene stays true of it for the session. -/
theorem stays {I : Scene → Prop} {index : Nat}
    (hkept : ∀ app scene signal after, I scene → scene.Receives signal →
      (scene.load app).handle device.assets signal = .ok after → I after)
    (hrun : Run (step device) Receives t fs u) (hsession : ∀ e ∈ fs, e ≠ .launch)
    (h : ∃ scene, t.scenes[index]? = some scene ∧ I scene) :
    ∃ scene, u.scenes[index]? = some scene ∧ I scene := by
  refine (hrun.restrict hsession).preserves
    (I := fun t => ∃ scene, t.scenes[index]? = some scene ∧ I scene) ?_ h
  rintro s e t ⟨scene, hscene, hi⟩ ⟨hm, hlaunch⟩ hs
  cases e with
  | launch => exact absurd rfl hlaunch
  | signal i signal draws now =>
    obtain ⟨acting, hacting, hreceives⟩ := hm
    rw [Option.mem_def] at hacting
    simp only [step, hacting] at hs
    obtain ⟨after, hafter, hs⟩ := bind_eq_ok.mp hs
    obtain ⟨presented, -, hs⟩ := bind_eq_ok.mp hs
    cases hs
    by_cases hindex : i = index
    · subst hindex
      cases hacting.symm.trans hscene
      exact ⟨after, acted_getElem? hscene after, hkept s scene signal after hi hreceives hafter⟩
    · refine ⟨scene, ?_, hi⟩
      have hlt := (List.getElem?_eq_some_iff.mp hscene).1
      rw [List.getElem?_append_left (by rwa [List.length_set]), List.getElem?_set_ne hindex, hscene]

/-- A game that the view has left asks for no other scene, and its time stands still. In the
rest of the session its pending block alone changes the cards that are found, the counters,
the score and what is ranked, once: it counts the match or the mismatch, and feeds the ranking
when it has found the last pair. -/
theorem left_behind (hclosed : s.scenes = []) (hrun : Run (step device) Receives s es t)
    {index : Nat} {game : PlayScene} (hgame : t.scenes[index]? = some (.play game))
    (hview : game.view = none) (hrun' : Run (step device) Receives t fs u)
    (hsession : ∀ e ∈ fs, e ≠ .launch) :
    ∃ game', u.scenes[index]? = some (.play game') ∧ game.Lingers game' := by
  have halone := alone_of_run hclosed hrun (List.mem_of_getElem? hgame)
  have hleft : Scene.Left device game (.play game) :=
    ⟨game, rfl, halone, PlayScene.lingers_refl hview⟩
  obtain ⟨scene, hscene, game', rfl, -, hlingers⟩ :=
    stays (fun _ _ _ _ => Scene.left_handled) hrun' hsession ⟨_, hgame, hleft⟩
  exact ⟨game', hscene, hlingers⟩

/-- A pair is found, but before its block runs the device is tilted, and the view leaves. -/
def tiltedAway : List AppEvent :=
  [.launch, .signal 0 (.touchesEnded ⟨175, 667⟩) .first 0, onGame (.event (.evaluateActions 4)),
      onGame (.event (.evaluateActions 5))] ++ turnPair 0 11 ++
    [onGame (.event (.accelerometer (some ⟨1, 0⟩))), onGame (.event .leave)]

/-- The block, which now runs without a view. -/
def lateBlock : AppEvent := onGame (.event (.fire ⟨.matched, 4⟩))

theorem left_behind_small : ∃ t u game game',
    replay (step Device.small) Receives installed tiltedAway = some t ∧
      t.step Device.small lateBlock = .ok u ∧ t.gameAt 1 = some game ∧ u.gameAt 1 = some game' ∧
        game'.matchesCount = 1 ∧ game.Lingers game' := by
  have hreplay : (replay (step Device.small) Receives installed tiltedAway).map (fun t =>
      ((t.gameAt 1).map (·.view), decide (t.Receives lateBlock),
        (t.step Device.small lateBlock).toOption.map fun u => (u.gameAt 1).map (·.matchesCount))) =
      some (some none, true, some (some 1)) := by decide +kernel
  obtain ⟨t, ht, hrun, hstate⟩ := Runs.run_of_map hreplay
  simp only [Prod.mk.injEq, decide_eq_true_eq] at hstate
  obtain ⟨hgame, hm, hstep⟩ := hstate
  obtain ⟨game, hgame, hview⟩ := Option.map_eq_some_iff.mp hgame
  cases hs : t.step Device.small lateBlock with
  | error trap => simp [hs, Except.toOption] at hstep
  | ok u =>
    simp only [hs, Except.toOption, Option.map_some, Option.some.injEq] at hstep
    obtain ⟨later, hlater, hcount⟩ := Option.map_eq_some_iff.mp hstep
    obtain ⟨game', hgame', hlingers⟩ := left_behind rfl hrun (gameAt_eq_some.mp hgame) hview
      (.single hm hs) (by simp [lateBlock, onGame])
    have hsame : u.gameAt 1 = some game' := gameAt_eq_some.mpr hgame'
    cases hlater.symm.trans hsame
    exact ⟨t, u, game, later, ht, hs, hgame, hlater, hcount, hlingers⟩

end App
end CardsGame
