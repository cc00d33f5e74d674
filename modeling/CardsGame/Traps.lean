import CardsGame.Games
import CardsGame.Touch

/-!
# What can trap in the app

Every scene that is asked for is set up, and every event of a game gets through. Only the
cast of a touch can fail: a run of the app goes on until a touch ends on a label, or on the
knob of the slider.
-/
namespace CardsGame

open Swift SpriteKit
open Pairs (Hand)
open Ranking (UserDefaults)
open Runs (Run replay)
open Shuffle (Draws)

/-- A game with a board of pairs starts. -/
theorem Game.start_completes (g : Game) {n : Nat} (hn : PlayScene.Dealable g.scene n) :
    ∃ s, g.start = .ok s := by
  have hframed : PlayScene.Dealable (g.scene.framed g.assets g.bounds) n :=
    ⟨hn.rows, hn.columns, hn.board, hn.fits⟩
  obtain ⟨sequence, -, hdeal⟩ := PlayScene.deal_ok g.draws hframed
  rw [Game.start, PlayScene.setUp, PlayScene.createGameButtons_ok g.assets rfl, ok_bind, hdeal]
  exact ⟨_, rfl⟩

/-- Every valid scene is set up. -/
theorem Scene.didMove_completes {device : Device} {destination : Destination}
    (hvalid : destination.Valid device) (draws : Draws) (now : ℚ) (app : App) :
    ∃ new, Scene.didMove device draws now app destination = .ok new := by
  cases destination with
  | menu size | options size value | leaderboards size => exact ⟨_, rfl⟩
  | play size difficulty =>
    obtain ⟨rfl, d, rfl, hoffered⟩ := hvalid
    obtain ⟨n, T, -, hn, -⟩ := device.game_level hoffered draws now app.defaults
    obtain ⟨s, hs⟩ := Game.start_completes _ hn
    rw [← didMove_game device hoffered] at hs
    rw [Scene.didMove, hs]
    exact ⟨_, rfl⟩

namespace PlayScene

variable {base n : Nat} {h : Hand Nat} {s : PlayScene}

theorem Playing.update_completes (hp : Playing base n h s) (currentTime : ℚ) :
    ∃ t, update currentTime s = .ok t := by
  obtain ⟨difficulty, hd⟩ := hp.board.difficulty
  obtain ⟨timer, ht⟩ := hp.timer
  by_cases hrun : s.firstFrame = false ∧ s.pauseState = false
  · exact ⟨_, update_counts currentTime hd ht hrun⟩
  · exact ⟨_, update_idle currentTime hrun⟩

theorem Playing.togglePause_completes (hp : Playing base n h s) (now later : ℚ) :
    ∃ t, togglePause now later s = .ok t := by
  obtain ⟨pauseTimer, hlast⟩ := hp.pauseTimer
  obtain ⟨pauseLayer, pauseImg, hl, hi, -⟩ := hp.board.pauseNodes
  by_cases hnow : pauseTimer + 1 / 2 < now
  · exact ⟨_, togglePause_ok later ⟨pauseTimer, hlast, hnow⟩ hl hi⟩
  · rw [togglePause, hlast, unwrap_some, ok_bind, if_neg hnow]
    exact ⟨s, rfl⟩

/-- Nothing that happens to a game traps, but for a touch. -/
theorem Playing.step_completes (hp : Playing base n h s) {e : Event} (ho : Occurs s e)
    (htouch : ∀ nod, e ≠ .touch nod) : ∃ t, step s e = .ok t := by
  cases e with
  | touch nod => exact absurd rfl (htouch nod)
  | frame currentTime => exact hp.update_completes currentTime
  | togglePause now later => exact hp.togglePause_completes now later
  | accelerometer data | evaluateActions m | leave => exact ⟨_, rfl⟩
  | fire b =>
    cases h with
    | empty | one =>
      obtain ⟨-, -, -, hpending⟩ := hp.selected
      simp [Occurs, hpending] at ho
    | two i j hne =>
      obtain ⟨t, ht, -⟩ := fire_two hp ho
      exact ⟨t, ht⟩

theorem Staged.stored {g : Game} {sequence : List Int} (hs : Staged g sequence s)
    (d : UserDefaults) : Staged g sequence (s.stored d) := by
  obtain ⟨n, h, hp⟩ := hs.playing
  exact ⟨⟨n, h, hp.stored d⟩, hs.skeleton, hs.still⟩

/-- The nodes of a game of the app are those of a game of the menu. -/
theorem Alone.staged {device : Device} (h : Alone device s) :
    ∃ difficulty draws now defaults sequence, Offered difficulty ∧
      Staged (device.game difficulty draws now defaults) sequence s := by
  obtain ⟨difficulty, draws, now, defaults, start, es, u, hoffered, hstart, hrun, d, rfl⟩ := h
  obtain ⟨sequence, hs⟩ := run_staged hstart (hrun.mono fun _ _ hm => hm.1.occurs)
  exact ⟨difficulty, draws, now, defaults, sequence, hoffered, hs.stored d⟩

theorem Alone.playing {device : Device} (h : Alone device s) : ∃ n h, Playing 6 n h s := by
  obtain ⟨_, _, _, _, _, -, hs⟩ := h.staged
  exact hs.playing

end PlayScene

@[simp] theorem Device.game_fields (device : Device) (difficulty : Int) (draws : Draws) (now : ℚ)
    (defaults : UserDefaults) :
    (device.game difficulty draws now defaults).assets = device.assets ∧
      (device.game difficulty draws now defaults).size = doubled device.view ∧
      (device.game difficulty draws now defaults).bounds = device.view := by
  unfold Device.game Game.levelled
  dsimp only
  split_ifs <;> exact ⟨rfl, rfl, rfl⟩

/-- The background and the buttons of a menu, in the order they are drawn. -/
def GameScene.laid (assets : Assets) (view : Size) : List Node :=
  let x := (doubled view).width / 2
  let y := (doubled view).height / 2
  [menuBackground (doubled view) view, button assets "title" "title" ⟨x, y + 250⟩,
    button assets "easy" "Easy" ⟨x - 200, y⟩, button assets "medium" "Medium" ⟨x, y⟩,
    button assets "hard" "Hard" ⟨x + 200, y⟩, button assets "options" "Options" ⟨x, y - 150⟩,
    button assets "ranking" "LeaderBoard" ⟨x, y - 250⟩]

theorem GameScene.sprite_laid {assets : Assets} {view : Size} {n : Node}
    (h : n ∈ laid assets view) : n.kind = .sprite := by
  simp only [laid, List.mem_cons, List.not_mem_nil, or_false] at h
  obtain rfl | rfl | rfl | rfl | rfl | rfl | rfl := h <;> rfl

theorem GameScene.children_didMove {assets : Assets} {music : Music} {view : Size} {s : GameScene}
    (h : didMove assets music view { size := doubled view } = .ok s) :
    s.children = laid assets view := by
  obtain ⟨playable, volume⟩ := music
  cases playable with
  | false =>
    cases h
    rfl
  | true =>
    cases h
    rfl

namespace Scene

variable {device : Device}

/-- What `didMove` has added to a menu, as far as a touch depends on it. -/
def Furnished (device : Device) : Scene → Prop
  | .menu s => s.children = GameScene.laid device.assets device.view
  | .play _ => True
  | .options s => OptionsScene.Laid device.assets device.view s
  | .leaderboards s => ∃ lines : List Node,
      s.children = [menuBackground (doubled device.view) device.view] ++ lines ++
          [menuBack device.assets] ∧
        ∀ n ∈ lines, n.kind = .label ∧ n.zPosition = 10 ∧ n.isHidden = false

theorem furnished_didMove {draws : Draws} {now : ℚ} {app : App} {destination : Destination}
    {new : Scene} (hvalid : destination.Valid device)
    (h : didMove device draws now app destination = .ok new) : new.Furnished device := by
  cases destination with
  | menu size =>
    cases hvalid
    obtain ⟨s, hs, h⟩ := bind_eq_ok.mp h
    cases h
    exact GameScene.children_didMove hs
  | play size difficulty =>
    obtain ⟨s, -, h⟩ := bind_eq_ok.mp h
    cases h
    trivial
  | options size value =>
    cases hvalid
    obtain ⟨s, hs, h⟩ := bind_eq_ok.mp h
    cases h
    exact OptionsScene.didMove_laid hs
  | leaderboards size =>
    cases hvalid
    obtain ⟨s, hs, h⟩ := bind_eq_ok.mp h
    cases h
    exact LeaderboardsScene.didMove_children hs

theorem furnished_acts {app : App} {scene after : Scene} {signal : Signal}
    (hfurnished : scene.Furnished device) (h : scene.Acts app signal after) :
    after.Furnished device := by
  cases h with
  | menu s p nod =>
    exact (s.children_processItemTouch nod).trans hfurnished
  | leaderboards s p nod =>
    obtain ⟨lines, hchildren, hlines⟩ := hfurnished
    exact ⟨lines, (s.children_processItemTouch nod).trans hchildren, hlines⟩
  | options s p nod =>
    have hlaid :
        OptionsScene.Laid device.assets device.view { s with musicVolume := app.musicVolume } :=
      ⟨hfurnished.children, hfurnished.label, hfurnished.track, hfurnished.knob⟩
    exact hlaid.processItemTouch nod
  | slider s x =>
    have hlaid :
        OptionsScene.Laid device.assets device.view { s with musicVolume := app.musicVolume } :=
      ⟨hfurnished.children, hfurnished.label, hfurnished.track, hfurnished.knob⟩
    exact hlaid.step (e := .moved x) rfl
  | menuLeaves | leaderboardsLeave => exact hfurnished
  | optionsLeave =>
    exact ⟨hfurnished.children, hfurnished.label, hfurnished.track, hfurnished.knob⟩
  | play => trivial
  | idle scene x hoptions =>
    cases scene with
    | options s => exact absurd rfl (hoptions s)
    | menu s | play s | leaderboards s => exact hfurnished

/-- The node in front of the scene at `p`. -/
def front (assets : Assets) (p : Point) : Scene → Option Node
  | .menu s => atPoint id assets s.children p
  | .play s => (atPoint s.node assets s.children p).map s.node
  | .options s => atPoint id assets s.drawn p
  | .leaderboards s => atPoint id assets s.children p

theorem asSprite_fails {α : Type} {look : α → Node} {touched : Option α}
    (h : ∀ n ∈ touched, (look n).kind ≠ .sprite) : asSprite look touched = .error .badCast := by
  cases touched with
  | none => rfl
  | some n => exact if_neg (h n rfl)

/-- The touch of a scene fails on what is no sprite. -/
theorem handle_fails {assets : Assets} {app : App} {scene : Scene} {p : Point}
    (h : ∀ n ∈ scene.front assets p, n.kind ≠ .sprite) :
    (scene.load app).handle assets (.touchesEnded p) = .error .badCast := by
  cases scene with
  | play s =>
    have hcast : asSprite s.node (atPoint s.node assets s.children p) = .error .badCast :=
      asSprite_fails fun nod hnod => h _ (Option.mem_map_of_mem s.node hnod)
    simp only [load, handle, PlayScene.touchesEnded, hcast, error_bind]
  | menu s =>
    have hcast : asSprite id (atPoint id assets s.children p) = .error .badCast := asSprite_fails h
    simp only [load, handle, GameScene.touchesEnded, hcast, error_bind]
  | leaderboards s =>
    have hcast : asSprite id (atPoint id assets s.children p) = .error .badCast := asSprite_fails h
    simp only [load, handle, LeaderboardsScene.touchesEnded, hcast, error_bind]
  | options s =>
    have hcast : asSprite id (atPoint id assets ({ s with musicVolume := app.musicVolume }
      : OptionsScene).drawn p) = .error .badCast := asSprite_fails h
    simp only [load, handle, OptionsScene.touchesEnded, hcast, error_bind]

/-- On a sprite it gets through. -/
theorem handle_completes (app : App) {scene : Scene} (halone : scene.Alone device) {p : Point}
    {n : Node} (hn : scene.front device.assets p = some n) (hkind : n.kind = .sprite) :
    ∃ after, (scene.load app).handle device.assets (.touchesEnded p) = .ok after := by
  cases scene with
  | play s =>
    obtain ⟨nod, hnod, rfl⟩ := Option.map_eq_some_iff.mp hn
    obtain ⟨_, _, _, _, _, -, hs⟩ := (PlayScene.Alone.stored halone app.defaults).staged
    obtain ⟨hmem, -, -⟩ := atPoint_eq_some s.node device.assets p hnod
    have hlabel : ¬ (nod = 2 ∨ nod = 3) := by
      intro hlabel
      exact absurd (hkind.symm.trans (hs.label hlabel).1) (by decide)
    obtain ⟨-, name, hname⟩ := hs.sprite hmem hlabel
    obtain ⟨m, h, hp⟩ := hs.playing
    obtain ⟨u, hu⟩ := hp.touch_completes hname
    have hcast := (asSprite_eq_ok s.node).mpr ⟨hnod, hkind⟩
    refine ⟨.play u, ?_⟩
    change (PlayScene.touchesEnded device.assets p (s.stored app.defaults) >>= _) = _
    change (asSprite s.node (atPoint s.node device.assets s.children p) >>= _ >>= _) = _
    rw [hcast, ok_bind, hu, ok_bind]
  | menu s =>
    refine ⟨.menu (s.processItemTouch n), ?_⟩
    have hcast : asSprite id (atPoint id device.assets s.children p) = .ok n :=
      (asSprite_eq_ok id).mpr ⟨hn, hkind⟩
    simp only [load, handle, GameScene.touchesEnded, hcast, ok_bind]
  | leaderboards s =>
    refine ⟨.leaderboards (s.processItemTouch n), ?_⟩
    have hcast : asSprite id (atPoint id device.assets s.children p) = .ok n :=
      (asSprite_eq_ok id).mpr ⟨hn, hkind⟩
    simp only [load, handle, LeaderboardsScene.touchesEnded, hcast, ok_bind]
  | options s =>
    refine ⟨.options ({ s with musicVolume := app.musicVolume }.processItemTouch n), ?_⟩
    have hcast : asSprite id (atPoint id device.assets ({ s with musicVolume := app.musicVolume }
      : OptionsScene).drawn p) = .ok n := (asSprite_eq_ok id).mpr ⟨hn, hkind⟩
    simp only [load, handle, OptionsScene.touchesEnded, hcast, ok_bind]

/-- So does everything else that a scene receives. -/
theorem signal_handled (app : App) {scene : Scene} (halone : scene.Alone device) {signal : Signal}
    (hreceives : scene.Receives signal)
    (hfront : ∀ p, signal = .touchesEnded p → ∃ n ∈ scene.front device.assets p, n.kind = .sprite) :
    ∃ after, (scene.load app).handle device.assets signal = .ok after := by
  cases signal with
  | touchesEnded p =>
    obtain ⟨n, hn, hkind⟩ := hfront p rfl
    exact handle_completes app halone hn hkind
  | touchesMoved x => cases scene <;> exact ⟨_, rfl⟩
  | event e =>
    cases scene with
    | menu s | options s | leaderboards s =>
      obtain ⟨rfl, -⟩ := hreceives
      exact ⟨_, rfl⟩
    | play s =>
      obtain ⟨n, h, hp⟩ := (PlayScene.Alone.stored halone app.defaults).playing
      have hm := (PlayScene.may_stored app.defaults s e).mpr hreceives.1
      have htouch : ∀ nod, e ≠ .touch nod := by
        rintro nod rfl
        exact hreceives.2
      obtain ⟨t, ht⟩ := hp.step_completes hm.1.occurs htouch
      refine ⟨.play t, ?_⟩
      change ((s.stored app.defaults).step e >>= _) = _
      rw [ht, ok_bind]

/-- The node is a label, or the knob of the options. -/
def Obstructs (scene : Scene) (n : Node) : Prop :=
  (∀ m, scene ≠ .menu m) ∧ (n.kind = .label ∨ n.kind = .shape ∧ ∃ o, scene = .options o)

/-- In the scene there is always a node in front, nearly always a sprite. -/
theorem front_within {scene : Scene} (hfurnished : scene.Furnished device)
    (halone : scene.Alone device) {p : Point} (hp : Within (doubled device.view) p) :
    ∃ n, scene.front device.assets p = some n ∧ (n.kind = .sprite ∨ scene.Obstructs n) := by
  cases scene with
  | menu s =>
    have hchildren : s.children = GameScene.laid device.assets device.view := hfurnished
    have hback : menuBackground (doubled device.view) device.view ∈ s.children := by
      simp [hchildren, GameScene.laid]
    obtain ⟨n, hn⟩ := atPoint_exists id device.assets p hback (menuBackground_hit _ hp)
    obtain ⟨hmem, -, -⟩ := atPoint_eq_some id device.assets p hn
    rw [hchildren] at hmem
    exact ⟨n, hn, .inl (GameScene.sprite_laid hmem)⟩
  | play s =>
    obtain ⟨difficulty, draws, now, defaults, sequence, -, hs⟩ := halone.staged
    obtain ⟨hassets, hsize, hbounds⟩ := device.game_fields difficulty draws now defaults
    have hit := hs.background_hit (hsize.trans (congrArg doubled hbounds).symm) (hsize ▸ hp)
    rw [hassets] at hit
    obtain ⟨nod, hnod⟩ :=
      atPoint_exists s.node device.assets p (hs.child.mpr (.inl (by decide))) hit
    obtain ⟨hmem, -, -⟩ := atPoint_eq_some s.node device.assets p hnod
    refine ⟨s.node nod, by rw [front, hnod, Option.map_some], ?_⟩
    by_cases hlabel : nod = 2 ∨ nod = 3
    · exact .inr ⟨by simp, .inl (hs.label hlabel).1⟩
    · exact .inl (hs.sprite hmem hlabel).1
  | options s =>
    have hdrawn := OptionsScene.Laid.drawn hfurnished
    have hback : menuBackground (doubled device.view) device.view ∈ s.drawn := by simp [hdrawn]
    obtain ⟨n, hn⟩ := atPoint_exists id device.assets p hback (menuBackground_hit _ hp)
    obtain ⟨hmem, hit, -⟩ := atPoint_eq_some id device.assets p hn
    refine ⟨n, hn, ?_⟩
    simp only [hdrawn, List.mem_cons, List.not_mem_nil, or_false] at hmem
    obtain rfl | rfl | rfl | rfl | rfl | rfl := hmem
    · exact .inl rfl
    · exact absurd hit (OptionsScene.group_not_hit _)
    · exact .inr ⟨by simp, .inl hfurnished.label.kind⟩
    · exact .inl hfurnished.track.kind
    · exact .inr ⟨by simp, .inr ⟨hfurnished.knob.kind, s, rfl⟩⟩
    · exact .inl rfl
  | leaderboards s =>
    obtain ⟨lines, hchildren, hlines⟩ := hfurnished
    have hback : menuBackground (doubled device.view) device.view ∈ s.children := by
      simp [hchildren]
    obtain ⟨n, hn⟩ := atPoint_exists id device.assets p hback (menuBackground_hit _ hp)
    obtain ⟨hmem, -, -⟩ := atPoint_eq_some id device.assets p hn
    refine ⟨n, hn, ?_⟩
    simp only [hchildren, List.mem_append, List.mem_singleton] at hmem
    obtain (rfl | hmem) | rfl := hmem
    · exact .inl rfl
    · exact .inr ⟨by simp, .inl (hlines n hmem).1⟩
    · exact .inl rfl

end Scene

namespace App

variable {device : Device} {s t : App} {es : List AppEvent} {e : AppEvent}

/-- A scene asks for valid ones, games are as they would be alone, and everything lies where
it was put. -/
def Settled (device : Device) (scene : Scene) : Prop :=
  Orderly device scene ∧ scene.Furnished device

theorem kept_settled (device : Device) : Kept device (fun _ => True) (Settled device) where
  stores := fun _ _ h => h
  launched := by
    intro app menu h hmenu
    have hvalid : (Destination.menu (doubled device.view)).Valid device := rfl
    exact ⟨(kept_games device).launched app menu h hmenu, Scene.furnished_didMove hvalid hmenu⟩
  acts := by
    rintro app scene signal after h ⟨horderly, hfurnished⟩ hacts
    obtain ⟨horderly', hstores⟩ := (kept_games device).acts app scene signal after h horderly hacts
    exact ⟨⟨horderly', Scene.furnished_acts hfurnished hacts⟩, hstores⟩
  presented := by
    rintro app scene draws now destination new h ⟨horderly, -⟩ hdestination hmade
    exact ⟨(kept_games device).presented app scene draws now destination new h horderly
        hdestination hmade,
      Scene.furnished_didMove (horderly.1.requested destination hdestination) hmade⟩

/-- The scenes of an app that starts with none. -/
theorem settled_of_run (hclosed : s.scenes = []) (hrun : Run (step device) Receives s es t) :
    ∀ scene ∈ t.scenes, Settled device scene :=
  ((kept_settled device).run trivial hclosed hrun).scenes

/-- The event is a touch that does not end on a sprite. -/
def Miscast (device : Device) (app : App) : AppEvent → Prop
  | .signal index (.touchesEnded p) _ _ =>
    ∃ scene ∈ app.scenes[index]?, ∀ n ∈ scene.front device.assets p, n.kind ≠ .sprite
  | _ => False

instance (app : App) (e : AppEvent) : Decidable (app.Miscast device e) :=
  match e with
  | .signal index (.touchesEnded p) _ _ =>
    inferInstanceAs (Decidable (∃ scene ∈ app.scenes[index]?,
      ∀ n ∈ scene.front device.assets p, n.kind ≠ .sprite))
  | .launch | .signal _ (.touchesMoved _) _ _ | .signal _ (.event _) _ _ => .isFalse not_false

/-- What a signal does is presented. -/
theorem signal_completes {index : Nat} {signal : Signal} {scene after : Scene} (draws : Draws)
    (now : ℚ) (hsettled : Settled device scene) (hscene : t.scenes[index]? = some scene)
    (hreceives : scene.Receives signal)
    (hafter : (scene.load t).handle device.assets signal = .ok after) :
    ∃ u, t.step device (.signal index signal draws now) = .ok u := by
  have hasks : after.Asks device :=
    Scene.asks_acts hsettled.1.1 (Scene.acts_of_handle hreceives hafter)
  have hpresented : ∃ presented,
      ((after.requested device).drop (scene.requested device).length).mapM
        (Scene.didMove device draws now { after.save t with scenes := t.scenes.set index after }) =
          .ok presented :=
    mapM_ok fun destination hdestination => Scene.didMove_completes
      (hasks.requested destination (List.mem_of_mem_drop hdestination)) draws now _
  obtain ⟨presented, hpresented⟩ := hpresented
  simp only [step, hscene, hafter, ok_bind, hpresented]
  exact ⟨_, rfl⟩

/-- In every state of every run an event gets through, unless it is a touch that ends on no
sprite; this one fails at the cast. Within the scene it has then ended on a label, or on the
knob of the options. -/
theorem step_traps_iff (hclosed : s.scenes = []) (hrun : Run (step device) Receives s es t)
    (hm : t.Receives e) :
    (t.Miscast device e → t.step device e = .error .badCast) ∧
      (¬ t.Miscast device e → ∃ u, t.step device e = .ok u) ∧
      ∀ index p draws now scene, e = .signal index (.touchesEnded p) draws now →
        t.scenes[index]? = some scene → Within (doubled device.view) p →
          (t.Miscast device e ↔ ∃ n, scene.front device.assets p = some n ∧ scene.Obstructs n) := by
  have hsettled := settled_of_run hclosed hrun
  refine ⟨?_, ?_, ?_⟩
  · intro hmiscast
    obtain _ | ⟨index, ⟨p⟩ | x | e, draws, now⟩ := e
    · exact hmiscast.elim
    · obtain ⟨scene, hscene, hfront⟩ := hmiscast
      rw [Option.mem_def] at hscene
      simp only [step, hscene, Scene.handle_fails hfront, error_bind]
    · exact hmiscast.elim
    · exact hmiscast.elim
  · intro hcast
    obtain _ | ⟨index, signal, draws, now⟩ := e
    · exact ⟨_, rfl⟩
    · obtain ⟨scene, hscene, hreceives⟩ := hm
      rw [Option.mem_def] at hscene
      have hscene' := hsettled scene (List.mem_of_getElem? hscene)
      obtain ⟨after, hafter⟩ := Scene.signal_handled t hscene'.1.2 hreceives (by
        rintro p rfl
        by_contra hnone
        exact hcast ⟨scene, hscene, fun n hn hkind => hnone ⟨n, hn, hkind⟩⟩)
      exact signal_completes draws now hscene' hscene hreceives hafter
  · rintro index p draws now scene rfl hscene hp
    obtain ⟨⟨-, halone⟩, hfurnished⟩ := hsettled scene (List.mem_of_getElem? hscene)
    obtain ⟨n, hn, hkind⟩ := Scene.front_within hfurnished halone hp
    constructor
    · rintro ⟨scene', hscene', hfront⟩
      cases hscene.symm.trans hscene'
      exact ⟨n, hn, hkind.resolve_left (hfront n hn)⟩
    · rintro ⟨n', hn', -, hobstructs⟩
      refine ⟨scene, hscene, ?_⟩
      intro m hm'
      cases hn'.symm.trans hm'
      intro hsprite
      obtain hlabel | ⟨hknob, -⟩ := hobstructs
      · cases hsprite.symm.trans hlabel
      · cases hsprite.symm.trans hknob

/-- A launch, and the touch of the ranking. -/
def toRanking : List AppEvent := [.launch, .signal 0 (.touchesEnded ⟨375, 417⟩) .first 0]

/-- The touch of a point of the second scene. -/
def onSecond (p : Point) : AppEvent := .signal 1 (.touchesEnded p) .first 0

theorem step_traps_small : ∃ t, replay (step Device.small) Receives installed toRanking = some t ∧
    t.step Device.small (onSecond ⟨375, 917⟩) = .error .badCast ∧
      ∃ u, t.step Device.small (onSecond ⟨45, 45⟩) = .ok u := by
  have hreplay : (replay (step Device.small) Receives installed toRanking).map (fun t =>
      (decide (t.Receives (onSecond ⟨375, 917⟩) ∧ t.Miscast Device.small (onSecond ⟨375, 917⟩)),
        decide (t.Receives (onSecond ⟨45, 45⟩) ∧ ¬ t.Miscast Device.small (onSecond ⟨45, 45⟩)))) =
      some (true, true) := by decide +kernel
  obtain ⟨t, ht, hrun, hstate⟩ := Runs.run_of_map hreplay
  simp only [Prod.mk.injEq, decide_eq_true_eq] at hstate
  obtain ⟨⟨hm, hmiscast⟩, hm', hcast⟩ := hstate
  exact ⟨t, ht, (step_traps_iff rfl hrun hm).1 hmiscast, (step_traps_iff rfl hrun hm').2.1 hcast⟩

end App
end CardsGame
