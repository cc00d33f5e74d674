import CardsGame.Menus
import CardsGame.Store

/-!
# The app

`viewDidLoad` presents a menu, and from then on scenes present scenes. A scene that the
view has left is not gone: its delayed blocks and its gyroscope timer hold on to it, and
run on. All scenes share the defaults, which outlive the app.

`presentScene` sets the new scene up at once; the old one keeps its view until the
transition is over, so that it may present once more.
-/
namespace CardsGame

open Swift SpriteKit
open Ranking (UserDefaults)
open Shuffle (Draws)
open Runs (Run)

/-- What does not change while the app is installed. -/
structure Device where
  assets : Assets
  /-- The size of the view, which is that of its frame and of its bounds. -/
  view : Size
  /-- Whether `audioTest.mp3` can be played. -/
  playable : Bool
  /-- The text of the slider. -/
  volumen : String

inductive Scene where
  | menu (s : GameScene)
  | play (s : PlayScene)
  | options (s : OptionsScene)
  | leaderboards (s : LeaderboardsScene)

structure App where
  defaults : UserDefaults
  /-- `MUSIC_VOLUME` in the defaults. -/
  musicVolume : Option ℚ
  /-- The scenes presented since the launch, the oldest first. -/
  scenes : List Scene

/-- What reaches a scene: a touch that ends at a point of it, one that moves over its
slider, or an event. Only a game has events other than `leave`. -/
inductive Signal where
  | touchesEnded (positionInScene : Point)
  | touchesMoved (x : ℚ)
  | event (e : Event)

namespace PlayScene

/-- Frames come in the order of their times. -/
def InOrder (s : PlayScene) : Event → Prop
  | .frame currentTime => ∀ last ∈ s.lastUpdateTimeInterval, last ≤ currentTime
  | _ => True

/-- What can happen to a game on a device. -/
def May (s : PlayScene) (e : Event) : Prop := OnScreen s e ∧ InOrder s e

instance (s : PlayScene) (e : Event) : Decidable (InOrder s e) :=
  match e with
  | .frame currentTime =>
    inferInstanceAs (Decidable (∀ last ∈ s.lastUpdateTimeInterval, last ≤ currentTime))
  | .touch _ | .togglePause _ _ | .fire _ | .accelerometer _ | .evaluateActions _ | .leave =>
    .isTrue trivial

instance (s : PlayScene) (e : Event) : Decidable (May s e) :=
  inferInstanceAs (Decidable (OnScreen s e ∧ InOrder s e))

end PlayScene

theorem PlayScene.may_stored (d : UserDefaults) (s : PlayScene) (e : Event) :
    (s.stored d).May e ↔ s.May e :=
  and_congr (PlayScene.onScreen_stored d s e) (by cases e <;> exact Iff.rfl)

/-- A touch that ends on a sprite is the touch of a node that is shown. -/
theorem PlayScene.touchesEnded_eq_ok {assets : Assets} {p : Point} {s t : PlayScene}
    (h : PlayScene.touchesEnded assets p s = .ok t) :
    ∃ nod, atPoint s.node assets s.children p = some nod ∧ s.May (.touch nod) ∧
      s.step (.touch nod) = .ok t := by
  obtain ⟨nod, hsprite, h⟩ := bind_eq_ok.mp h
  obtain ⟨hfront, -⟩ := (asSprite_eq_ok s.node).mp hsprite
  obtain ⟨hmem, hit, -⟩ := atPoint_eq_some s.node assets p hfront
  exact ⟨nod, hfront, ⟨⟨trivial, hmem, hit.1⟩, trivial⟩, h⟩

/-- Touches come as `touchesEnded`, and frames as long as there is a view. -/
def PlayScene.Receives (s : PlayScene) (e : Event) : Prop :=
  s.May e ∧ match e with
    | .touch _ => False
    | .frame _ => s.view.isSome = true
    | _ => True

instance (s : PlayScene) (e : Event) : Decidable (s.Receives e) :=
  match e with
  | .touch _ => .isFalse And.right
  | .frame currentTime =>
    inferInstanceAs (Decidable (s.May (.frame currentTime) ∧ s.view.isSome = true))
  | .togglePause _ _ | .fire _ | .accelerometer _ | .evaluateActions _ | .leave =>
    inferInstanceAs (Decidable (s.May _ ∧ True))

namespace Scene

def view : Scene → Option Size
  | .menu s => s.view
  | .play s => s.view
  | .options s => s.view
  | .leaderboards s => s.view

def game? : Scene → Option PlayScene
  | .play s => some s
  | _ => none

theorem game?_eq_some {scene : Scene} {s : PlayScene} : scene.game? = some s ↔ scene = .play s := by
  cases scene with
  | play t => simp [game?]
  | menu t | options t | leaderboards t => simp [game?]

def menu? : Scene → Option GameScene
  | .menu s => some s
  | _ => none

theorem menu?_eq_some {scene : Scene} {s : GameScene} : scene.menu? = some s ↔ scene = .menu s := by
  cases scene with
  | menu t => simp [menu?]
  | play t | options t | leaderboards t => simp [menu?]

def options? : Scene → Option OptionsScene
  | .options s => some s
  | _ => none

theorem options?_eq_some {scene : Scene} {s : OptionsScene} :
    scene.options? = some s ↔ scene = .options s := by
  cases scene with
  | options t => simp [options?]
  | menu t | play t | leaderboards t => simp [options?]

/-- Touches reach a scene through its view, which it may lose once it has asked for
another scene. -/
def Receives (scene : Scene) : Signal → Prop
  | .touchesEnded _ | .touchesMoved _ => scene.view.isSome = true
  | .event e =>
    match scene with
    | .menu s => e = .leave ∧ s.presented ≠ []
    | .play s => s.Receives e
    | .options s => e = .leave ∧ s.presented ≠ []
    | .leaderboards s => e = .leave ∧ s.presented ≠ []

instance (scene : Scene) (signal : Signal) : Decidable (scene.Receives signal) :=
  match signal with
  | .touchesEnded _ | .touchesMoved _ => inferInstanceAs (Decidable (scene.view.isSome = true))
  | .event e =>
    match scene with
    | .menu s => inferInstanceAs (Decidable (e = .leave ∧ s.presented ≠ []))
    | .play s => inferInstanceAs (Decidable (s.Receives e))
    | .options s => inferInstanceAs (Decidable (e = .leave ∧ s.presented ≠ []))
    | .leaderboards s => inferInstanceAs (Decidable (e = .leave ∧ s.presented ≠ []))

def handle (assets : Assets) : Scene → Signal → Checked Scene
  | .menu s, .touchesEnded p => do .ok (.menu (← s.touchesEnded assets p))
  | .menu s, .event .leave => .ok (.menu { s with view := none })
  | .play s, .touchesEnded p => do .ok (.play (← s.touchesEnded assets p))
  | .play s, .event e => do .ok (.play (← s.step e))
  | .options s, .touchesEnded p => do .ok (.options (← s.touchesEnded assets p))
  | .options s, .touchesMoved x => .ok (.options (s.sliderMoved x))
  | .options s, .event .leave => .ok (.options { s with view := none })
  | .leaderboards s, .touchesEnded p => do .ok (.leaderboards (← s.touchesEnded assets p))
  | .leaderboards s, .event .leave => .ok (.leaderboards { s with view := none })
  | scene, _ => .ok scene

/-- The scene sees the defaults as they are now. -/
def load (app : App) : Scene → Scene
  | .play s => .play { s with defaults := app.defaults }
  | .options s => .options { s with musicVolume := app.musicVolume }
  | scene => scene

/-- The defaults are what the scene has made of them. -/
def save (app : App) : Scene → App
  | .play s => { app with defaults := s.defaults }
  | .options s => { app with musicVolume := s.musicVolume }
  | _ => app

/-- The scenes it has asked its view to present. -/
def requested (device : Device) : Scene → List Destination
  | .menu s => s.presented
  | .play s => s.presented.map fun scene =>
    match scene with
    | .gameScene => .menu (doubled device.view)
    | .leaderboardsScene => .leaderboards (doubled device.view)
  | .options s => s.presented
  | .leaderboards s => s.presented

/-- The scene that is presented, when its `didMove` has returned. -/
def didMove (device : Device) (draws : Draws) (now : ℚ) (app : App) : Destination → Checked Scene
  | .menu size => do
    let music : Music := ⟨device.playable, app.musicVolume⟩
    .ok (.menu (← GameScene.didMove device.assets music device.view { size := size }))
  | .play size difficulty => do
    let s : PlayScene :=
      { size := size, view := some device.view, difficulty := difficulty, defaults := app.defaults }
    .ok (.play (← s.didMove device.assets draws now))
  | .options size value => do
    let s := OptionsScene.new device.assets device.volumen size value
    .ok (.options (← s.didMove device.assets device.view))
  | .leaderboards size => do
    let s : LeaderboardsScene := { size := size }
    .ok (.leaderboards (← s.didMove device.assets app.defaults device.view))

/-- A scene acts on a signal that it receives: a menu, the options or a leader board on the
node that is touched, the options on their slider, a game on an event of its own, with the
defaults as they are; else it loses its view or does nothing. -/
inductive Acts (app : App) : Scene → Signal → Scene → Prop where
  | menu (s : GameScene) (p : Point) (nod : Node) :
      Acts app (.menu s) (.touchesEnded p) (.menu (s.processItemTouch nod))
  | menuLeaves (s : GameScene) : Acts app (.menu s) (.event .leave) (.menu { s with view := none })
  | options (s : OptionsScene) (p : Point) (nod : Node) :
      Acts app (.options s) (.touchesEnded p)
        (.options ({ s with musicVolume := app.musicVolume }.processItemTouch nod))
  | slider (s : OptionsScene) (x : ℚ) :
      Acts app (.options s) (.touchesMoved x)
        (.options ({ s with musicVolume := app.musicVolume }.sliderMoved x))
  | optionsLeave (s : OptionsScene) :
      Acts app (.options s) (.event .leave)
        (.options { s with musicVolume := app.musicVolume, view := none })
  | leaderboards (s : LeaderboardsScene) (p : Point) (nod : Node) :
      Acts app (.leaderboards s) (.touchesEnded p) (.leaderboards (s.processItemTouch nod))
  | leaderboardsLeave (s : LeaderboardsScene) :
      Acts app (.leaderboards s) (.event .leave) (.leaderboards { s with view := none })
  | play {s t : PlayScene} {signal : Signal} {e : Event} (hm : (s.stored app.defaults).May e)
      (hs : (s.stored app.defaults).step e = .ok t) : Acts app (.play s) signal (.play t)
  | idle (scene : Scene) (x : ℚ) (hoptions : ∀ s, scene ≠ .options s) :
      Acts app scene (.touchesMoved x) (scene.load app)

theorem acts_of_handle {assets : Assets} {app : App} {scene after : Scene} {signal : Signal}
    (hreceives : scene.Receives signal)
    (h : (scene.load app).handle assets signal = .ok after) : Acts app scene signal after := by
  cases scene with
  | play s =>
    cases signal with
    | touchesEnded p =>
      obtain ⟨t, ht, h⟩ := bind_eq_ok.mp h
      cases h
      obtain ⟨nod, -, hm, hs⟩ := PlayScene.touchesEnded_eq_ok ht
      exact .play hm hs
    | touchesMoved x =>
      cases h
      exact .idle _ x (by simp)
    | event e =>
      obtain ⟨t, hs, h⟩ := bind_eq_ok.mp h
      cases h
      exact .play ((PlayScene.may_stored _ s e).mpr hreceives.1) hs
  | menu s =>
    cases signal with
    | touchesEnded p =>
      obtain ⟨t, ht, h⟩ := bind_eq_ok.mp h
      obtain ⟨nod, -, ht⟩ := bind_eq_ok.mp ht
      cases h
      cases ht
      exact .menu s p nod
    | touchesMoved x =>
      cases h
      exact .idle _ x (by simp)
    | event e =>
      obtain ⟨rfl, -⟩ := hreceives
      cases h
      exact .menuLeaves s
  | options s =>
    cases signal with
    | touchesEnded p =>
      obtain ⟨t, ht, h⟩ := bind_eq_ok.mp h
      obtain ⟨nod, -, ht⟩ := bind_eq_ok.mp ht
      cases h
      cases ht
      exact .options s p nod
    | touchesMoved x =>
      cases h
      exact .slider s x
    | event e =>
      obtain ⟨rfl, -⟩ := hreceives
      cases h
      exact .optionsLeave s
  | leaderboards s =>
    cases signal with
    | touchesEnded p =>
      obtain ⟨t, ht, h⟩ := bind_eq_ok.mp h
      obtain ⟨nod, -, ht⟩ := bind_eq_ok.mp ht
      cases h
      cases ht
      exact .leaderboards s p nod
    | touchesMoved x =>
      cases h
      exact .idle _ x (by simp)
    | event e =>
      obtain ⟨rfl, -⟩ := hreceives
      cases h
      exact .leaderboardsLeave s

end Scene

/-- A launch, or a signal to one of the scenes; the draws and the date are for a game
that the scene presents. -/
inductive AppEvent where
  | launch
  | signal (index : Nat) (signal : Signal) (draws : Draws) (now : ℚ)

namespace App

variable (device : Device)

/-- `GameViewController.viewDidLoad`, in a process that has just started. -/
def viewDidLoad (app : App) : Checked App := do
  let scene ← Scene.didMove device .first 0 app (.menu (doubled device.view))
  .ok { app with scenes := [scene] }

def step (app : App) : AppEvent → Checked App
  | .launch => app.viewDidLoad device
  | .signal index signal draws now =>
    match app.scenes[index]? with
    | none => .ok app
    | some scene => do
      let after ← (scene.load app).handle device.assets signal
      let app := { after.save app with scenes := app.scenes.set index after }
      let requests := (after.requested device).drop (scene.requested device).length
      let presented ← requests.mapM (Scene.didMove device draws now app)
      .ok { app with scenes := app.scenes ++ presented }

def Receives (app : App) : AppEvent → Prop
  | .launch => True
  | .signal index signal _ _ => ∃ scene ∈ app.scenes[index]?, scene.Receives signal

instance (app : App) (e : AppEvent) : Decidable (app.Receives e) :=
  match e with
  | .launch => .isTrue trivial
  | .signal index signal _ _ =>
    inferInstanceAs (Decidable (∃ scene ∈ app.scenes[index]?, scene.Receives signal))

/-- An event launches the app anew, or one scene acts and what it asks for is presented. -/
inductive Outcome (app : App) : AppEvent → App → Prop where
  | launch {menu : Scene}
      (hmenu : Scene.didMove device .first 0 app (.menu (doubled device.view)) = .ok menu) :
      Outcome app .launch { app with scenes := [menu] }
  | signal {index : Nat} {signal : Signal} {draws : Draws} {now : ℚ} {scene after : Scene}
      {presented : List Scene} (hscene : app.scenes[index]? = some scene)
      (hacts : scene.Acts app signal after)
      (hpresented : ((after.requested device).drop (scene.requested device).length).mapM
        (Scene.didMove device draws now
          { after.save app with scenes := app.scenes.set index after }) = .ok presented) :
      Outcome app (.signal index signal draws now)
        { after.save app with scenes := app.scenes.set index after ++ presented }

/-- The scene that has acted is where it was. -/
theorem acted_getElem? {scenes presented : List Scene} {index : Nat} {scene : Scene}
    (h : scenes[index]? = some scene) (after : Scene) :
    (scenes.set index after ++ presented)[index]? = some after := by
  have hlt := (List.getElem?_eq_some_iff.mp h).1
  rw [List.getElem?_append_left (by rwa [List.length_set]), List.getElem?_set_self hlt]

variable {device}

theorem outcome_of_step {app t : App} {e : AppEvent} (hm : app.Receives e)
    (hs : app.step device e = .ok t) : Outcome device app e t := by
  cases e with
  | launch =>
    obtain ⟨menu, hmenu, hs⟩ := bind_eq_ok.mp hs
    cases hs
    exact .launch hmenu
  | signal index signal draws now =>
    obtain ⟨scene, hscene, hreceives⟩ := hm
    rw [Option.mem_def] at hscene
    simp only [step, hscene] at hs
    obtain ⟨after, hafter, hs⟩ := bind_eq_ok.mp hs
    obtain ⟨presented, hpresented, hs⟩ := bind_eq_ok.mp hs
    cases hs
    exact .signal hscene (Scene.acts_of_handle hreceives hafter) hpresented

/-- A scene that an event adds has been launched, or asked for by the scene that acts; it is
set up with the defaults as they are afterwards. -/
theorem Outcome.new {app t : App} {e : AppEvent} (ho : Outcome device app e t) {index : Nat}
    {new : Scene} (hnew : e = .launch ∨ app.scenes.length ≤ index)
    (hscene : t.scenes[index]? = some new) :
    (e = .launch ∧
      Scene.didMove device .first 0 app (.menu (doubled device.view)) = .ok new) ∨
    ∃ i acting after signal draws now, ∃ app' : App, ∃ destination,
      e = .signal i signal draws now ∧ app.scenes[i]? = some acting ∧
      acting.Acts app signal after ∧
      destination ∈ (after.requested device).drop (acting.requested device).length ∧
      app'.defaults = t.defaults ∧ app'.musicVolume = t.musicVolume ∧
      Scene.didMove device draws now app' destination = .ok new := by
  cases ho with
  | @launch menu hmenu =>
    have hmem := List.mem_of_getElem? hscene
    rw [List.mem_singleton] at hmem
    subst hmem
    exact .inl ⟨rfl, hmenu⟩
  | @signal i signal draws now acting after presented hacting hacts hpresented =>
    replace hnew := hnew.resolve_left nofun
    rw [List.getElem?_append_right (by rwa [List.length_set])] at hscene
    obtain ⟨destination, hdestination, hmade⟩ :=
      mem_of_mapM hpresented (List.mem_of_getElem? hscene)
    exact .inr ⟨i, acting, after, signal, draws, now, _, destination, rfl, hacting, hacts,
      hdestination, rfl, rfl, hmade⟩

/-- `Q` holds of what is stored, and `P` of every scene. -/
structure Holds (Q : App → Prop) (P : Scene → Prop) (app : App) : Prop where
  stores : Q app
  scenes : ∀ scene ∈ app.scenes, P scene

/-- `P` holds of a menu that is launched, is kept by the scene that acts, and holds of every
scene that such a scene presents; `Q` is kept by what the scene stores. -/
structure Kept (device : Device) (Q : App → Prop) (P : Scene → Prop) : Prop where
  stores : ∀ (app : App) scenes, Q app → Q { app with scenes := scenes }
  launched : ∀ app menu, Q app →
    Scene.didMove device .first 0 app (.menu (doubled device.view)) = .ok menu → P menu
  acts : ∀ app scene signal after, Q app → P scene → scene.Acts app signal after →
    P after ∧ Q (after.save app)
  presented : ∀ app scene draws now destination new, Q app → P scene →
    destination ∈ scene.requested device →
      Scene.didMove device draws now app destination = .ok new → P new

variable {Q : App → Prop} {P : Scene → Prop}

theorem Outcome.kept (hkept : Kept device Q P) {app t : App} {e : AppEvent}
    (ho : Outcome device app e t) (h : app.Holds Q P) : t.Holds Q P := by
  cases ho with
  | @launch menu hmenu =>
    refine ⟨hkept.stores app _ h.stores, ?_⟩
    intro scene hscene
    rw [List.mem_singleton] at hscene
    subst hscene
    exact hkept.launched app _ h.stores hmenu
  | @signal index signal draws now scene after presented hscene hacts hpresented =>
    obtain ⟨hP, hQ⟩ :=
        hkept.acts app scene signal after h.stores
          (h.scenes scene (List.mem_of_getElem? hscene)) hacts
    refine ⟨hkept.stores _ _ hQ, ?_⟩
    intro new hnew
    obtain hnew | hnew := List.mem_append.mp hnew
    · obtain hnew | rfl := List.mem_or_eq_of_mem_set hnew
      · exact h.scenes new hnew
      · exact hP
    · obtain ⟨destination, hdestination, hmade⟩ := mem_of_mapM hpresented hnew
      exact hkept.presented _ after draws now destination new (hkept.stores _ _ hQ) hP
        (List.mem_of_mem_drop hdestination) hmade

theorem closed_holds {app : App} (hclosed : app.scenes = []) (hq : Q app) : app.Holds Q P := by
  refine ⟨hq, ?_⟩
  rw [hclosed]
  simp

/-- Then they hold whenever, in an app that starts with no scenes. -/
theorem Kept.run (hkept : Kept device Q P) {s t : App} {es : List AppEvent} (hq : Q s)
    (hclosed : s.scenes = []) (hrun : Run (step device) Receives s es t) : t.Holds Q P := by
  refine hrun.preserves (I := Holds Q P) ?_ (closed_holds hclosed hq)
  intro app e app' h hm hs
  exact (outcome_of_step hm hs).kept hkept h

/-- The app before its first launch. -/
def installed : App := ⟨.empty, none, []⟩

/-- The game at this index, if there is one. -/
def gameAt (app : App) (index : Nat) : Option PlayScene := app.scenes[index]?.bind Scene.game?

theorem gameAt_eq_some {app : App} {index : Nat} {game : PlayScene} :
    app.gameAt index = some game ↔ app.scenes[index]? = some (.play game) := by
  rw [gameAt, Option.bind_eq_some_iff]
  constructor
  · rintro ⟨scene, hscene, hgame⟩
    rw [hscene, Scene.game?_eq_some.mp hgame]
  · exact fun h => ⟨_, h, rfl⟩

/-- The menu at this index, if there is one. -/
def menuAt (app : App) (index : Nat) : Option GameScene := app.scenes[index]?.bind Scene.menu?

theorem menuAt_eq_some {app : App} {index : Nat} {menu : GameScene} :
    app.menuAt index = some menu ↔ app.scenes[index]? = some (.menu menu) := by
  rw [menuAt, Option.bind_eq_some_iff]
  constructor
  · rintro ⟨scene, hscene, hmenu⟩
    rw [hscene, Scene.menu?_eq_some.mp hmenu]
  · exact fun h => ⟨_, h, rfl⟩

end App

/-- A phone, with the images and texts of the small game. -/
def Device.small : Device :=
  ⟨⟨fun _ => ⟨120, 60⟩, fun _ _ _ => ⟨⟨-70, -8⟩, ⟨140, 32⟩⟩, fun r => ⟨2 * r, 2 * r⟩⟩,
    ⟨375, 667⟩, true, "Volumen"⟩

end CardsGame
