import CardsGame.App
import CardsGame.Board
import CardsGame.Store

/-!
# The games of the app

However the scenes of the app take turns, and whatever they write to the defaults, each
game is in a state that it could have reached alone, after a start at one of the three
difficulties of the menu. What is proved of single games holds of all of them.
-/
namespace CardsGame

open Swift SpriteKit
open Ranking (UserDefaults)
open Shuffle (Draws)
open Runs (Run replay)
open PlayScene (Alike May)

/-- The difficulties of the menu. -/
def Offered (difficulty : Int) : Prop := difficulty = 0 ∨ difficulty = 1 ∨ difficulty = 2

/-- The game that a menu starts. -/
def Device.game (device : Device) (difficulty : Int) (draws : Draws) (now : ℚ)
    (defaults : UserDefaults) : Game :=
  Game.levelled
    { assets := device.assets
      draws := draws
      now := now
      size := doubled device.view
      bounds := device.view
      difficulty := difficulty
      time := 0
      cardsPerRow := 4
      cardsPerColumn := 5
      defaults := defaults }

/-- `didMove` of a scene that was just made, with a difficulty of the menu, starts this game. -/
theorem didMove_game (device : Device) {difficulty : Int} (hoffered : Offered difficulty)
    (draws : Draws) (now : ℚ) (defaults : UserDefaults) :
    PlayScene.didMove device.assets draws now
      { size := doubled device.view
        view := some device.view
        difficulty := some difficulty
        defaults := defaults } = (device.game difficulty draws now defaults).start := by
  change PlayScene.setUp device.assets draws now (PlayScene.setDifficulty difficulty _) = _
  unfold PlayScene.setDifficulty Device.game Game.levelled
  dsimp only
  obtain rfl | rfl | rfl := hoffered
  · rw [if_pos rfl, if_pos rfl]
    rfl
  · rw [if_neg (by decide), if_pos rfl, if_neg (by decide), if_pos rfl]
    rfl
  · rw [if_neg (by decide), if_neg (by decide), if_pos rfl, if_neg (by decide), if_neg (by decide),
      if_pos rfl]
    rfl

/-- The difficulties of the menu, with the pairs on the board and the seconds of the game. -/
def levels : List (Int × Nat × ℚ) := [(0, 6, 120), (1, 8, 210), (2, 10, 250)]

theorem mem_levels {difficulty : Int} {n : Nat} {T : ℚ} : (difficulty, n, T) ∈ levels ↔
    difficulty = 0 ∧ n = 6 ∧ T = 120 ∨ difficulty = 1 ∧ n = 8 ∧ T = 210 ∨
      difficulty = 2 ∧ n = 10 ∧ T = 250 := by
  simp [levels]

theorem levels_unique {difficulty : Int} {n n' : Nat} {T T' : ℚ} (h : (difficulty, n, T) ∈ levels)
    (h' : (difficulty, n', T') ∈ levels) : n = n' := by
  rw [mem_levels] at h h'
  omega

theorem offered_of_level {difficulty : Int} {n : Nat} {T : ℚ} (h : (difficulty, n, T) ∈ levels) :
    Offered difficulty := by
  rw [mem_levels] at h
  unfold Offered
  omega

theorem Device.game_level (device : Device) {difficulty : Int} (hoffered : Offered difficulty)
    (draws : Draws) (now : ℚ) (defaults : UserDefaults) :
    ∃ n T, (difficulty, n, T) ∈ levels ∧
      PlayScene.Dealable (device.game difficulty draws now defaults).scene n ∧
      (device.game difficulty draws now defaults).time = T ∧
      (device.game difficulty draws now defaults).difficulty = difficulty := by
  obtain rfl | rfl | rfl := hoffered
  · refine ⟨6, 120, by simp [levels], ?_, rfl, rfl⟩
    exact ⟨show (1 : Int) ≤ 3 by decide, show (1 : Int) ≤ 4 by decide, rfl, by decide⟩
  · refine ⟨8, 210, by simp [levels], ?_, rfl, rfl⟩
    exact ⟨show (1 : Int) ≤ 4 by decide, show (1 : Int) ≤ 4 by decide, rfl, by decide⟩
  · refine ⟨10, 250, by simp [levels], ?_, rfl, rfl⟩
    exact ⟨show (1 : Int) ≤ 4 by decide, show (1 : Int) ≤ 5 by decide, rfl, by decide⟩

/-- A scene as large as the view, and a game at a difficulty of the menu. -/
def Destination.Valid (device : Device) : Destination → Prop
  | .menu size | .options size _ | .leaderboards size => size = doubled device.view
  | .play size difficulty => size = doubled device.view ∧ ∃ d, difficulty = some d ∧ Offered d

/-- A scene with this view has asked for these scenes. -/
structure Asks (device : Device) (view : Option Size) (presented : List Destination) : Prop where
  view : ∀ size ∈ view, size = device.view
  presented : ∀ destination ∈ presented, destination.Valid device

namespace Asks

variable {device : Device} {view : Option Size} {presented : List Destination}

theorem initial (device : Device) : Asks device (some device.view) [] :=
  ⟨by simp, by simp⟩

theorem leave (h : Asks device view presented) : Asks device none presented :=
  ⟨by simp, h.presented⟩

theorem ask {size : Size} {destination : Destination} (h : Asks device (some size) presented)
    (hvalid : size = device.view → destination.Valid device) :
    Asks device (some size) (presented ++ [destination]) := by
  refine ⟨h.view, ?_⟩
  intro other hother
  rw [List.mem_append, List.mem_singleton] at hother
  obtain hother | rfl := hother
  · exact h.presented other hother
  · exact hvalid (h.view size rfl)

end Asks

theorem GameScene.asks_present {device : Device} {s : GameScene} {destination : Size → Destination}
    (h : Asks device s.view s.presented)
    (hvalid : (destination (doubled device.view)).Valid device) :
    Asks device (s.present destination).view (s.present destination).presented := by
  unfold GameScene.present
  cases hview : s.view with
  | none =>
    rw [hview] at h
    simpa [hview] using h
  | some size =>
    rw [hview] at h
    have hasks : Asks device (some size) (s.presented ++ [destination (doubled size)]) := by
      refine h.ask ?_
      rintro rfl
      exact hvalid
    simpa [hview] using hasks

theorem GameScene.asks_touch {device : Device} {s : GameScene} (nod : Node)
    (h : Asks device s.view s.presented) :
    Asks device (processItemTouch nod s).view (processItemTouch nod s).presented := by
  have hplay : ∀ d, Offered d → Asks device (playGame { s with difficulty := some d }).view
      (playGame { s with difficulty := some d }).presented := by
    intro d hd
    exact asks_present (s := { s with difficulty := some d }) h ⟨rfl, d, rfl, hd⟩
  unfold processItemTouch
  split_ifs
  · exact hplay 0 (.inl rfl)
  · exact hplay 1 (.inr (.inl rfl))
  · exact hplay 2 (.inr (.inr rfl))
  · exact asks_present h rfl
  · exact asks_present h rfl
  · exact h

theorem LeaderboardsScene.asks_touch {device : Device} {s : LeaderboardsScene} (nod : Node)
    (h : Asks device s.view s.presented) :
    Asks device (processItemTouch nod s).view (processItemTouch nod s).presented := by
  unfold processItemTouch goMenu
  split
  · cases hview : s.view with
    | none => simpa [hview] using h
    | some size =>
      rw [hview] at h
      have hasks : Asks device (some size) (s.presented ++ [.menu (doubled size)]) :=
        h.ask (congrArg doubled)
      simpa [hview] using hasks
  · exact h

theorem OptionsScene.asks_touch {device : Device} {s : OptionsScene} (nod : Node)
    (h : Asks device s.view s.presented) :
    Asks device (processItemTouch nod s).view (processItemTouch nod s).presented := by
  unfold processItemTouch goMenu
  split
  · cases hview : s.view with
    | none => simpa [hview] using h
    | some size =>
      rw [hview] at h
      have hasks : Asks device (some size) (s.presented ++ [.menu (doubled size)]) :=
        h.ask (congrArg doubled)
      simpa [hview] using hasks
  · exact h

namespace Scene

def Asks (device : Device) : Scene → Prop
  | .menu s => CardsGame.Asks device s.view s.presented
  | .play _ => True
  | .options s => CardsGame.Asks device s.view s.presented
  | .leaderboards s => CardsGame.Asks device s.view s.presented

variable {device : Device}

/-- Scenes only ask for valid ones. -/
theorem Asks.requested {scene : Scene} (h : scene.Asks device) :
    ∀ destination ∈ scene.requested device, destination.Valid device := by
  cases scene with
  | menu s => exact h.presented
  | options s => exact h.presented
  | leaderboards s => exact h.presented
  | play s =>
    intro destination hdestination
    obtain ⟨scene, -, rfl⟩ := List.mem_map.mp hdestination
    cases scene with
    | gameScene => rfl
    | leaderboardsScene => rfl

theorem asks_didMove {draws : Draws} {now : ℚ} {app : App} {destination : Destination} {new : Scene}
    (h : didMove device draws now app destination = .ok new) : new.Asks device := by
  cases destination with
  | menu size =>
    obtain ⟨s, hs, h⟩ := bind_eq_ok.mp h
    cases h
    cases hs
    change CardsGame.Asks device _ _
    split
    · exact .initial device
    · exact .initial device
  | play size difficulty =>
    obtain ⟨s, hs, h⟩ := bind_eq_ok.mp h
    cases h
    trivial
  | options size value =>
    obtain ⟨s, hs, h⟩ := bind_eq_ok.mp h
    cases h
    cases hs
    exact CardsGame.Asks.initial device
  | leaderboards size =>
    obtain ⟨s, hs, h⟩ := bind_eq_ok.mp h
    cases h
    cases hs
    exact CardsGame.Asks.initial device

theorem asks_acts {app : App} {scene after : Scene} {signal : Signal} (hasks : scene.Asks device)
    (h : scene.Acts app signal after) : after.Asks device := by
  cases h with
  | menu s p nod => exact GameScene.asks_touch nod hasks
  | options s p nod =>
    exact OptionsScene.asks_touch (s := { s with musicVolume := app.musicVolume }) nod hasks
  | leaderboards s p nod => exact LeaderboardsScene.asks_touch nod hasks
  | menuLeaves | optionsLeave | leaderboardsLeave => exact CardsGame.Asks.leave hasks
  | slider => exact hasks
  | play => trivial
  | idle scene x hoptions =>
    cases scene with
    | options s => exact absurd rfl (hoptions s)
    | menu s | play s | leaderboards s => exact hasks

end Scene

namespace PlayScene

/-- Up to the store, the scene is one that a game of the menu reaches alone. -/
def Alone (device : Device) (s : PlayScene) : Prop :=
  ∃ difficulty draws now defaults start es u, Offered difficulty ∧
    (device.game difficulty draws now defaults).start = .ok start ∧
    Run step May start es u ∧ Alike u s

variable {device : Device} {s t : PlayScene} {d : UserDefaults}

theorem Alone.stored (h : Alone device s) (d : UserDefaults) : Alone device (s.stored d) := by
  obtain ⟨difficulty, draws, now, defaults, start, es, u, hoffered, hstart, hrun, d', rfl⟩ := h
  exact ⟨difficulty, draws, now, defaults, start, es, u, hoffered, hstart, hrun, d, rfl⟩

/-- An event of the scene is one of the game alone, whatever the store holds. -/
theorem Alone.step {e : Event} (h : Alone device s) (hm : May s e)
    (hs : PlayScene.step s e = .ok t) : Alone device t := by
  obtain ⟨difficulty, draws, now, defaults, start, es, u, hoffered, hstart, hrun, d, rfl⟩ := h
  have hagree := step_stored d u e
  rw [hs] at hagree
  obtain ⟨v, hv, halike⟩ := hagree.right
  have hm' : May u e := (may_stored d u e).mp hm
  exact ⟨difficulty, draws, now, defaults, start, es ++ [e], v, hoffered, hstart,
    hrun.append (.single hm' hv), halike⟩

/-- What holds at the start, and is kept by every event and whatever happens to the store,
holds of a game of the app. -/
theorem Alone.holds {I : PlayScene → Prop} (h : Alone device s)
    (hstart : ∀ difficulty draws now defaults start, Offered difficulty →
      (device.game difficulty draws now defaults).start = .ok start → I start)
    (hstep : ∀ s e t, I s → May s e → PlayScene.step s e = .ok t → I t)
    (hstored : ∀ s d, I s → I (s.stored d)) : I s := by
  obtain ⟨difficulty, draws, now, defaults, start, es, u, hoffered, hbegin, hrun, d, rfl⟩ := h
  exact hstored u d (hrun.preserves hstep (hstart _ _ _ _ _ hoffered hbegin))

end PlayScene

namespace Scene

variable {device : Device}

/-- Only games are restricted. -/
def Alone (device : Device) : Scene → Prop
  | .play s => s.Alone device
  | _ => True

theorem alone_didMove {draws : Draws} {now : ℚ} {app : App} {destination : Destination}
    {new : Scene} (hvalid : destination.Valid device)
    (h : didMove device draws now app destination = .ok new) : new.Alone device := by
  cases destination with
  | play size difficulty =>
    obtain ⟨rfl, d, rfl, hoffered⟩ := hvalid
    obtain ⟨s, hs, h⟩ := bind_eq_ok.mp h
    cases h
    rw [didMove_game device hoffered] at hs
    exact ⟨d, draws, now, _, s, [], s, hoffered, hs, .nil s, s.defaults, rfl⟩
  | menu size | options size value | leaderboards size =>
    obtain ⟨s, hs, h⟩ := bind_eq_ok.mp h
    cases h
    trivial

theorem alone_acts {app : App} {scene after : Scene} {signal : Signal}
    (halone : scene.Alone device) (h : scene.Acts app signal after) : after.Alone device := by
  cases h with
  | play hm hs => exact (PlayScene.Alone.stored halone app.defaults).step hm hs
  | idle scene x =>
    cases scene with
    | play s => exact PlayScene.Alone.stored halone app.defaults
    | menu s | options s | leaderboards s => trivial
  | menu | menuLeaves | options | slider | optionsLeave | leaderboards | leaderboardsLeave =>
    trivial

end Scene

namespace App

variable {device : Device} {s t : App} {es : List AppEvent}

/-- A scene asks for valid ones, and if it is a game, it is as it would be alone. -/
def Orderly (device : Device) (scene : Scene) : Prop := scene.Asks device ∧ scene.Alone device

theorem kept_games (device : Device) : Kept device (fun _ => True) (Orderly device) where
  stores := fun _ _ h => h
  launched := by
    intro app menu _ h
    have hvalid : (Destination.menu (doubled device.view)).Valid device := rfl
    exact ⟨Scene.asks_didMove h, Scene.alone_didMove hvalid h⟩
  acts := by
    rintro app scene signal after _ ⟨hasks, halone⟩ h
    exact ⟨⟨Scene.asks_acts hasks h, Scene.alone_acts halone h⟩, trivial⟩
  presented := by
    rintro app scene draws now destination new _ ⟨hasks, -⟩ hdestination h
    exact ⟨Scene.asks_didMove h, Scene.alone_didMove (hasks.requested destination hdestination) h⟩

theorem alone_of_run (hclosed : s.scenes = []) (hrun : Run (step device) Receives s es t)
    {game : PlayScene} (hgame : .play game ∈ t.scenes) : game.Alone device :=
  (((kept_games device).run trivial hclosed hrun).scenes _ hgame).2

/-- In an app that starts with no scenes, every game is at any time as it would be alone. -/
theorem games_alone (hclosed : s.scenes = []) (hrun : Run (step device) Receives s es t) :
    ∀ game, .play game ∈ t.scenes → game.Alone device :=
  fun _ hgame => alone_of_run hclosed hrun hgame

/-- A launch, the touch of `Easy`, and in the game the touch of its first card. -/
def firstTouch : List AppEvent :=
  [.launch, .signal 0 (.touchesEnded ⟨175, 667⟩) .first 0,
    .signal 1 (.event (.evaluateActions 4)) .first 0,
    .signal 1 (.event (.evaluateActions 5)) .first 0,
    .signal 1 (.touchesEnded ⟨168, 231⟩) .first 0]

theorem games_alone_small : ∃ t, replay (step Device.small) Receives installed firstTouch = some t ∧
    ∃ game, .play game ∈ t.scenes ∧ game.selectedCardIndex1 = 0 ∧ game.Alone Device.small := by
  have hreplay : (replay (step Device.small) Receives installed firstTouch).map (fun t =>
      (t.gameAt 1).map (·.selectedCardIndex1)) = some (some 0) := by decide +kernel
  obtain ⟨t, ht, hrun, hselected⟩ := Runs.run_of_map hreplay
  obtain ⟨game, hgame, hselected⟩ := Option.map_eq_some_iff.mp hselected
  have hmem := List.mem_of_getElem? (gameAt_eq_some.mp hgame)
  exact ⟨t, ht, game, hmem, hselected, games_alone rfl hrun game hmem⟩

end App
end CardsGame
