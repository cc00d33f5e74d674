import CardsGame.Ranking
import CardsGame.SpriteKit

/-!
# GameScene, LeaderboardsScene and OptionsScene

The three menus around the game: what their `didMove` builds, and what they do with a
touch. The nodes of a menu are never shared, so that a scene holds them themselves, in
the order they are drawn. Of the music only the volume is kept.
-/
namespace CardsGame

open Swift SpriteKit
open Ranking (UserDefaults)

/-- `view.frame.size`, scaled by 2 in both directions. -/
def doubled (view : Size) : Size := ⟨view.width * 2, view.height * 2⟩

/-- The scenes a menu asks its view to present, with what it hands over. -/
inductive Destination where
  | menu (size : Size)
  | play (size : Size) (difficulty : Option Int)
  | options (size : Size) (value : ℚ)
  | leaderboards (size : Size)
  deriving DecidableEq

/-- The background of a menu, which has no name. -/
def menuBackground (size bounds : Size) : Node :=
  { image := "Background"
    position := ⟨size.width / 2, size.height / 2⟩
    size := ⟨bounds.width * 2, bounds.height * 2⟩ }

/-- The button that leads back to the menu. -/
def menuBack (assets : Assets) : Node :=
  let back := assets.imageSize "back"
  { image := "back"
    anchorPoint := ⟨1 / 2, 1 / 2⟩
    size := ⟨back.width * (3 / 4), back.height / 2⟩
    position := ⟨back.width * (3 / 4) / 2, 45⟩
    zPosition := 10
    name := some "GameBack" }

/-- What `CreateMenu` finds of the music: whether it can be played, and `MUSIC_VOLUME`
in the defaults. -/
structure Music where
  playable : Bool
  volume : Option ℚ

structure GameScene where
  size : Size
  view : Option Size := none
  difficulty : Option Int := none
  volume : ℚ := 1 / 2
  children : List Node := []
  presented : List Destination := []

namespace GameScene

def addChild (n : Node) (s : GameScene) : GameScene := { s with children := s.children ++ [n] }

def createBackGround (s : GameScene) : Checked GameScene := do
  let bounds ← unwrap s.view
  .ok (s.addChild (menuBackground s.size bounds))

/-- A button of the menu, as large as its image. -/
def button (assets : Assets) (image name : String) (position : Point) : Node :=
  { image := image
    size := assets.imageSize image
    zPosition := 10
    position := position
    name := some name }

def createMenu (assets : Assets) (music : Music) (s : GameScene) : Checked GameScene := do
  let s ← createBackGround s
  let x := s.size.width / 2
  let y := s.size.height / 2
  let s := s.addChild (button assets "title" "title" ⟨x, y + 250⟩)
  let s := s.addChild (button assets "easy" "Easy" ⟨x - 200, y⟩)
  let s := s.addChild (button assets "medium" "Medium" ⟨x, y⟩)
  let s := s.addChild (button assets "hard" "Hard" ⟨x + 200, y⟩)
  let s := s.addChild (button assets "options" "Options" ⟨x, y - 150⟩)
  let s := s.addChild (button assets "ranking" "LeaderBoard" ⟨x, y - 250⟩)
  .ok (if music.playable then { s with volume := (music.volume.map float).getD 1 } else s)

def didMove (assets : Assets) (music : Music) (view : Size) (s : GameScene) :
    Checked GameScene :=
  createMenu assets music { s with view := some view }

/-- `view.presentScene` when the scene has a view. -/
def present (destination : Size → Destination) (s : GameScene) : GameScene :=
  match s.view with
  | some view => { s with presented := s.presented ++ [destination (doubled view)] }
  | none => s

def playGame (s : GameScene) : GameScene := s.present fun size => .play size s.difficulty
def goOptions (s : GameScene) : GameScene := s.present fun size => .options size s.volume
def goLeaderBoard (s : GameScene) : GameScene := s.present .leaderboards

def processItemTouch (nod : Node) (s : GameScene) : GameScene :=
  if nod.name = some "Easy" then playGame { s with difficulty := some 0 }
  else if nod.name = some "Medium" then playGame { s with difficulty := some 1 }
  else if nod.name = some "Hard" then playGame { s with difficulty := some 2 }
  else if nod.name = some "Options" then goOptions s
  else if nod.name = some "LeaderBoard" then goLeaderBoard s
  else s

def touchesEnded (assets : Assets) (positionInScene : Point) (s : GameScene) :
    Checked GameScene := do
  let touchedNode ← asSprite id (atPoint id assets s.children positionInScene)
  .ok (processItemTouch touchedNode s)

end GameScene

structure LeaderboardsScene where
  size : Size
  view : Option Size := none
  children : List Node := []
  presented : List Destination := []

namespace LeaderboardsScene

def addChild (n : Node) (s : LeaderboardsScene) : LeaderboardsScene :=
  { s with children := s.children ++ [n] }

/-- A line of the ranking, `above` the centre of the scene. -/
def line (text : String) (above : ℚ) (s : LeaderboardsScene) : Node :=
  { kind := .label
    fontName := "Chalkduster"
    position := ⟨s.size.width / 2, s.size.height / 2 + above⟩
    text := text
    fontSize := 32
    zPosition := 10 }

def didMove (assets : Assets) (defaults : UserDefaults) (view : Size) (s : LeaderboardsScene) :
    Checked LeaderboardsScene := do
  let s := { s with view := some view }
  let bounds ← unwrap s.view
  let s := s.addChild (menuBackground s.size bounds)
  let s := s.addChild (s.line "Ranking" 250)
  let s := s.addChild (s.line (toString (defaults.integer "rankingFirst")) 200)
  let s := s.addChild (s.line (toString (defaults.integer "rankingSecond")) 150)
  let s := s.addChild (s.line (toString (defaults.integer "rankingThird")) 100)
  .ok (s.addChild (menuBack assets))

def goMenu (s : LeaderboardsScene) : LeaderboardsScene :=
  match s.view with
  | some view => { s with presented := s.presented ++ [.menu (doubled view)] }
  | none => s

def processItemTouch (nod : Node) (s : LeaderboardsScene) : LeaderboardsScene :=
  if nod.name = some "GameBack" then s.goMenu else s

def touchesEnded (assets : Assets) (positionInScene : Point) (s : LeaderboardsScene) :
    Checked LeaderboardsScene := do
  let touchedNode ← asSprite id (atPoint id assets s.children positionInScene)
  .ok (processItemTouch touchedNode s)

end LeaderboardsScene

/-- A slider: a label, a track and a knob, placed relative to `position`. -/
structure Slider where
  position : Point := ⟨0, 0⟩
  label : Node
  background : Node
  slider : Node
  value : ℚ := 0

namespace Slider

def new (assets : Assets) (width height : ℚ) (txt : String) : Slider :=
  let label : Node :=
    { kind := .label
      fontName := "Optima-ExtraBlack"
      text := txt
      fontSize := 18
      position := ⟨0, -8⟩ }
  let start : Point := ⟨(frame assets label).size.width / 2 + 15, 0⟩
  { label := label
    background := { size := ⟨width, 2⟩, anchorPoint := ⟨0, 1 / 2⟩, position := start }
    slider := { kind := .shape, size := assets.circle height, position := start } }

def width (s : Slider) : ℚ := s.background.size.width

/-- Setting `value` moves the knob along the track. -/
def setValue (value : ℚ) (s : Slider) : Slider :=
  { s with
    value := value
    slider := { s.slider with position := ⟨s.background.position.x + value * s.width, 0⟩ } }

/-- `touchesMoved`, for a touch at `x` in the coordinates of the slider. -/
def touchesMoved (x : ℚ) (s : Slider) : Slider :=
  let x := x - s.background.position.x
  let pos := max (min x s.width) 0
  let s := { s with slider := { s.slider with position := ⟨s.background.position.x + pos, 0⟩ } }
  s.setValue (pos / s.width)

/-- A node of the slider, in the coordinates of the scene. -/
def placed (s : Slider) (n : Node) : Node :=
  { n with position := ⟨s.position.x + n.position.x, s.position.y + n.position.y⟩ }

/-- The slider and its nodes, in the order they are drawn. -/
def drawn (s : Slider) : List Node :=
  [{ kind := .group, position := s.position }, s.placed s.label, s.placed s.background,
    s.placed s.slider]

end Slider

/-- A child of the options: a node, or the slider. -/
inductive OptionsChild where
  | node (n : Node)
  | slider

structure OptionsScene where
  size : Size
  view : Option Size := none
  slider : Slider
  children : List OptionsChild := []
  /-- `MUSIC_VOLUME` in the defaults. -/
  musicVolume : Option ℚ := none
  presented : List Destination := []

namespace OptionsScene

/-- The options as the menu hands them over, with the slider at the volume. -/
def new (assets : Assets) (text : String) (size : Size) (volume : ℚ) : OptionsScene :=
  { size := size, slider := (Slider.new assets 300 20 text).setValue volume }

def addChild (child : OptionsChild) (s : OptionsScene) : OptionsScene :=
  { s with children := s.children ++ [child] }

def didMove (assets : Assets) (view : Size) (s : OptionsScene) : Checked OptionsScene := do
  let s := { s with view := some view }
  let bounds ← unwrap s.view
  let s := s.addChild (.node (menuBackground s.size bounds))
  let start : Point := ⟨s.size.width / 2 - s.slider.width / 2, s.size.height / 2⟩
  let s := { s with slider := { s.slider with position := start } }
  let s := s.addChild .slider
  .ok (s.addChild (.node (menuBack assets)))

/-- The slider receives a moving touch and tells its delegate, the scene. -/
def sliderMoved (x : ℚ) (s : OptionsScene) : OptionsScene :=
  let s := { s with slider := s.slider.touchesMoved x }
  { s with musicVolume := some s.slider.value }

/-- The nodes of the scene, in the order they are drawn. -/
def drawn (s : OptionsScene) : List Node :=
  s.children.flatMap fun child =>
    match child with
    | .node n => [n]
    | .slider => s.slider.drawn

def goMenu (s : OptionsScene) : OptionsScene :=
  match s.view with
  | some view => { s with presented := s.presented ++ [.menu (doubled view)] }
  | none => s

def processItemTouch (nod : Node) (s : OptionsScene) : OptionsScene :=
  if nod.name = some "GameBack" then s.goMenu else s

def touchesEnded (assets : Assets) (positionInScene : Point) (s : OptionsScene) :
    Checked OptionsScene := do
  let touchedNode ← asSprite id (atPoint id assets s.drawn positionInScene)
  .ok (processItemTouch touchedNode s)

end OptionsScene

end CardsGame
