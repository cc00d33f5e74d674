import Mathlib.Logic.Function.Basic
import CardsGame.Ranking
import CardsGame.Shuffle
import CardsGame.SpriteKit

/-!
# PlayScene

The scene of one game, field by field and function by function. Nodes live in a
store indexed by identity, a natural number. A block handed to `DispatchQueue.main.asyncAfter`
captures nothing but the scene: it waits in `pending` and reads the fields when it
fires. `effects` records what the scene prints and which of its exits it takes;
no function reads it.

The delays, the colours, the audio and the set-up of the motion manager are left
out, because nothing the scene computes depends on them.
-/
namespace CardsGame

open Swift SpriteKit
open Ranking (UserDefaults)
open Shuffle (Draws)

inductive BlockKind where
  | matched | unmatched
  deriving DecidableEq, Repr

/-- A delayed block, and how many actions had been started when it was scheduled. -/
structure Block where
  kind : BlockKind
  after : Nat
  deriving DecidableEq, Repr

/-- The scenes that `PlayScene` asks its view to present. -/
inductive OtherScene where
  | gameScene | leaderboardsScene
  deriving DecidableEq, Repr

inductive Effect where
  | cardTouched (number : Int)
  | matchedCards
  | unmatchedCards
  | pauseFunc (pauseState : Bool)
  | updateRanking (score : Int)
  | goMenu
  | goLeaderBoard
  deriving DecidableEq, Repr

def cardSizeX : ℚ := 80
def cardSizeY : ℚ := 120

structure PlayScene where
  size : Size
  /-- `self.view?.bounds.size` -/
  view : Option Size
  difficulty : Option Int := none
  cardsPerRow : Int := 4
  cardsPerColumn : Int := 5
  timer : Option ℚ := none
  time : Option ℚ := none
  pauseLayer : Option Nat := none
  pauseImg : Option Nat := none
  pauseState : Bool := false
  pauseTimer : Option ℚ := none
  scoreLabel : Option Nat := none
  timeLabel : Option Nat := none
  gameBack : Option Nat := none
  cards : List Nat := []
  cardsBacks : List Nat := []
  cardsStatus : List Bool := []
  cardsSequence : List Int := []
  selectedCardIndex1 : Int := -1
  selectedCardIndex2 : Int := -1
  selectedCard1Value : String := ""
  selectedCard2Value : String := ""
  lockInteraction : Bool := false
  matchesCount : Int := 0
  tryCount : Int := 0
  score : Int := 0
  lastUpdateTimeInterval : Option ℚ := some 0
  firstFrame : Bool := true
  lastZ : ℚ := 0
  gravity : Point := ⟨0, -98 / 10⟩
  /-- The nodes that exist, by identity; `nextNode` and above are not yet allocated. -/
  node : Nat → Node := fun _ => {}
  nextNode : Nat := 0
  children : List Nat := []
  /-- How many actions have been started in this scene. -/
  actionsStarted : Nat := 0
  /-- The delayed blocks that have not fired. -/
  pending : List Block := []
  defaults : UserDefaults := UserDefaults.empty
  presented : List OtherScene := []
  effects : List Effect := []

namespace PlayScene

/-- A newly made node has an identity of its own. -/
def alloc (n : Node) (s : PlayScene) : Nat × PlayScene :=
  (s.nextNode, { s with node := Function.update s.node s.nextNode n, nextNode := s.nextNode + 1 })

def addChild (n : Nat) (s : PlayScene) : PlayScene := { s with children := s.children ++ [n] }

def removeFromParent (n : Nat) (s : PlayScene) : PlayScene :=
  { s with children := s.children.filter (· ≠ n) }

/-- `node.run(SKAction.hide())` and `node.run(SKAction.unhide())` -/
def runAction (hides : Bool) (n : Nat) (s : PlayScene) : PlayScene :=
  { s with
    node := Function.update s.node n ((s.node n).queue ⟨hides, s.actionsStarted⟩)
    actionsStarted := s.actionsStarted + 1 }

/-- `label?.text = text` -/
def setText (label : Option Nat) (text : String) (s : PlayScene) : PlayScene :=
  match label with
  | some n => { s with node := Function.update s.node n { s.node n with text := text } }
  | none => s

def emit (e : Effect) (s : PlayScene) : PlayScene := { s with effects := s.effects ++ [e] }

/-- `view.presentScene` when the scene still has a view. -/
def present (scene : OtherScene) (s : PlayScene) : PlayScene :=
  match s.view with
  | some _ => { s with presented := s.presented ++ [scene] }
  | none => s

def goMenu (s : PlayScene) : PlayScene := (s.emit .goMenu).present .gameScene

def goLeaderBoard (s : PlayScene) : PlayScene :=
  (s.emit .goLeaderBoard).present .leaderboardsScene

def updateScore (s : PlayScene) : Checked PlayScene := do
  let difficulty ← unwrap s.difficulty
  let score := s.matchesCount * (difficulty + 1) * 5
  let timer ← unwrap s.timer
  let score := score - s.tryCount + truncate timer
  .ok ({ s with score := score }.setText s.scoreLabel ("Score: " ++ toString score))

def setTryCount (score : Int) (s : PlayScene) : Checked PlayScene :=
  updateScore { s with tryCount := score }

def setMatchesCount (score : Int) (s : PlayScene) : Checked PlayScene :=
  updateScore { s with matchesCount := score }

def updateRanking (s : PlayScene) : PlayScene :=
  { s.emit (.updateRanking s.score) with defaults := Ranking.updateRanking s.score s.defaults }

def setDifficulty (difficultyId : Int) (s : PlayScene) : PlayScene :=
  let s := { s with difficulty := some difficultyId }
  if difficultyId = 0 then
    { s with timer := some 120, time := some 120, cardsPerColumn := 4, cardsPerRow := 3 }
  else if difficultyId = 1 then
    { s with timer := some 210, time := some 210, cardsPerColumn := 4, cardsPerRow := 4 }
  else if difficultyId = 2 then
    { s with timer := some 250, time := some 250, cardsPerColumn := 5, cardsPerRow := 4 }
  else s

def removeAllCards (s : PlayScene) : PlayScene :=
  let s := s.cards.foldl (fun s card => s.removeFromParent card) s
  let s := s.cardsBacks.foldl (fun s card => s.removeFromParent card) s
  { s with
    cards := []
    cardsBacks := []
    cardsStatus := []
    cardsSequence := []
    selectedCard1Value := ""
    selectedCard2Value := ""
    selectedCardIndex1 := -1
    selectedCardIndex2 := -1 }

def fillCardSequence (draws : Draws) (s : PlayScene) : Checked PlayScene := do
  let s := { s with cardsSequence := [] }
  let values ← closedRange 1 (s.cardsPerRow * s.cardsPerColumn / 2)
  let s := values.foldl (fun s i => { s with cardsSequence := s.cardsSequence ++ [i] ++ [i] }) s
  let newSequence ← Shuffle.shuffleArray draws s.cardsSequence
  let s := { s with cardsSequence := [] }
  .ok { s with cardsSequence := s.cardsSequence ++ newSequence }

/-- `String(format: "%i", cardIndex)`. The conversion reads 32 bits: below 2^31, as every value
of a board of fewer than 2^31 pairs is, it prints the number itself. -/
def formatInt (cardIndex : Int) : String := toString cardIndex

def createCard (posX posY : ℚ) (idx : Int) (s : PlayScene) : Checked PlayScene := do
  let anchorPoint : Point := ⟨1 / 2, 1 / 2⟩
  let zPosition : ℚ := 9
  let cardIndex ← subscript s.cardsSequence idx
  let cardName := "Number-" ++ formatInt cardIndex
  let (card, s) := s.alloc
    { image := cardName
      size := ⟨cardSizeX, cardSizeY⟩
      anchorPoint := anchorPoint
      position := ⟨posX, posY⟩
      zPosition := zPosition
      name := some (formatInt cardIndex) }
  let s := s.addChild card
  let s := { s with cards := s.cards ++ [card] }
  let (cardBack, s) := s.alloc
    { image := "CardBack"
      size := ⟨cardSizeX, cardSizeY⟩
      anchorPoint := anchorPoint
      zPosition := zPosition + 1
      position := ⟨posX, posY⟩
      name := some (formatInt cardIndex) }
  let s := s.addChild cardBack
  .ok { s with cardsBacks := s.cardsBacks ++ [cardBack] }

/-- Where the column `i` and the row `j` of the board lie, between equal gaps. -/
def cardPosition (s : PlayScene) (i j : Int) : Point :=
  let totalEmptyScapeX := s.size.width - s.cardsPerRow * cardSizeX
  let offsetX := totalEmptyScapeX / ((s.cardsPerRow + 1 : Int) : ℚ)
  let totalEmptySpaceY := s.size.height - s.cardsPerColumn * cardSizeY
  let offsetY := totalEmptySpaceY / ((s.cardsPerColumn + 1 : Int) : ℚ)
  ⟨offsetX + cardSizeX / 2 + i * (cardSizeX + offsetX),
    offsetY + cardSizeY / 2 + j * (cardSizeY + offsetY)⟩

def createCardboard (s : PlayScene) : Checked PlayScene := do
  let board := s
  let s := { s with cards := [], cardsBacks := [] }
  let columns ← closedRange 0 (s.cardsPerRow - 1)
  columns.foldlM (fun s i => do
    let rows ← closedRange 0 (s.cardsPerColumn - 1)
    rows.foldlM (fun s j =>
      let position := board.cardPosition i j
      createCard position.x position.y (i * s.cardsPerColumn + j) s) s) s

def resetCardsStatus (s : PlayScene) : Checked PlayScene := do
  let s := { s with cardsStatus := [] }
  let positions ← closedRange 0 ((s.cardsSequence.length : Int) - 1)
  .ok (positions.foldl (fun s _ => { s with cardsStatus := s.cardsStatus ++ [false] }) s)

/-- The sequence that `didMove` and `ResetGame` share. -/
def deal (draws : Draws) (s : PlayScene) : Checked PlayScene := do
  let s := removeAllCards s
  let s ← fillCardSequence draws s
  let s ← createCardboard s
  resetCardsStatus s

section Buttons

variable (assets : Assets)

def createBackGround (s : PlayScene) : Checked PlayScene := do
  let bounds ← unwrap s.view
  let (background, s) := s.alloc
    { image := "Background"
      position := ⟨s.size.width / 2, s.size.height / 2⟩
      size := ⟨bounds.width * 2, bounds.height * 2⟩
      name := some "Background" }
  .ok (s.addChild background)

def createGameButtons (s : PlayScene) : Checked PlayScene := do
  let s ← createBackGround s
  let back := assets.imageSize "back"
  let (gameBack, s) := s.alloc
    { image := "back"
      anchorPoint := ⟨1 / 2, 1 / 2⟩
      size := ⟨back.width * (3 / 4), back.height / 2⟩
      position := ⟨back.width * (3 / 4) / 2, 45⟩
      zPosition := 10
      name := some "GameBack" }
  let s := { s.addChild gameBack with gameBack := some gameBack }
  let (scoreLabel, s) := s.alloc
    { kind := .label
      fontName := "Chalkduster"
      position := ⟨s.size.width / 2 - 150, s.size.height - 40⟩
      text := "hello"
      fontSize := 32
      zPosition := 10 }
  let s := { s.addChild scoreLabel with scoreLabel := some scoreLabel }
  let (timeLabel, s) := s.alloc
    { kind := .label
      fontName := "Chalkduster"
      position := ⟨s.size.width - 150, s.size.height - 40⟩
      text := "hello"
      fontSize := 32
      zPosition := 10 }
  let s := { s.addChild timeLabel with timeLabel := some timeLabel }
  let bounds ← unwrap s.view
  let (pauseLayer, s) := s.alloc
    { image := "Background"
      position := ⟨s.size.width / 2, s.size.height / 2⟩
      zPosition := 100
      size := ⟨bounds.width * 2, bounds.height * 2⟩
      name := some "pauseLayer" }
  let s := { (s.runAction true pauseLayer).addChild pauseLayer with pauseLayer := some pauseLayer }
  let bounds ← unwrap s.view
  let (pauseImg, s) := s.alloc
    { image := "pause"
      position := ⟨s.size.width / 2, s.size.height / 2⟩
      zPosition := 100
      size := ⟨bounds.width, bounds.height⟩
      name := some "pauseImg" }
  .ok { (s.runAction true pauseImg).addChild pauseImg with pauseImg := some pauseImg }

/-- `didMove` after `SetDifficulty`; `now` is the date it reads. -/
def setUp (draws : Draws) (now : ℚ) (s : PlayScene) : Checked PlayScene := do
  let s ← createGameButtons assets s
  let s ← deal draws s
  .ok { s with pauseTimer := some now }

def didMove (draws : Draws) (now : ℚ) (s : PlayScene) : Checked PlayScene := do
  let difficulty ← unwrap s.difficulty
  setUp assets draws now (setDifficulty difficulty s)

def resetStats (s : PlayScene) : Checked PlayScene := do
  let s ← setTryCount 0 s
  let s ← setMatchesCount 0 s
  .ok { s with timer := s.time }

def resetGame (draws : Draws) (s : PlayScene) : Checked PlayScene := do
  let s ← createGameButtons assets s
  let s ← deal draws s
  resetStats s

end Buttons

def update (currentTime : ℚ) (s : PlayScene) : Checked PlayScene := do
  let delta := match s.lastUpdateTimeInterval with
    | some luti => currentTime - luti
    | none => currentTime
  let s := { s with lastUpdateTimeInterval := some currentTime }
  let s ←
    if s.firstFrame = false ∧ s.pauseState = false then do
      let timer := (← unwrap s.timer) - delta
      let timer := if timer < 0 then 0 else timer
      let s := { s with timer := some timer }
      let s := s.setText s.timeLabel ("Time: " ++ toString (truncate timer))
      updateScore s
    else .ok s
  .ok { s with firstFrame := false }

/-- `TogglePause`; `now` and `later` are the two dates it reads. -/
def togglePause (now later : ℚ) (s : PlayScene) : Checked PlayScene := do
  let pauseTimer ← unwrap s.pauseTimer
  if pauseTimer + 1 / 2 < now then
    let s := { s with pauseState := !s.pauseState, pauseTimer := some later }
    let s := s.emit (.pauseFunc s.pauseState)
    let pauseLayer ← unwrap s.pauseLayer
    let pauseImg ← unwrap s.pauseImg
    if s.pauseState then
      .ok ((s.runAction false pauseLayer).runAction false pauseImg)
    else
      .ok ((s.runAction true pauseLayer).runAction true pauseImg)
  else .ok s

/-- The handler `didMove` installs for the accelerometer. -/
def accelerometerHandler (data : Option Point) (s : PlayScene) : PlayScene :=
  match data with
  | some acceleration =>
    let s : PlayScene := { s with gravity := acceleration }
    let s := if s.lastZ < 1 / 2 ∧ acceleration.x > 1 / 2 then s.goMenu else s
    { s with lastZ := acceleration.x }
  | none => s

def deselectCards (s : PlayScene) : PlayScene :=
  { s with selectedCardIndex1 := -1, selectedCardIndex2 := -1, lockInteraction := false }

def hideSelectedCards (s : PlayScene) : Checked PlayScene := do
  let card1 ← subscript s.cards s.selectedCardIndex1
  let card2 ← subscript s.cards s.selectedCardIndex2
  .ok ((s.runAction true card1).runAction true card2).deselectCards

def setStatusCardFound (cardIndex : Int) (s : PlayScene) : Checked PlayScene := do
  let cardsStatus ← setAt s.cardsStatus cardIndex true
  .ok { s with cardsStatus := cardsStatus }

def resetSelectedCards (s : PlayScene) : Checked PlayScene :=
  if s.selectedCardIndex1 ≥ s.cardsBacks.length ∨ s.selectedCardIndex2 ≥ s.cardsBacks.length ∨
      s.selectedCardIndex1 < 0 ∨ s.selectedCardIndex2 < 0 then .ok s
  else do
    let card1 ← subscript s.cardsBacks s.selectedCardIndex1
    let card2 ← subscript s.cardsBacks s.selectedCardIndex2
    .ok ((s.runAction false card1).runAction false card2).deselectCards

/-- The loop of `CheckIfGameOver`, which breaks at the first card not found. -/
def gameOverLoop (cardsStatus : List Bool) : List Int → Checked Bool
  | [] => .ok true
  | i :: positions => do
    let found ← subscript cardsStatus i
    if found = false then .ok false else gameOverLoop cardsStatus positions

def checkIfGameOver (s : PlayScene) : Checked Bool := do
  let positions ← closedRange 0 ((s.cardsStatus.length : Int) - 1)
  gameOverLoop s.cardsStatus positions

/-- What a touch of the back at index `i` does, when interaction is not locked. -/
def touchBack (i : Int) (cardBack : Nat) (s : PlayScene) : Checked PlayScene := do
  let cardNode ← subscript s.cards i
  if s.selectedCardIndex1 = -1 then
    let name ← unwrap (s.node cardNode).name
    let s := { s with selectedCardIndex1 := i, selectedCard1Value := name }
    .ok (s.runAction true cardBack)
  else if s.selectedCardIndex2 = -1 then
    if i ≠ s.selectedCardIndex1 then
      let name ← unwrap (s.node cardNode).name
      let s :=
        { s with lockInteraction := true, selectedCardIndex2 := i, selectedCard2Value := name }
      let s := s.runAction true cardBack
      if s.selectedCard1Value = s.selectedCard2Value then
        let s := s.emit .matchedCards
        .ok { s with pending := s.pending ++ [⟨.matched, s.actionsStarted⟩] }
      else
        let s := s.emit .unmatchedCards
        .ok { s with pending := s.pending ++ [⟨.unmatched, s.actionsStarted⟩] }
    else .ok s
  else .ok s

/-- The loop of `ProcessItemTouch` over `cardsBacks`, looking for the touched node. -/
def touchLoop (nod : Nat) (i : Int) : List Nat → PlayScene → Checked PlayScene
  | [], s => .ok s
  | cardBack :: cardsBacks, s => do
    let s ← if cardBack = nod then touchBack i cardBack s else .ok s
    touchLoop nod (i + 1) cardsBacks s

def processItemTouch (nod : Nat) (s : PlayScene) : Checked PlayScene :=
  if s.pauseState then .ok s
  else do
    let s := if (s.node nod).name = some "GameBack" then s.goMenu else s
    let num := intOfString (← unwrap (s.node nod).name)
    match num with
    | some num =>
      if num > 0 then
        if s.lockInteraction then .ok s
        else touchLoop nod 0 s.cardsBacks (s.emit (.cardTouched num))
      else .ok s
    | none => .ok s

def touchesEnded (assets : Assets) (positionInScene : Point) (s : PlayScene) :
    Checked PlayScene := do
  let touchedNode ← asSprite s.node (atPoint s.node assets s.children positionInScene)
  processItemTouch touchedNode s

def matchBlock (s : PlayScene) : Checked PlayScene := do
  let s ← setStatusCardFound s.selectedCardIndex1 s
  let s ← setStatusCardFound s.selectedCardIndex2 s
  let s ← hideSelectedCards s
  let s ← setMatchesCount (s.matchesCount + 1) s
  if ← checkIfGameOver s then
    .ok s.updateRanking.goLeaderBoard
  else .ok s

def mismatchBlock (s : PlayScene) : Checked PlayScene := do
  let s ← resetSelectedCards s
  setTryCount (s.tryCount + 1) s

def runBlock : BlockKind → PlayScene → Checked PlayScene
  | .matched => matchBlock
  | .unmatched => mismatchBlock

end PlayScene

end CardsGame
