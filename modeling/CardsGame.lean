import CardsGame.Swift
import CardsGame.Runs
import CardsGame.SpriteKit
import CardsGame.Ranking
import CardsGame.Cycles
import CardsGame.Shuffle
import CardsGame.Arrangements
import CardsGame.PlayScene
import CardsGame.Deal
import CardsGame.Spread
import CardsGame.Layout
import CardsGame.Pairs
import CardsGame.Events
import CardsGame.Backdrop
import CardsGame.Board
import CardsGame.Countdown
import CardsGame.Timing
import CardsGame.Edges
import CardsGame.Tilt
import CardsGame.Selection
import CardsGame.Found
import CardsGame.Score
import CardsGame.Completion
import CardsGame.Pause
import CardsGame.Reset
import CardsGame.Menus
import CardsGame.Touch
import CardsGame.Fresh
import CardsGame.Store
import CardsGame.App
import CardsGame.Games
import CardsGame.Standings
import CardsGame.Volume
import CardsGame.Display
import CardsGame.Toggles
import CardsGame.Traps
import CardsGame.Views
import CardsGame.Ways
import CardsGame.Turns
import CardsGame.Picks
import CardsGame.Moves
import CardsGame.Deals
