import Mathlib.Logic.Relation
import CardsGame.Completion
import CardsGame.Picks
import CardsGame.Views

/-!
# The moves that a player has

A game that is shown on a board that fits offers every move of the game of pairs: a card is
turned by a touch of the point where it lies, and a pair that is turned is counted when its
block runs; a pause is ended by turning the device. So in a session the app plays the game of
pairs, all of it and nothing else.
-/
namespace CardsGame

open Swift SpriteKit
open Pairs (Hand Table)
open Ranking (UserDefaults)
open Relation (ReflTransGen)
open Runs (Run replay)
open Shuffle (Draws)

namespace PlayScene

variable {device : Device} {n : Nat} {τ τ' : Table Nat} {s t : PlayScene} {e : Event} {k : Nat}

/-- How a game is played: a point of the scene is touched, or, while nothing is done, queued
actions are evaluated and pending blocks run; and the device is turned to end a pause. -/
def Plays (s : PlayScene) : Signal → Prop
  | .touchesEnded p => Within s.size p
  | .event (.evaluateActions _) | .event (.fire _) => True
  | .event (.togglePause _ _) => s.pauseState = true
  | _ => False

/-- The scene receives such an event, or a touch at a point where the node is in front. -/
def Offers (device : Device) (s : PlayScene) (e : Event) : Prop :=
  s.Receives e ∧ s.Plays (.event e) ∨
    ∃ nod p, e = .touch nod ∧ Within s.size p ∧ s.view.isSome = true ∧
      asSprite s.node (atPoint s.node device.assets s.children p) = .ok nod

theorem Offers.may (h : Offers device s e) : May s e := by
  obtain ⟨hreceives, -⟩ | ⟨nod, p, rfl, -, -, hsprite⟩ := h
  · exact hreceives.1
  · obtain ⟨hfront, -⟩ := (asSprite_eq_ok s.node).mp hsprite
    obtain ⟨hmem, hit, -⟩ := atPoint_eq_some s.node device.assets p hfront
    exact ⟨⟨trivial, hmem, hit.1⟩, trivial⟩

/-- A game that is shown, and goes on, on a board that fits. -/
structure Ready (device : Device) (n : Nat) (τ : Table Nat) (s : PlayScene) : Prop where
  alone : s.Alone device
  shows : Shows 6 n τ s
  view : s.view.isSome = true
  unpaused : s.pauseState = false
  fits : Fits s

/-- A touch or a block leaves it so. -/
theorem Ready.played (h : Ready device n τ s) (ho : Offers device s e) (hplayed : Played e)
    (hs : step s e = .ok t) (hshows : Shows 6 n τ' t) : Ready device n τ' t := by
  have hbackdrop := backdrop_step hplayed hs
  have hview : t.backdrop.view = s.backdrop.view := by rw [hbackdrop]
  have hpause : t.backdrop.pauseState = s.backdrop.pauseState := by rw [hbackdrop]
  have hfits : Fits t.backdrop ↔ Fits s.backdrop := by rw [hbackdrop]
  refine ⟨h.alone.step ho.may hs, hshows, ?_, ?_, hfits.mpr h.fits⟩
  · exact (congrArg Option.isSome hview).trans h.view
  · exact Eq.trans hpause h.unpaused

theorem offers_evaluations (device : Device) (s : PlayScene) :
    Run step (Offers device) s (s.children.map .evaluateActions) s.atRest := by
  have hrun : Run step Helpful s (s.children.map .evaluateActions) s.atRest :=
    run_evaluated fun _ h => h
  have hkind : ∀ e ∈ s.children.map Event.evaluateActions, ∃ m, e = .evaluateActions m := by
    intro e he
    obtain ⟨m, -, rfl⟩ := List.mem_map.mp he
    exact ⟨m, rfl⟩
  refine (hrun.restrict hkind).mono ?_
  rintro s e ⟨hhelpful, m, rfl⟩
  exact .inl ⟨⟨⟨hhelpful.1, trivial⟩, trivial⟩, trivial⟩

theorem alone_of_offers {es : List Event} (h : s.Alone device)
    (hrun : Run step (Offers device) s es t) : t.Alone device :=
  hrun.preserves (I := Alone device) (fun _ _ _ h ho hs => h.step ho.may hs) h

theorem Ready.atRest (h : Ready device n τ s) : Ready device n τ s.atRest :=
  ⟨alone_of_offers h.alone (offers_evaluations device s), (quiet_atRest 6 s).shows h.shows, h.view,
    h.unpaused, h.fits⟩

/-- On a board that fits, every point of a card is one of the scene. -/
theorem Fits.within (hfits : Fits s) {i j : Int} (hslot : Slot s i j) {p : Point}
    (hp : (cardRect ⟨cardSizeX, cardSizeY⟩ s i j).Contains p) : Within s.size p := by
  have hrow : 1 ≤ s.cardsPerRow := hslot.1.trans_lt hslot.2.1
  have hcolumn : 1 ≤ s.cardsPerColumn := hslot.2.2.1.trans_lt hslot.2.2.2
  have hcard : 0 < (Size.mk cardSizeX cardSizeY).width ∧
      0 < (Size.mk cardSizeX cardSizeY).height := by
    norm_num [cardSizeX, cardSizeY]
  have hinside : Inside s.size (cardRect ⟨cardSizeX, cardSizeY⟩ s i j) :=
    (inside_iff hrow hcolumn hcard).mpr hfits i j hslot
  obtain ⟨hleft, hright, hbottom, htop⟩ := hinside
  obtain ⟨hx, hx', hy, hy'⟩ := hp
  refine ⟨hleft.trans hx, ?_, hbottom.trans hy, ?_⟩
  · exact (hx'.trans_le hright).trans_eq (zero_add _).symm
  · exact (hy'.trans_le htop).trans_eq (zero_add _).symm

end PlayScene

namespace App

open PlayScene

variable {device : Device} {s t u : App} {es fs : List AppEvent}
  {game game' : PlayScene} {index : Nat}

/-- The session goes on by playing the game at `index`, and nothing else. -/
def Plays (index : Nat) (t : App) (e : AppEvent) : Prop :=
  t.Receives e ∧ ∃ game signal draws now, t.gameAt index = some game ∧
    e = .signal index signal draws now ∧ game.Plays signal

theorem Plays.run (h : Run (step device) (Plays index) t fs u) :
    Run (step device) Receives t fs u ∧ ∀ e ∈ fs, e ≠ .launch := by
  refine ⟨h.mono fun _ _ h => h.1, ?_⟩
  induction h with
  | nil => simp
  | cons hm _ _ ih =>
    obtain ⟨-, _, _, _, _, -, rfl, -⟩ := hm
    simpa using ih

end App
end CardsGame
