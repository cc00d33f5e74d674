import CardsGame.Selection

/-!
# A game and the shared store

All scenes of the app share one `UserDefaults`. A game only ever writes to it: whatever
another scene has put there, every event does the same to everything else.
-/
namespace CardsGame

open Swift SpriteKit
open Ranking (UserDefaults)
open Lifting (Agree)

namespace PlayScene

/-- The scene, with another content of the store. -/
def stored (defaults : UserDefaults) (s : PlayScene) : PlayScene := { s with defaults := defaults }

/-- The scenes differ at most in the store. -/
def Alike (s t : PlayScene) : Prop := ∃ defaults, t = s.stored defaults

section Functions

variable (d : UserDefaults) (s : PlayScene)

theorem setText_stored (label : Option Nat) (text : String) :
    (s.stored d).setText label text = (s.setText label text).stored d := by
  cases label with
  | none => rfl
  | some n => rfl

theorem goMenu_stored : (s.stored d).goMenu = s.goMenu.stored d := by
  simp only [goMenu, present, emit, stored]
  cases s.view with
  | none => rfl
  | some bounds => rfl

theorem goLeaderBoard_stored : (s.stored d).goLeaderBoard = s.goLeaderBoard.stored d := by
  simp only [goLeaderBoard, present, emit, stored]
  cases s.view with
  | none => rfl
  | some bounds => rfl

theorem updateScore_stored : Agree Alike (updateScore s) (updateScore (s.stored d)) := by
  refine Agree.after (unwrap s.difficulty) fun difficulty => ?_
  refine Agree.after (unwrap s.timer) fun timer => ?_
  refine .ok ⟨d, ?_⟩
  rw [← setText_stored]
  rfl

theorem setTryCount_stored (score : Int) :
    Agree Alike (setTryCount score s) (setTryCount score (s.stored d)) :=
  updateScore_stored d { s with tryCount := score }

theorem setMatchesCount_stored (score : Int) :
    Agree Alike (setMatchesCount score s) (setMatchesCount score (s.stored d)) :=
  updateScore_stored d { s with matchesCount := score }

theorem update_stored (currentTime : ℚ) :
    Agree Alike (update currentTime s) (update currentTime (s.stored d)) := by
  unfold update
  refine Agree.ite (s.firstFrame = false ∧ s.pauseState = false) ?_ (.ok ⟨d, rfl⟩)
  refine Agree.after (unwrap s.timer) fun timer => ?_
  simp only [setText_eq]
  refine (updateScore_stored d _).bind ?_
  rintro t _ ⟨d', rfl⟩
  exact .ok ⟨d', rfl⟩

theorem togglePause_stored (now later : ℚ) :
    Agree Alike (togglePause now later s) (togglePause now later (s.stored d)) := by
  refine Agree.after (unwrap s.pauseTimer) fun pauseTimer => Agree.ite _ ?_ (.ok ⟨d, rfl⟩)
  refine Agree.after (unwrap s.pauseLayer) fun pauseLayer => ?_
  refine Agree.after (unwrap s.pauseImg) fun pauseImg => ?_
  exact Agree.ite _ (.ok ⟨d, rfl⟩) (.ok ⟨d, rfl⟩)

theorem accelerometerHandler_stored (data : Option Point) :
    Alike (s.accelerometerHandler data) ((s.stored d).accelerometerHandler data) := by
  cases data with
  | none => exact ⟨d, rfl⟩
  | some acceleration =>
    refine ⟨d, ?_⟩
    have hmenu := goMenu_stored d { s with gravity := acceleration }
    unfold accelerometerHandler
    by_cases htilt : s.lastZ < 1 / 2 ∧ acceleration.x > 1 / 2
    · have htilt' : (s.stored d).lastZ < 1 / 2 ∧ acceleration.x > 1 / 2 := htilt
      simp only [if_pos htilt, if_pos htilt']
      exact congrArg (fun t : PlayScene => { t with lastZ := acceleration.x }) hmenu
    · have htilt' : ¬ ((s.stored d).lastZ < 1 / 2 ∧ acceleration.x > 1 / 2) := htilt
      simp only [if_neg htilt, if_neg htilt']
      rfl

theorem touchBack_stored (i : Int) (cardBack : Nat) :
    Agree Alike (touchBack i cardBack s) (touchBack i cardBack (s.stored d)) := by
  refine Agree.after (subscript s.cards i) fun cardNode => ?_
  refine Agree.ite _ ?_ (Agree.ite _ (Agree.ite _ ?_ (.ok ⟨d, rfl⟩)) (.ok ⟨d, rfl⟩))
  · exact Agree.after (unwrap (s.node cardNode).name) fun name => .ok ⟨d, rfl⟩
  · refine Agree.after (unwrap (s.node cardNode).name) fun name => ?_
    exact Agree.ite _ (.ok ⟨d, rfl⟩) (.ok ⟨d, rfl⟩)

theorem touchLoop_stored (nod : Nat) (i : Int) (backs : List Nat) :
    Agree Alike (touchLoop nod i backs s) (touchLoop nod i backs (s.stored d)) := by
  induction backs generalizing d s i with
  | nil => exact .ok ⟨d, rfl⟩
  | cons cardBack backs ih =>
    rw [touchLoop, touchLoop]
    refine Agree.ite (cardBack = nod) ((touchBack_stored d s i cardBack).bind ?_) (ih d s (i + 1))
    rintro t _ ⟨d', rfl⟩
    exact ih d' t (i + 1)

theorem processItemTouch_stored (nod : Nat) :
    Agree Alike (processItemTouch nod s) (processItemTouch nod (s.stored d)) := by
  cases hpause : s.pauseState with
  | true =>
    rw [processItemTouch_paused nod hpause, processItemTouch_paused (s := s.stored d) nod hpause]
    exact .ok ⟨d, rfl⟩
  | false =>
    by_cases hback : (s.node nod).name = some "GameBack"
    · rw [processItemTouch_gameBack hpause hback,
        processItemTouch_gameBack (s := s.stored d) hpause hback]
      exact .ok ⟨d, goMenu_stored d s⟩
    · rw [processItemTouch_other hpause hback,
        processItemTouch_other (s := s.stored d) hpause hback]
      refine Agree.after (unwrap (s.node nod).name) fun name => ?_
      cases intOfString name with
      | none => exact .ok ⟨d, rfl⟩
      | some num =>
        refine Agree.ite (num > 0) (Agree.ite (s.lockInteraction = true) ?_ ?_) ?_
        · exact .ok ⟨d, rfl⟩
        · exact touchLoop_stored d (s.emit (.cardTouched num)) nod 0 s.cardsBacks
        · exact .ok ⟨d, rfl⟩

theorem setStatusCardFound_stored (i : Int) :
    Agree Alike (setStatusCardFound i s) (setStatusCardFound i (s.stored d)) :=
  Agree.after (setAt s.cardsStatus i true) fun _ => .ok ⟨d, rfl⟩

theorem hideSelectedCards_stored :
    Agree Alike (hideSelectedCards s) (hideSelectedCards (s.stored d)) := by
  refine Agree.after (subscript s.cards s.selectedCardIndex1) fun card1 => ?_
  exact Agree.after (subscript s.cards s.selectedCardIndex2) fun card2 => .ok ⟨d, rfl⟩

theorem resetSelectedCards_stored :
    Agree Alike (resetSelectedCards s) (resetSelectedCards (s.stored d)) := by
  unfold resetSelectedCards
  refine Agree.ite (s.selectedCardIndex1 ≥ s.cardsBacks.length ∨
    s.selectedCardIndex2 ≥ s.cardsBacks.length ∨ s.selectedCardIndex1 < 0 ∨
      s.selectedCardIndex2 < 0) (.ok ⟨d, rfl⟩) ?_
  refine Agree.after (subscript s.cardsBacks s.selectedCardIndex1) fun card1 => ?_
  exact Agree.after (subscript s.cardsBacks s.selectedCardIndex2) fun card2 => .ok ⟨d, rfl⟩

/-- The end of a game is the only place where the store is read, to be written. -/
theorem updateRanking_stored :
    (s.stored d).updateRanking = s.updateRanking.stored (Ranking.updateRanking s.score d) := rfl

theorem matchBlock_stored : Agree Alike (matchBlock s) (matchBlock (s.stored d)) := by
  refine (setStatusCardFound_stored d s s.selectedCardIndex1).bind ?_
  rintro s _ ⟨d, rfl⟩
  refine (setStatusCardFound_stored d s s.selectedCardIndex2).bind ?_
  rintro s _ ⟨d, rfl⟩
  refine (hideSelectedCards_stored d s).bind ?_
  rintro s _ ⟨d, rfl⟩
  refine (setMatchesCount_stored d s (s.matchesCount + 1)).bind ?_
  rintro s _ ⟨d, rfl⟩
  refine Agree.after (checkIfGameOver s) fun ended => Agree.ite (ended = true) ?_ (.ok ⟨d, rfl⟩)
  rw [updateRanking_stored, goLeaderBoard_stored]
  exact .ok ⟨_, rfl⟩

theorem mismatchBlock_stored : Agree Alike (mismatchBlock s) (mismatchBlock (s.stored d)) := by
  refine (resetSelectedCards_stored d s).bind ?_
  rintro s _ ⟨d, rfl⟩
  exact setTryCount_stored d s (s.tryCount + 1)

/-- Every event does to a scene what it does with any other content of the store. -/
theorem step_stored (e : Event) : Agree Alike (step s e) (step (s.stored d) e) := by
  cases e with
  | touch nod => exact processItemTouch_stored d s nod
  | frame currentTime => exact update_stored d s currentTime
  | togglePause now later => exact togglePause_stored d s now later
  | fire b =>
    cases hkind : b.kind with
    | matched =>
      simp only [step, hkind]
      exact matchBlock_stored d { s with pending := s.pending.erase b }
    | unmatched =>
      simp only [step, hkind]
      exact mismatchBlock_stored d { s with pending := s.pending.erase b }
  | accelerometer data => exact .ok (accelerometerHandler_stored d s data)
  | evaluateActions n => exact .ok ⟨d, rfl⟩
  | leave => exact .ok ⟨d, rfl⟩

theorem onScreen_stored (e : Event) : OnScreen (s.stored d) e ↔ OnScreen s e := by
  cases e <;> exact Iff.rfl

end Functions

/-- What holds of a game between two events does not depend on the store. -/
theorem Playing.stored {base n : Nat} {h : Pairs.Hand Nat} {s : PlayScene} (d : UserDefaults)
    (hp : Playing base n h s) : Playing base n h (s.stored d) where
  board := hp.board.of_skeleton rfl
  selected := by
    cases h with
    | empty | one => exact hp.selected
    | two i j hne => exact hp.selected
  valid := hp.valid
  value1 := hp.value1
  status := hp.status
  timer := hp.timer
  pauseTimer := hp.pauseTimer

end PlayScene
end CardsGame
