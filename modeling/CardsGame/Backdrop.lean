import CardsGame.Events

/-!
# What touches and blocks leave alone

Whatever state a scene is in, a touch and a delayed block change the selection, the
counters, the actions of nodes and what the scene puts out, and nothing else.
`backdrop` is the rest.
-/
namespace CardsGame

open Swift SpriteKit
open Ranking (UserDefaults)

namespace PlayScene

/-- The scene without what its touches and blocks change. -/
def backdrop (s : PlayScene) : PlayScene :=
  { s with
    cardsStatus := []
    selectedCardIndex1 := -1
    selectedCardIndex2 := -1
    selectedCard1Value := ""
    selectedCard2Value := ""
    lockInteraction := false
    matchesCount := 0
    tryCount := 0
    score := 0
    node := fun n => (s.node n).fixed
    actionsStarted := 0
    pending := []
    defaults := UserDefaults.empty
    presented := []
    effects := [] }

variable {s t : PlayScene}

theorem backdrop_runAction (hides : Bool) (n : Nat) (s : PlayScene) :
    (s.runAction hides n).backdrop = s.backdrop := by
  simp only [backdrop, runAction, fixed_queued]

theorem backdrop_goMenu (s : PlayScene) : s.goMenu.backdrop = s.backdrop := by
  obtain ⟨presented, effects, heq⟩ := s.goMenu_eq
  rw [heq]
  rfl

theorem backdrop_goLeaderBoard (s : PlayScene) : s.goLeaderBoard.backdrop = s.backdrop := by
  unfold goLeaderBoard present
  split <;> rfl

theorem backdrop_updateScore (h : updateScore s = .ok t) : t.backdrop = s.backdrop := by
  obtain ⟨difficulty, timer, -, -, rfl⟩ := updateScore_eq_ok h
  simp only [backdrop, scored, fixed_retext]

theorem backdrop_touchBack {i : Int} {cardBack : Nat} (h : touchBack i cardBack s = .ok t) :
    t.backdrop = s.backdrop := by
  obtain ⟨cardNode, -, h⟩ := bind_eq_ok.mp h
  split at h
  · obtain ⟨name, -, h⟩ := bind_eq_ok.mp h
    cases h
    exact backdrop_runAction _ _ _
  · split at h
    · split at h
      · obtain ⟨name, -, h⟩ := bind_eq_ok.mp h
        dsimp only at h
        split at h
        · cases h
          exact backdrop_runAction true cardBack s
        · cases h
          exact backdrop_runAction true cardBack s
      · cases h
        rfl
    · cases h
      rfl

theorem backdrop_touchLoop {nod : Nat} {i : Int} {backs : List Nat}
    (h : touchLoop nod i backs s = .ok t) : t.backdrop = s.backdrop := by
  induction backs generalizing i s with
  | nil =>
    cases h
    rfl
  | cons back backs ih =>
    by_cases heq : back = nod
    · subst heq
      rw [touchLoop_cons_self] at h
      obtain ⟨u, hu, h⟩ := bind_eq_ok.mp h
      rw [ih h, backdrop_touchBack hu]
    · rw [touchLoop_cons_ne heq] at h
      exact ih h

theorem backdrop_touch {nod : Nat} (h : processItemTouch nod s = .ok t) :
    t.backdrop = s.backdrop := by
  obtain rfl | rfl | ⟨-, -, num, hloop⟩ := processItemTouch_eq_ok h
  · rfl
  · exact backdrop_goMenu s
  · exact (backdrop_touchLoop hloop).trans rfl

theorem backdrop_hideSelectedCards (h : hideSelectedCards s = .ok t) :
    t.backdrop = s.backdrop := by
  obtain ⟨card1, -, h⟩ := bind_eq_ok.mp h
  obtain ⟨card2, -, h⟩ := bind_eq_ok.mp h
  cases h
  exact (backdrop_runAction true card2 _).trans (backdrop_runAction true card1 s)

theorem backdrop_resetSelectedCards (h : resetSelectedCards s = .ok t) :
    t.backdrop = s.backdrop := by
  unfold resetSelectedCards at h
  split at h
  · cases h
    rfl
  · obtain ⟨card1, -, h⟩ := bind_eq_ok.mp h
    obtain ⟨card2, -, h⟩ := bind_eq_ok.mp h
    cases h
    exact (backdrop_runAction false card2 _).trans (backdrop_runAction false card1 s)

theorem backdrop_setStatusCardFound {i : Int} (h : setStatusCardFound i s = .ok t) :
    t.backdrop = s.backdrop := by
  obtain ⟨status, -, h⟩ := bind_eq_ok.mp h
  cases h
  rfl

theorem backdrop_matchBlock (h : matchBlock s = .ok t) : t.backdrop = s.backdrop := by
  obtain ⟨s1, h1, h⟩ := bind_eq_ok.mp h
  obtain ⟨s2, h2, h⟩ := bind_eq_ok.mp h
  obtain ⟨s3, h3, h⟩ := bind_eq_ok.mp h
  obtain ⟨s4, h4, h⟩ := bind_eq_ok.mp h
  obtain ⟨ended, -, h⟩ := bind_eq_ok.mp h
  have hscore : s4.backdrop = s3.backdrop := (backdrop_updateScore h4).trans rfl
  have hblock : s4.backdrop = s.backdrop := by
    rw [hscore, backdrop_hideSelectedCards h3, backdrop_setStatusCardFound h2,
      backdrop_setStatusCardFound h1]
  split at h
  · cases h
    exact ((backdrop_goLeaderBoard s4.updateRanking).trans rfl).trans hblock
  · cases h
    exact hblock

theorem backdrop_mismatchBlock (h : mismatchBlock s = .ok t) : t.backdrop = s.backdrop := by
  obtain ⟨u, hu, h⟩ := bind_eq_ok.mp h
  have hscore : t.backdrop = u.backdrop := (backdrop_updateScore h).trans rfl
  exact hscore.trans (backdrop_resetSelectedCards hu)

theorem backdrop_runBlock {kind : BlockKind} (h : runBlock kind s = .ok t) :
    t.backdrop = s.backdrop := by
  cases kind with
  | matched => exact backdrop_matchBlock h
  | unmatched => exact backdrop_mismatchBlock h

theorem accelerometerHandler_eq (data : Option Point) (s : PlayScene) :
    ∃ gravity lastZ presented effects, s.accelerometerHandler data =
      { s with gravity, lastZ, presented, effects } := by
  cases data with
  | none => exact ⟨_, _, _, _, rfl⟩
  | some acceleration =>
    unfold accelerometerHandler
    dsimp only
    split
    · obtain ⟨presented, effects, heq⟩ := goMenu_eq { s with gravity := acceleration }
      rw [heq]
      exact ⟨_, _, _, _, rfl⟩
    · exact ⟨_, _, _, _, rfl⟩

/-- The events that move the game itself. -/
def Played : Event → Prop
  | .touch _ | .fire _ => True
  | _ => False

theorem backdrop_step {e : Event} (hplayed : Played e) (h : step s e = .ok t) :
    t.backdrop = s.backdrop := by
  cases e with
  | touch nod => exact backdrop_touch h
  | fire b => exact (backdrop_runBlock h).trans rfl
  | frame | togglePause | accelerometer | evaluateActions | leave => exact hplayed.elim

/-- No event but `leave` takes the view away, and none gives it back. -/
theorem view_kept {s t : PlayScene} {e : Event} (hs : step s e = .ok t) (hleave : e ≠ .leave) :
    t.view = s.view := by
  cases e with
  | leave => exact absurd rfl hleave
  | touch nod =>
    have hview := congrArg PlayScene.view (backdrop_step (e := .touch nod) trivial hs)
    exact hview
  | fire b =>
    have hview := congrArg PlayScene.view (backdrop_step (e := .fire b) trivial hs)
    exact hview
  | frame currentTime =>
    obtain ⟨-, rfl⟩ | ⟨-, difficulty, timer, -, -, rfl⟩ := update_eq_ok hs <;> rfl
  | togglePause now later =>
    obtain ⟨rfl, -⟩ | ⟨-, pauseLayer, pauseImg, -, -, rfl⟩ := togglePause_eq_ok hs <;> rfl
  | accelerometer data =>
    cases hs
    obtain ⟨gravity, lastZ, presented, effects, heq⟩ := accelerometerHandler_eq data s
    rw [heq]
  | evaluateActions m =>
    cases hs
    rfl

end PlayScene
end CardsGame
