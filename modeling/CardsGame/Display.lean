import CardsGame.Backdrop
import CardsGame.Fresh

/-!
# What is shown around the cards

The two labels are written where the numbers they show are computed, and the pause layer
and image are shown and hidden where the pause is toggled. So none of them is ever stale,
apart from the texts the labels are made with.
-/
namespace CardsGame

open Swift SpriteKit
open Pairs (Hand)
open Runs (Run)

namespace PlayScene

theorem text_queued (n : Nat) (a : Action) (node : Nat → Node) (m : Nat) :
    (Function.update node n ((node n).queue a) m).text = (node m).text := by
  by_cases h : m = n
  · subst h
    rw [Function.update_self]
    rfl
  · rw [Function.update_of_ne h]

theorem text_queuePair (hides : Bool) (n1 n2 ordinal : Nat) (node : Nat → Node) (m : Nat) :
    (queuePair hides n1 n2 ordinal node m).text = (node m).text :=
  (text_queued n2 _ _ m).trans (text_queued n1 _ node m)

theorem text_retext (n : Nat) (text : String) (node : Nat → Node) :
    (retext (some n) text node n).text = text := by
  rw [retext, Function.update_self]

/-- The event leaves alone what is shown, and what the labels show, at nodes like these. -/
structure Steady (P : Nat → Prop) (s t : PlayScene) : Prop where
  skeleton : t.skeleton = s.skeleton
  pauseState : t.pauseState = s.pauseState
  score : t.score = s.score
  matchesCount : t.matchesCount = s.matchesCount
  tryCount : t.tryCount = s.tryCount
  timer : t.timer = s.timer
  text : ∀ m, P m → (t.node m).text = (s.node m).text
  settled : ∀ m, P m → (t.node m).settled = (s.node m).settled

section Steady

variable {P : Nat → Prop} {s t u : PlayScene}

theorem steady_refl (P : Nat → Prop) (s : PlayScene) : Steady P s s :=
  ⟨rfl, rfl, rfl, rfl, rfl, rfl, fun _ _ => rfl, fun _ _ => rfl⟩

theorem Steady.trans (h : Steady P s t) (h' : Steady P t u) : Steady P s u where
  skeleton := h'.skeleton.trans h.skeleton
  pauseState := h'.pauseState.trans h.pauseState
  score := h'.score.trans h.score
  matchesCount := h'.matchesCount.trans h.matchesCount
  tryCount := h'.tryCount.trans h.tryCount
  timer := h'.timer.trans h.timer
  text := fun m hm => (h'.text m hm).trans (h.text m hm)
  settled := fun m hm => (h'.settled m hm).trans (h.settled m hm)

theorem Steady.mono {Q : Nat → Prop} (h : Steady P s t) (hle : ∀ m, Q m → P m) : Steady Q s t where
  skeleton := h.skeleton
  pauseState := h.pauseState
  score := h.score
  matchesCount := h.matchesCount
  tryCount := h.tryCount
  timer := h.timer
  text := fun m hm => h.text m (hle m hm)
  settled := fun m hm => h.settled m (hle m hm)

/-- An action is queued on another node. -/
theorem steady_runAction (hides : Bool) (n : Nat) (s : PlayScene) :
    Steady (· ≠ n) s (s.runAction hides n) where
  skeleton := by simp only [skeleton, runAction, fixed_queued]
  pauseState := rfl
  score := rfl
  matchesCount := rfl
  tryCount := rfl
  timer := rfl
  text := fun m _ => text_queued n _ s.node m
  settled := fun m hm => (settled_queued n _ s.node m).trans (if_neg hm)

theorem steady_goMenu (P : Nat → Prop) (s : PlayScene) : Steady P s s.goMenu := by
  obtain ⟨presented, effects, heq⟩ := s.goMenu_eq
  rw [heq]
  exact ⟨rfl, rfl, rfl, rfl, rfl, rfl, fun _ _ => rfl, fun _ _ => rfl⟩

theorem steady_touchBack {i : Int} {cardBack : Nat} (h : touchBack i cardBack s = .ok t) :
    Steady (· ≠ cardBack) s t := by
  obtain ⟨cardNode, -, h⟩ := bind_eq_ok.mp h
  have hhide := steady_runAction true cardBack s
  split at h
  · obtain ⟨name, -, h⟩ := bind_eq_ok.mp h
    cases h
    exact ⟨hhide.skeleton, rfl, rfl, rfl, rfl, rfl, hhide.text, hhide.settled⟩
  · split at h
    · split at h
      · obtain ⟨name, -, h⟩ := bind_eq_ok.mp h
        dsimp only at h
        split at h
        · cases h
          exact ⟨hhide.skeleton, rfl, rfl, rfl, rfl, rfl, hhide.text, hhide.settled⟩
        · cases h
          exact ⟨hhide.skeleton, rfl, rfl, rfl, rfl, rfl, hhide.text, hhide.settled⟩
      · cases h
        exact steady_refl _ s
    · cases h
      exact steady_refl _ s

theorem steady_touchLoop {nod : Nat} {i : Int} {backs : List Nat}
    (h : touchLoop nod i backs s = .ok t) : Steady (· ∉ backs) s t := by
  induction backs generalizing i s with
  | nil =>
    cases h
    exact steady_refl _ _
  | cons back backs ih =>
    by_cases heq : back = nod
    · subst heq
      rw [touchLoop_cons_self] at h
      obtain ⟨u, hu, h⟩ := bind_eq_ok.mp h
      refine ((steady_touchBack hu).mono ?_).trans ((ih h).mono ?_)
      · exact fun m hm => List.ne_of_not_mem_cons hm
      · exact fun m hm => List.not_mem_of_not_mem_cons hm
    · rw [touchLoop_cons_ne heq] at h
      exact (ih h).mono fun m hm => List.not_mem_of_not_mem_cons hm

/-- A touch changes the display of card backs only. -/
theorem steady_touch {nod : Nat} (h : processItemTouch nod s = .ok t) :
    Steady (· ∉ s.cardsBacks) s t := by
  obtain rfl | rfl | ⟨-, -, num, hloop⟩ := processItemTouch_eq_ok h
  · exact steady_refl _ _
  · exact steady_goMenu _ s
  · have hemit : Steady (· ∉ s.cardsBacks) s (s.emit (.cardTouched num)) :=
      ⟨rfl, rfl, rfl, rfl, rfl, rfl, fun _ _ => rfl, fun _ _ => rfl⟩
    exact hemit.trans (steady_touchLoop hloop)

theorem steady_accelerometer (P : Nat → Prop) (data : Option Point) (s : PlayScene) :
    Steady P s (s.accelerometerHandler data) := by
  obtain ⟨gravity, lastZ, presented, effects, heq⟩ := accelerometerHandler_eq data s
  rw [heq]
  exact ⟨rfl, rfl, rfl, rfl, rfl, rfl, fun _ _ => rfl, fun _ _ => rfl⟩

theorem steady_evaluate (P : Nat → Prop) (n : Nat) (s : PlayScene) :
    Steady P s (s.evaluateActions n) := by
  have hnode : ∀ m, (s.evaluateActions n).node m = s.node m ∨
      (s.evaluateActions n).node m = (s.node m).evaluate := by
    intro m
    by_cases h : m = n
    · subst h
      exact .inr (Function.update_self _ _ _)
    · exact .inl (Function.update_of_ne h _ _)
  refine ⟨skeleton_step (e := .evaluateActions n) rfl, rfl, rfl, rfl, rfl, rfl, ?_, ?_⟩
  · intro m _
    obtain h | h := hnode m
    · rw [h]
    · rw [h]
      rfl
  · intro m _
    obtain h | h := hnode m
    · rw [h]
    · rw [h, Node.settled_evaluate]

end Steady

/-- The text of the score label, and of the time label. -/
def scoreText (s : PlayScene) : Option String := s.scoreLabel.map fun m => (s.node m).text
def timeText (s : PlayScene) : Option String := s.timeLabel.map fun m => (s.node m).text

/-- The score label is as it was made, and nothing counts yet, or it shows the score that
the counters and the timer give. -/
def ScoreShown (s : PlayScene) : Prop :=
  (s.scoreText = some "hello" ∧ s.score = 0 ∧ s.matchesCount = 0 ∧ s.tryCount = 0 ∧
      s.timer = s.time) ∨
    (s.scoreText = some ("Score: " ++ toString s.score) ∧ ScoreUpToDate s)

/-- The time label is as it was made, and no time has passed, or it shows the seconds left. -/
def TimeShown (s : PlayScene) : Prop :=
  (s.timeText = some "hello" ∧ s.timer = s.time) ∨
    ∃ timer, s.timer = some timer ∧ s.timeText = some ("Time: " ++ toString (truncate timer))

/-- Two labels, and what is shown around the cards is what it should be. -/
structure Displays (s : PlayScene) : Prop where
  labels : ∃ scoreLabel timeLabel, s.scoreLabel = some scoreLabel ∧ s.timeLabel = some timeLabel ∧
    scoreLabel ≠ timeLabel
  score : ScoreShown s
  time : TimeShown s
  pause : PauseShown s

section Displays

variable {base n : Nat} {h h' : Hand Nat} {s t : PlayScene}

/-- The nodes of the display lie below the cards. -/
theorem Board.around (hb : Board base n s) {m : Nat}
    (hm : s.scoreLabel = some m ∨ s.timeLabel = some m ∨
      s.pauseLayer = some m ∨ s.pauseImg = some m) : m < base := by
  obtain ⟨layer, img, hl, hi, hlayer, himg⟩ := hb.pauseNodes
  obtain hm | hm | hm | hm := hm
  · exact hb.scoreLabel m hm
  · exact hb.timeLabel m hm
  · cases hl.symm.trans hm
    exact hlayer
  · cases hi.symm.trans hm
    exact himg

/-- What the skeleton keeps of the display. -/
theorem display_of_skeleton (h : t.skeleton = s.skeleton) : t.scoreLabel = s.scoreLabel ∧
    t.timeLabel = s.timeLabel ∧ t.pauseLayer = s.pauseLayer ∧ t.pauseImg = s.pauseImg ∧
    t.difficulty = s.difficulty ∧ t.time = s.time := by
  have hscore := congrArg PlayScene.scoreLabel h
  have htime := congrArg PlayScene.timeLabel h
  have hlayer := congrArg PlayScene.pauseLayer h
  have himg := congrArg PlayScene.pauseImg h
  have hdifficulty := congrArg PlayScene.difficulty h
  have htimer := congrArg PlayScene.time h
  exact ⟨hscore, htime, hlayer, himg, hdifficulty, htimer⟩

theorem Steady.timeShown (hst : Steady (· < base) s t) (hb : Board base n s) (hs : TimeShown s) :
    TimeShown t := by
  obtain ⟨-, htime, -, -, -, htotal⟩ := display_of_skeleton hst.skeleton
  have htext : t.timeText = s.timeText := by
    rw [timeText, timeText, htime]
    exact Option.map_congr fun m hm => hst.text m (hb.around (.inr (.inl hm)))
  unfold TimeShown
  rw [htext, hst.timer, htotal]
  exact hs

theorem Steady.pauseShown (hst : Steady (· < base) s t) (hb : Board base n s) (hs : PauseShown s) :
    PauseShown t := by
  obtain ⟨-, -, hlayer, himg, -, -⟩ := display_of_skeleton hst.skeleton
  intro m hm
  rw [hlayer, himg] at hm
  rw [hst.settled m (hb.around (.inr (.inr hm))), hst.pauseState]
  exact hs m hm

theorem Steady.displays (hst : Steady (· < base) s t) (hb : Board base n s) (hs : Displays s) :
    Displays t := by
  obtain ⟨hscore, htime, -, -, hdifficulty, htotal⟩ := display_of_skeleton hst.skeleton
  have htext : t.scoreText = s.scoreText := by
    rw [scoreText, scoreText, hscore]
    exact Option.map_congr fun m hm => hst.text m (hb.around (.inl hm))
  refine ⟨?_, ?_, hst.timeShown hb hs.time, hst.pauseShown hb hs.pause⟩
  · rw [hscore, htime]
    exact hs.labels
  · unfold ScoreShown ScoreUpToDate scoreFor
    rw [htext, hst.score, hst.matchesCount, hst.tryCount, hst.timer, htotal, hdifficulty]
    exact hs.score

/-- `UpdateScore` writes the score label, and nothing else that is shown. -/
theorem displays_scored {difficulty : Int} {timer : ℚ} (hd : s.difficulty = some difficulty)
    (ht : s.timer = some timer) (hlabels : ∃ scoreLabel timeLabel, s.scoreLabel = some scoreLabel ∧
      s.timeLabel = some timeLabel ∧ scoreLabel ≠ timeLabel) (htime : TimeShown s)
    (hpause : PauseShown s) : Displays (s.scored difficulty timer) := by
  obtain ⟨scoreLabel, timeLabel, hsl, htl, hne⟩ := hlabels
  refine ⟨⟨scoreLabel, timeLabel, hsl, htl, hne⟩, .inr ⟨?_, difficulty, timer, hd, ht, rfl⟩, ?_, ?_⟩
  · change s.scoreLabel.map (fun m => (retext s.scoreLabel _ s.node m).text) = _
    rw [hsl, Option.map_some, text_retext]
    rfl
  · have htext : (s.scored difficulty timer).timeText = s.timeText := by
      change s.timeLabel.map (fun m => (retext s.scoreLabel _ s.node m).text) = s.timeText
      rw [timeText, htl, Option.map_some, hsl, retext_of_ne (by simpa using hne)]
      rfl
    unfold TimeShown
    rw [htext]
    exact htime
  · intro m hm
    change (retext s.scoreLabel _ s.node m).settled = !s.pauseState
    rw [settled_retext]
    exact hpause m hm

theorem steady_pair {i j n1 n2 : Nat} (h1 : base ≤ n1) (h2 : base ≤ n2) (s : PlayScene) :
    Steady (· < base) { s with matchesCount := s.matchesCount + 1 } (s.pairFound i j n1 n2) ∧
      Steady (· < base) { s with tryCount := s.tryCount + 1 } (s.pairMissed n1 n2) := by
  have htext : ∀ hides m,
      (queuePair hides n1 n2 s.actionsStarted s.node m).text = (s.node m).text :=
    fun hides m => text_queuePair hides n1 n2 s.actionsStarted s.node m
  have hsettled : ∀ hides m, m < base →
      (queuePair hides n1 n2 s.actionsStarted s.node m).settled = (s.node m).settled := by
    intro hides m hm
    rw [queuePair_other (by omega) (by omega)]
  refine ⟨⟨?_, rfl, rfl, rfl, rfl, rfl, fun m _ => htext true m, hsettled true⟩,
    ⟨?_, rfl, rfl, rfl, rfl, rfl, fun m _ => htext false m, hsettled false⟩⟩
  · simp only [skeleton, pairFound, fixed_queuePair]
  · simp only [skeleton, pairMissed, fixed_queuePair]

/-- The new time is shown, and then the score. -/
theorem displays_counted {difficulty : Int} {timer currentTime : ℚ}
    (hd : s.difficulty = some difficulty) (hs : Displays s) :
    Displays (s.counted difficulty timer currentTime) := by
  obtain ⟨scoreLabel, timeLabel, hsl, htl, hne⟩ := hs.labels
  have htime : TimeShown (s.clocked timer currentTime) := by
    refine .inr ⟨s.remaining timer currentTime, rfl, ?_⟩
    change s.timeLabel.map (fun m => (retext s.timeLabel _ s.node m).text) = _
    rw [htl, Option.map_some, text_retext]
  have hpause : PauseShown (s.clocked timer currentTime) := by
    intro m hm
    change (retext s.timeLabel _ s.node m).settled = !s.pauseState
    rw [settled_retext]
    exact hs.pause m hm
  have hscored : Displays ((s.clocked timer currentTime).scored difficulty _) :=
    displays_scored hd rfl ⟨scoreLabel, timeLabel, hsl, htl, hne⟩ htime hpause
  exact ⟨hscored.labels, hscored.score, hscored.time, hscored.pause⟩

theorem displays_toggled {later : ℚ} {pauseLayer pauseImg : Nat}
    (hl : s.pauseLayer = some pauseLayer) (hi : s.pauseImg = some pauseImg) (hs : Displays s) :
    Displays (s.toggled later pauseLayer pauseImg) := by
  have htext : ∀ m, ((s.toggled later pauseLayer pauseImg).node m).text = (s.node m).text :=
    fun m => text_queuePair _ _ _ _ s.node m
  refine ⟨hs.labels, ?_, ?_, ?_⟩
  · have hscore : (s.toggled later pauseLayer pauseImg).scoreText = s.scoreText :=
      Option.map_congr fun m _ => htext m
    unfold ScoreShown
    rw [hscore]
    exact hs.score
  · have htime : (s.toggled later pauseLayer pauseImg).timeText = s.timeText :=
      Option.map_congr fun m _ => htext m
    unfold TimeShown
    rw [htime]
    exact hs.time
  · intro m hm
    have hm' : m = pauseLayer ∨ m = pauseImg := by
      obtain hm | hm := hm
      · exact .inl (Option.some.inj (hm.symm.trans hl))
      · exact .inr (Option.some.inj (hm.symm.trans hi))
    change (queuePair s.pauseState pauseLayer pauseImg s.actionsStarted s.node m).settled =
      !!s.pauseState
    rw [settled_queuePair, if_pos hm', Bool.not_not]

theorem displays_finished (hs : Displays s) : Displays s.finished := by
  obtain ⟨defaults, presented, effects, heq⟩ := s.finished_eq
  rw [heq]
  exact ⟨hs.labels, hs.score, hs.time, hs.pause⟩

theorem Steady.displays_scored {difficulty : Int} {timer : ℚ} (hst : Steady (· < base) s t)
    (hb : Board base n s) (hd : s.difficulty = some difficulty) (ht : s.timer = some timer)
    (hlabels : ∃ scoreLabel timeLabel, s.scoreLabel = some scoreLabel ∧
      s.timeLabel = some timeLabel ∧ scoreLabel ≠ timeLabel) (htime : TimeShown s)
    (hpause : PauseShown s) : Displays (t.scored difficulty timer) := by
  obtain ⟨hscoreLabel, htimeLabel, -, -, hdifficulty, -⟩ := display_of_skeleton hst.skeleton
  refine PlayScene.displays_scored (hdifficulty.trans hd) (hst.timer.trans ht) ?_
    (hst.timeShown hb htime) (hst.pauseShown hb hpause)
  rw [hscoreLabel, htimeLabel]
  exact hlabels

/-- The blocks write the score after they have moved the counters. -/
theorem displays_fire {b : Block} (hb : Board base n s) (hs : Displays s)
    (ho : Outcome base n s h (.fire b) t h') : Displays t := by
  have hfront : ∀ k, base ≤ frontId base k := fun k => by simp only [frontId]; omega
  have hback : ∀ k, base ≤ backId base k := fun k => by simp only [backId]; omega
  cases ho with
  | quiet hfire hquiet => exact absurd rfl (hfire b)
  | @found i j _ after difficulty timer hvalue hpending hd ht =>
    have hsteady := (steady_pair (i := i) (j := j) (hfront i) (hfront j) { s with pending := [] }).1
    exact displays_finished
      (hsteady.displays_scored (hb.of_skeleton rfl) hd ht hs.labels hs.time hs.pause)
  | @missed i j _ after difficulty timer hvalue hpending hd ht =>
    have hsteady := (steady_pair (i := i) (j := j) (hback i) (hback j) { s with pending := [] }).2
    exact hsteady.displays_scored (hb.of_skeleton rfl) hd ht hs.labels hs.time hs.pause

theorem Displays.step (hp : Playing base n h s) (hs : Displays s) {e : Event} (ho : Occurs s e)
    (hstep : step s e = .ok t) : Displays t := by
  have hb := hp.board
  cases e with
  | touch nod =>
    refine ((steady_touch hstep).mono ?_).displays hb hs
    intro m hm hmem
    obtain ⟨k, -, rfl⟩ := hb.mem_backs.mp hmem
    simp only [backId] at hm
    omega
  | frame currentTime =>
    obtain ⟨-, rfl⟩ | ⟨-, difficulty, timer, hd, -, rfl⟩ := update_eq_ok hstep
    · exact ⟨hs.labels, hs.score, hs.time, hs.pause⟩
    · exact displays_counted hd hs
  | togglePause now later =>
    obtain ⟨rfl, -⟩ | ⟨-, pauseLayer, pauseImg, hl, hi, rfl⟩ := togglePause_eq_ok hstep
    · exact hs
    · exact displays_toggled hl hi hs
  | fire b =>
    obtain ⟨h', houtcome⟩ := outcome_of_step hp ho hstep
    exact displays_fire hb hs houtcome
  | accelerometer data =>
    cases hstep
    exact (steady_accelerometer _ data s).displays hb hs
  | evaluateActions m =>
    cases hstep
    exact (steady_evaluate _ m s).displays hb hs
  | leave =>
    cases hstep
    exact ⟨hs.labels, hs.score, hs.time, hs.pause⟩

end Displays

/-- A game starts with both labels as they are made, and the pause hidden. -/
theorem opened_displays (g : Game) {n : Nat} {sequence : List Int} (hn : Dealable g.scene n)
    (hperm : sequence.Perm (pairs n)) : Displays (g.opened sequence) := by
  have hnode : ∀ m, m < 6 → (g.opened sequence).node m = buttonNode g.assets g.bounds g.scene m :=
    fun m hm => g.node_opened_button sequence hm
  have hpause := (opened_fresh g hn hperm).pauseShown
  refine ⟨⟨2, 3, rfl, rfl, by decide⟩, .inl ⟨?_, rfl, rfl, rfl, rfl⟩, .inl ⟨?_, rfl⟩, ?_⟩
  · change some ((g.opened sequence).node 2).text = _
    rw [hnode 2 (by decide)]
    rfl
  · change some ((g.opened sequence).node 3).text = _
    rw [hnode 3 (by decide)]
    rfl
  · intro m hm
    have hshown := hpause m hm
    change (retext _ _ (g.opened sequence).node m).settled = _ at hshown
    rwa [settled_retext] at hshown

/-- In every state of every run, both labels show the numbers that the scene holds, from the
first time these are computed, and the pause layer and image show whether it is paused. -/
theorem display_current (g : Game) {s t : PlayScene} {es : List Event} (hstart : g.start = .ok s)
    (hrun : Run step Occurs s es t) : ScoreShown t ∧ TimeShown t ∧ PauseShown t := by
  obtain ⟨n, sequence, hn, hperm, rfl⟩ := Game.start_eq_ok hstart
  have hdisplays : Displays t := by
    refine (hrun.preserves (I := fun s => (∃ h, Playing 6 n h s) ∧ Displays s) ?_
      ⟨⟨.empty, g.opened_playing hn hperm⟩, opened_displays g hn hperm⟩).2
    rintro s e t ⟨⟨h, hp⟩, hs⟩ ho hstep
    obtain ⟨h', houtcome⟩ := outcome_of_step hp ho hstep
    exact ⟨⟨h', houtcome.playing hp⟩, hs.step hp ho hstep⟩
  exact ⟨hdisplays.score, hdisplays.time, hdisplays.pause⟩

theorem display_current_small : ∃ t,
    Game.small.played step Occurs [.frame 1000, .frame 1010, .togglePause 1 1] = some t ∧
      t.scoreText = some "Score: 110" ∧ t.timeText = some "Time: 110" ∧
      t.pauseState = true ∧ PauseShown t := by
  have hplayed : (Game.small.played step Occurs [.frame 1000, .frame 1010, .togglePause 1 1]).map
      (fun t => (t.scoreText, t.timeText, t.pauseState)) =
        some (some "Score: 110", some "Time: 110", true) := by decide +kernel
  obtain ⟨s, t, hs, ht, hrun, hplayed⟩ := Game.run_of_map Game.small step Occurs _ hplayed
  simp only [Prod.mk.injEq] at hplayed
  obtain ⟨hscore, htime, hpause⟩ := hplayed
  exact ⟨t, ht, hscore, htime, hpause, (display_current Game.small hs hrun).2.2⟩

end PlayScene
end CardsGame
