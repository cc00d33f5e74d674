import CardsGame.Fresh
import CardsGame.Games
import CardsGame.Score
import CardsGame.Timing

/-!
# The standings of the app

Games end in any order, also games that the view has left, and the app may be launched
anew in between. The store always holds the three best of their scores, and a leader board
shows those that it finds when it is presented.
-/
namespace CardsGame

open Swift SpriteKit
open Countdown (Clock)
open Largest (largest)
open Pairs (Hand Table)
open Ranking (UserDefaults ranking recordAll)
open Runs (Run replay)
open Shuffle (Draws)

namespace PlayScene

section Stored

variable {base n : Nat} {s : PlayScene} (d : UserDefaults)

theorem Shows.stored {τ : Table Nat} (hs : Shows base n τ s) : Shows base n τ (s.stored d) :=
  ⟨hs.playing.stored d, hs.sound, hs.found, hs.matched, hs.missed, hs.back, hs.front, hs.gone,
    hs.queued⟩

theorem Scored.stored (hs : Scored base n s) : Scored base n (s.stored d) := by
  obtain ⟨τ, hshows⟩ := hs.shows
  exact ⟨⟨τ, hshows.stored d⟩, hs.tally, hs.once, hs.unfed⟩

end Stored

/-- The timer runs within the time of the game. -/
def Timely (T : ℚ) (s : PlayScene) : Prop := ∃ c, Keeps c s ∧ 0 ≤ c.remaining ∧ c.remaining ≤ T

section Timely

variable {T : ℚ} {s t : PlayScene}

/-- A frame that comes in order takes nothing off the bounds. -/
theorem remaining_tick {c : Clock ℚ} {time : ℚ} {paused : Bool} (horder : c.last ≤ time)
    (hlower : 0 ≤ c.remaining) (hupper : c.remaining ≤ T) :
    0 ≤ (c.tick (time, paused)).remaining ∧ (c.tick (time, paused)).remaining ≤ T := by
  simp only [Clock.tick]
  split
  · refine ⟨le_max_left _ _, max_le (hlower.trans hupper) ?_⟩
    linarith
  · exact ⟨hlower, hupper⟩

theorem Timely.step {e : Event} (h : Timely T s) (hm : May s e) (hs : step s e = .ok t) :
    Timely T t := by
  obtain ⟨c, hkeeps, hlower, hupper⟩ := h
  refine ⟨_, hkeeps.step hs, ?_⟩
  cases e with
  | frame time => exact remaining_tick (hm.2 c.last hkeeps.lastUpdateTimeInterval) hlower hupper
  | _ => exact ⟨hlower, hupper⟩

theorem Timely.timer (h : Timely T s) : ∃ timer, s.timer = some timer ∧ 0 ≤ timer ∧ timer ≤ T := by
  obtain ⟨c, hkeeps, hlower, hupper⟩ := h
  exact ⟨c.remaining, hkeeps.timer, hlower, hupper⟩

end Timely

/-- A game of a level that counts once, when it is over. -/
structure Standing (s : PlayScene) : Prop where
  level : ∃ difficulty n T, (difficulty, n, T) ∈ levels ∧ s.difficulty = some difficulty ∧
    Scored 6 n s ∧ Timely T s
  fed : s.cardsStatus.all id = true → s.rankings ≠ []

variable {device : Device} {s t : PlayScene}

theorem Standing.stored (h : Standing s) (d : UserDefaults) : Standing (s.stored d) := by
  obtain ⟨difficulty, n, T, hmem, hd, hscored, c, hkeeps, hbounds⟩ := h.level
  exact ⟨⟨difficulty, n, T, hmem, hd, hscored.stored d, c,
    ⟨hkeeps.timer, hkeeps.lastUpdateTimeInterval, hkeeps.firstFrame⟩, hbounds⟩, h.fed⟩

theorem level_bounds {difficulty : Int} {n : Nat} {T : ℚ} (h : (difficulty, n, T) ∈ levels) :
    0 < n ∧ 0 ≤ T ∧ ∃ seconds : Int, T = seconds ∧ 5 * (difficulty + 1) * n + seconds ≤ 400 := by
  obtain ⟨rfl, rfl, rfl⟩ | ⟨rfl, rfl, rfl⟩ | ⟨rfl, rfl, rfl⟩ := mem_levels.mp h
  · exact ⟨by decide, by norm_num, 120, by norm_num, by decide⟩
  · exact ⟨by decide, by norm_num, 210, by norm_num, by decide⟩
  · exact ⟨by decide, by norm_num, 250, by norm_num, by decide⟩

theorem standing_start {difficulty : Int} {draws : Draws} {now : ℚ} {d : UserDefaults}
    (hoffered : Offered difficulty) (hstart : (device.game difficulty draws now d).start = .ok s) :
    Standing s := by
  obtain ⟨n, T, hmem, hdealable, hT, hd⟩ := device.game_level hoffered draws now d
  obtain ⟨hn0, hT0, -⟩ := level_bounds hmem
  obtain ⟨m, sequence, hm, hperm, rfl⟩ := Game.start_eq_ok hstart
  have hsize : m = n := by
    have hboard := hm.board
    rw [hdealable.board] at hboard
    omega
  subst hsize
  have hopened := opened_shows (device.game difficulty draws now d) hm hperm
  refine ⟨⟨difficulty, m, T, hmem, congrArg some hd, ?_, ?_⟩, ?_⟩
  · exact ⟨⟨_, hopened⟩, rfl, Nat.zero_le 1, fun _ => rfl⟩
  · exact ⟨_, opened_keeps (device.game difficulty draws now d) sequence, hT ▸ hT0, hT.le⟩
  · intro hall
    have hcount : (0 : Int) = m := hopened.all_iff_matchesCount.mp hall
    omega

/-- The score that is counted when the last pair is found. -/
theorem score_le {difficulty : Int} {n : Nat} {T timer : ℚ} {score tries : Int}
    (hlevel : (difficulty, n, T) ∈ levels) (htries : 0 ≤ tries) (hlower : 0 ≤ timer)
    (hupper : timer ≤ T) (hscore : score = n * (difficulty + 1) * 5 - tries + truncate timer) :
    score ≤ 400 := by
  obtain ⟨-, -, seconds, rfl, hmax⟩ := level_bounds hlevel
  have htime := truncate_le hlower hupper
  have hpairs : (n : Int) * (difficulty + 1) * 5 = 5 * (difficulty + 1) * n := by ring
  omega

theorem presented_finished (hall : s.cardsStatus.all id = true) (hview : s.view.isSome = true) :
    s.finished.presented = s.presented ++ [.leaderboardsScene] := by
  rw [finished, if_pos hall]
  unfold goLeaderBoard present
  obtain ⟨view, hsome⟩ := Option.isSome_iff_exists.mp hview
  simp only [emit, updateRanking, hsome]

/-- A game that ends while it is shown asks for a leader board. -/
theorem Outcome.presented {base n : Nat} {h h' : Hand Nat} {e : Event}
    (ho : Outcome base n s h e t h') (hrankings : t.rankings ≠ s.rankings)
    (hview : s.view.isSome = true) : t.presented = s.presented ++ [.leaderboardsScene] := by
  cases ho with
  | quiet hfire hquiet => exact absurd hquiet.rankings hrankings
  | @first k =>
    have heffects : (s.turnedFirst base k).effects = s.effects ++ [.cardTouched (s.cardValue k)] :=
      rfl
    exact absurd (rankings_of_append heffects (by simp)) hrankings
  | @second i k =>
    have heffects : (s.turnedSecond base k).effects = s.effects ++ [.cardTouched (s.cardValue k)] ++
        [announcement (blockFor s.selectedCard1Value (formatInt (s.cardValue k)))] := rfl
    rw [List.append_assoc] at heffects
    refine absurd (rankings_of_append heffects ?_) hrankings
    intro score
    cases blockFor s.selectedCard1Value (formatInt (s.cardValue k)) <;> simp [announcement]
  | @found i j _ after difficulty timer =>
    by_cases hall : (s.marked base i j difficulty timer).cardsStatus.all id = true
    · have hkept : (s.marked base i j difficulty timer).view = s.view ∧
          (s.marked base i j difficulty timer).presented = s.presented := ⟨rfl, rfl⟩
      rw [resolvedFound, presented_finished hall (by rwa [hkept.1]), hkept.2]
    · rw [resolvedFound, finished_of_not_all hall] at hrankings
      exact absurd rfl hrankings
  | missed => exact absurd rfl hrankings

/-- An event leaves the store alone, or adds the score of a game that is over. -/
theorem Standing.step {e : Event} (h : Standing s) (hm : May s e)
    (hs : PlayScene.step s e = .ok t) : Standing t ∧
      (t.rankings = s.rankings ∧ t.defaults = s.defaults ∨
        t.rankings = s.rankings ++ [t.score] ∧
          t.defaults = Ranking.updateRanking t.score s.defaults ∧ t.score ≤ 400 ∧
            (s.view.isSome = true → t.presented = s.presented ++ [.leaderboardsScene])) := by
  obtain ⟨difficulty, n, T, hmem, hd, hscored, htimely⟩ := h.level
  obtain ⟨hscored', hfed⟩ := hscored.step hm.1 hs
  have htimely' := htimely.step hm hs
  have hd' : t.difficulty = some difficulty :=
    (congrArg PlayScene.difficulty (skeleton_step hs)).trans hd
  refine ⟨⟨⟨difficulty, n, T, hmem, hd', hscored', htimely'⟩, ?_⟩, ?_⟩
  · intro hall
    obtain hfed | hunfed := hfed
    · simp [hfed.rankings]
    · obtain hsame | hnot := hunfed.same
      · rw [hunfed.rankings]
        exact h.fed (hsame ▸ hall)
      · exact absurd hall hnot
  · obtain hfed | hunfed := hfed
    · refine .inr ⟨hfed.rankings, hfed.defaults, ?_, ?_⟩
      · obtain ⟨τ, hshows⟩ := hscored'.shows
        obtain ⟨difficulty', timer, hd'', htimer, hscore⟩ := hfed.score
        obtain ⟨timer', htimer', hlower, hupper⟩ := htimely'.timer
        cases hd.symm.trans hd''
        cases htimer.symm.trans htimer'
        rw [hshows.all_iff_matchesCount.mp hfed.all] at hscore
        refine score_le hmem ?_ hlower hupper hscore
        rw [hshows.missed]
        exact Int.natCast_nonneg _
      · obtain ⟨τ, hshows⟩ := hscored.shows
        obtain ⟨h', houtcome⟩ := PlayScene.outcome_of_step hshows.playing hm.1.occurs hs
        exact houtcome.presented (by simp [hfed.rankings])
    · exact .inl ⟨hunfed.rankings, hunfed.defaults⟩

theorem Alone.standing (h : Alone device s) : Standing s :=
  h.holds (fun _ _ _ _ _ => standing_start) (fun _ _ _ hi hm hs => (hi.step hm hs).1)
    fun _ d hi => hi.stored d

/-- The score of a game is ranked exactly when the game is over, and once. -/
theorem Standing.ranked_iff (h : Standing s) : s.rankings.length ≤ 1 ∧
    (s.rankings ≠ [] ↔ ∀ found ∈ s.cardsStatus, found = true) := by
  obtain ⟨difficulty, n, T, -, -, hscored, -⟩ := h.level
  have hall : (∀ found ∈ s.cardsStatus, found = true) ↔ s.cardsStatus.all id = true := by
    rw [List.all_eq_true]
    exact Iff.rfl
  rw [hall]
  refine ⟨hscored.once, ?_, h.fed⟩
  intro hne
  by_contra hnot
  exact hne (hscored.unfed hnot)

end PlayScene

namespace App

variable {device : Device} {s t u : App} {e : AppEvent} {es : List AppEvent}

/-- The scores that a game has had ranked in the meantime. -/
def rankedSince : Option Scene → Option Scene → List Int
  | some (.play before), some (.play after) => after.rankings.drop before.rankings.length
  | _, _ => []

/-- The scores that an event adds. -/
def ranked (s : App) (e : AppEvent) (t : App) : List Int :=
  match e with
  | .launch => []
  | .signal index _ _ _ => rankedSince s.scenes[index]? t.scenes[index]?

/-- The scores of the games that end in a run, in order. -/
def scores (device : Device) (s : App) (es : List AppEvent) : List Int :=
  Trace.trace (step device) ranked s es

/-- An event writes to the store what it adds to the scores, which is in bounds. -/
theorem Outcome.ranked (halone : ∀ game, .play game ∈ s.scenes → game.Alone device)
    (ho : Outcome device s e t) :
    t.defaults = recordAll (App.ranked s e t) s.defaults ∧
      ∀ score ∈ App.ranked s e t, score ≤ 400 := by
  cases ho with
  | launch => exact ⟨rfl, by simp [App.ranked]⟩
  | @signal index signal draws now scene after presented hscene hacts hpresented =>
    simp only [App.ranked, hscene, acted_getElem? hscene]
    cases hacts with
    | @play game game' _ event hm hs =>
      have hstored := (halone game (List.mem_of_getElem? hscene)).stored s.defaults
      obtain ⟨-, hkept | hadded⟩ := hstored.standing.step hm hs
      · obtain ⟨hrankings, hdefaults⟩ := hkept
        have hnone : rankedSince (some (.play game)) (some (.play game')) = [] := by
          change game'.rankings.drop game.rankings.length = []
          rw [hrankings]
          exact List.drop_length
        rw [hnone]
        exact ⟨hdefaults, by simp⟩
      · obtain ⟨hrankings, hdefaults, hscore, -⟩ := hadded
        have hone : rankedSince (some (.play game)) (some (.play game')) = [game'.score] := by
          change game'.rankings.drop game.rankings.length = [game'.score]
          rw [hrankings]
          exact List.drop_left
        rw [hone]
        exact ⟨hdefaults, by simpa using hscore⟩
    | idle scene x hoptions =>
      cases scene with
      | play game =>
        have hnone : rankedSince (some (.play game)) (some ((Scene.play game).load s)) = [] :=
          List.drop_length
        rw [hnone]
        exact ⟨rfl, by simp⟩
      | menu m | options o | leaderboards l => exact ⟨rfl, by simp [rankedSince]⟩
    | menu | menuLeaves | options | slider | optionsLeave | leaderboards | leaderboardsLeave =>
      exact ⟨rfl, by simp [rankedSince]⟩

section Runs

variable (hclosed : s.scenes = []) (hrun : Run (step device) Receives s es t)

include hclosed hrun

/-- The store is what the scores of the run make of it. -/
theorem defaults_of_run : t.defaults = recordAll (scores device s es) s.defaults := by
  refine Trace.trace_folds (I := Holds (fun _ => True) (Orderly device)) (f := App.defaults) ?_
    (closed_holds hclosed trivial) hrun
  intro s e t hi hm hs
  have ho := outcome_of_step hm hs
  exact ⟨ho.kept (kept_games device) hi, (ho.ranked fun game hgame => (hi.scenes _ hgame).2).1⟩

theorem ranking_of_run (hsorted : (ranking s.defaults).Pairwise (· ≥ ·)) :
    ranking t.defaults = largest 3 (scores device s es ++ ranking s.defaults) := by
  rw [defaults_of_run hclosed hrun]
  exact Ranking.ranking_recordAll_from _ hsorted

theorem scores_le : ∀ score ∈ scores device s es, score ≤ 400 := by
  refine Trace.trace_forall (I := Holds (fun _ => True) (Orderly device)) ?_
    (closed_holds hclosed trivial) hrun
  intro s e t hi hm hs
  have ho := outcome_of_step hm hs
  exact ⟨ho.kept (kept_games device) hi, (ho.ranked fun game hgame => (hi.scenes _ hgame).2).2⟩

end Runs

/-- The lines of a leader board. -/
def texts (l : LeaderboardsScene) : List String :=
  (l.children.filter (·.kind = .label)).map (·.text)

theorem texts_didMove {draws : Draws} {now : ℚ} {size : Size} {l : LeaderboardsScene}
    (h : Scene.didMove device draws now s (.leaderboards size) = .ok (.leaderboards l)) :
    texts l = "Ranking" :: (ranking s.defaults).map toString := by
  obtain ⟨l', hl, h⟩ := bind_eq_ok.mp h
  cases h
  cases hl
  rfl

theorem leaderboards_of_didMove {draws : Draws} {now : ℚ} {destination : Destination}
    {l : LeaderboardsScene}
    (h : Scene.didMove device draws now s destination = .ok (.leaderboards l)) :
    ∃ size, destination = .leaderboards size := by
  cases destination with
  | leaderboards size => exact ⟨size, rfl⟩
  | menu size | play size difficulty | options size value =>
    obtain ⟨s, -, h⟩ := bind_eq_ok.mp h
    cases h

/-- A game that is shown goes over to a leader board in the step that ranks its score. -/
theorem Outcome.goes_over (halone : ∀ game, .play game ∈ s.scenes → game.Alone device)
    {index : Nat} {signal : Signal} {draws : Draws} {now : ℚ} {game : PlayScene}
    (ho : Outcome device s (.signal index signal draws now) t)
    (hgame : s.scenes[index]? = some (.play game)) (hview : game.view.isSome = true)
    (hranked : App.ranked s (.signal index signal draws now) t ≠ []) :
    ∃ l, t.scenes[s.scenes.length]? = some (.leaderboards l) := by
  cases ho with
  | @signal _ _ _ _ scene after presented hscene hacts hpresented =>
    cases hgame.symm.trans hscene
    simp only [App.ranked, hscene, acted_getElem? hscene] at hranked
    have hstored := (halone game (List.mem_of_getElem? hscene)).stored s.defaults
    cases hacts with
    | idle => exact absurd List.drop_length hranked
    | @play _ game' _ event hm hs =>
      obtain ⟨-, ⟨hrankings, -⟩ | ⟨-, -, -, hpresents⟩⟩ := hstored.standing.step hm hs
      · have hnone : game'.rankings.drop game.rankings.length = [] := by
          rw [hrankings]
          exact List.drop_length
        exact absurd hnone hranked
      · have hrequests : ((Scene.play game').requested device).drop
            ((Scene.play game).requested device).length =
              [.leaderboards (doubled device.view)] := by
          change (game'.presented.map _).drop (game.presented.map _).length = _
          rw [hpresents hview, List.map_append, List.length_map]
          exact List.drop_left' (List.length_map _)
        rw [hrequests] at hpresented
        obtain ⟨new, hmade, hpresented⟩ := bind_eq_ok.mp hpresented
        cases hpresented
        obtain ⟨l, -, hmade⟩ := bind_eq_ok.mp hmade
        cases hmade
        refine ⟨l, ?_⟩
        rw [List.getElem?_append_right (by rw [List.length_set]), List.length_set, Nat.sub_self]
        rfl

/-- However the games of the app take turns, and however often it is launched, the ranking
is the three best of all scores; a game has added its own exactly if it is over, once. -/
theorem ranking_of_games (hclosed : s.scenes = []) (hrun : Run (step device) Receives s es t)
    (hsorted : (ranking s.defaults).Pairwise (· ≥ ·)) :
    ranking t.defaults = largest 3 (scores device s es ++ ranking s.defaults) ∧
      ∀ game, .play game ∈ t.scenes → game.rankings.length ≤ 1 ∧
        (game.rankings ≠ [] ↔ ∀ found ∈ game.cardsStatus, found = true) := by
  refine ⟨ranking_of_run hclosed hrun hsorted, ?_⟩
  intro game hgame
  exact (alone_of_run hclosed hrun hgame).standing.ranked_iff

/-- An event of the second scene of a session. -/
def onGame (signal : Signal) : AppEvent := .signal 1 signal .first 0

/-- The centre of the card at `k` in an easy game. -/
def easyCard (k : Nat) : Point :=
  ⟨335 / 2 + 415 / 2 * (k / 4 : Nat), 1154 / 5 + 1454 / 5 * (k % 4 : Nat)⟩

/-- The cards at `i` and `j` are turned. -/
def turnPair (i j : Nat) : List AppEvent :=
  [onGame (.touchesEnded (easyCard i)), onGame (.touchesEnded (easyCard j)),
    onGame (.event (.evaluateActions (7 + 2 * i))), onGame (.event (.evaluateActions (7 + 2 * j)))]

/-- They are found, as the pair after `m` others. -/
def findPair (m i j : Nat) : List AppEvent :=
  turnPair i j ++ [onGame (.event (.fire ⟨.matched, 4 + 4 * m⟩)),
    onGame (.event (.evaluateActions (6 + 2 * i))), onGame (.event (.evaluateActions (6 + 2 * j)))]

/-- An easy game, up to the block that ends it. -/
def easyGame : List AppEvent :=
  [.launch, .signal 0 (.touchesEnded ⟨175, 667⟩) .first 0, onGame (.event (.evaluateActions 4)),
      onGame (.event (.evaluateActions 5))] ++
    findPair 0 0 11 ++ findPair 1 1 2 ++ findPair 2 3 4 ++ findPair 3 5 6 ++ findPair 4 7 8 ++
    turnPair 9 10

def lastBlock : AppEvent := onGame (.event (.fire ⟨.matched, 24⟩))

theorem ranking_of_games_small : ∃ t,
    replay (step Device.small) Receives installed (easyGame ++ [lastBlock]) = some t ∧
      ranking t.defaults = [150, 0, 0] ∧
      ranking t.defaults =
        largest 3 (scores Device.small installed (easyGame ++ [lastBlock]) ++ [0, 0, 0]) := by
  have hreplay : (replay (step Device.small) Receives installed (easyGame ++ [lastBlock])).map
      (fun t => ranking t.defaults) = some [150, 0, 0] := by decide +kernel
  obtain ⟨t, ht, hrun, hranking⟩ := Runs.run_of_map hreplay
  exact ⟨t, ht, hranking, (ranking_of_games rfl hrun (by decide)).1⟩

/-- No score of the app is above 400, the most a game of the last level can reach, and
none below zero is ranked. -/
theorem ranking_bounded (hclosed : s.scenes = []) (hrun : Run (step device) Receives s es t) :
    (∀ score ∈ scores device s es, score ≤ 400) ∧
      ((∀ v ∈ ranking s.defaults, 0 ≤ v ∧ v ≤ 400) →
        ∀ v ∈ ranking t.defaults, 0 ≤ v ∧ v ≤ 400) := by
  refine ⟨scores_le hclosed hrun, ?_⟩
  intro hstore
  rw [defaults_of_run hclosed hrun]
  exact Ranking.ranking_within hstore (scores_le hclosed hrun)

theorem ranking_bounded_small : ∃ t,
    replay (step Device.small) Receives installed (easyGame ++ [lastBlock]) = some t ∧
      ∀ v ∈ ranking t.defaults, 0 ≤ v ∧ v ≤ 400 := by
  have hreplay : (replay (step Device.small) Receives installed (easyGame ++ [lastBlock])).map
      (fun t => ranking t.defaults) = some [150, 0, 0] := by decide +kernel
  obtain ⟨t, ht, hrun, -⟩ := Runs.run_of_map hreplay
  exact ⟨t, ht, (ranking_bounded rfl hrun).2 (by decide)⟩

/-- A leader board shows the best scores up to the event that presents it, and this is the
event that ends the game, if the game is still shown. -/
theorem leaderboards_show (hclosed : s.scenes = []) (hrun : Run (step device) Receives s es t)
    (hsorted : (ranking s.defaults).Pairwise (· ≥ ·)) (hm : t.Receives e)
    (hs : t.step device e = .ok u) :
    (∀ index l, t.scenes.length ≤ index → u.scenes[index]? = some (.leaderboards l) →
      texts l = "Ranking" ::
        (largest 3 (scores device s (es ++ [e]) ++ ranking s.defaults)).map toString) ∧
    ∀ index signal draws now game, e = .signal index signal draws now →
      t.scenes[index]? = some (.play game) → game.view.isSome = true → ranked t e u ≠ [] →
        ∃ l, u.scenes[t.scenes.length]? = some (.leaderboards l) := by
  have ho := outcome_of_step hm hs
  refine ⟨?_, ?_⟩
  · intro index l hindex hl
    rw [← (ranking_of_run hclosed (hrun.append (.single hm hs)) hsorted)]
    obtain ⟨-, hmade⟩ | ⟨_, _, _, _, _, _, app, destination, -, -, -, -, happ, -, hmade⟩ :=
      ho.new (.inr hindex) hl
    · obtain ⟨size, hsize⟩ := leaderboards_of_didMove hmade
      cases hsize
    · obtain ⟨size, rfl⟩ := leaderboards_of_didMove hmade
      rw [texts_didMove hmade, happ]
  · rintro index signal draws now game rfl hgame hview hranked
    exact ho.goes_over (fun game hgame => alone_of_run hclosed hrun hgame) hgame hview hranked

theorem leaderboards_show_small : ∃ t u,
    replay (step Device.small) Receives installed easyGame = some t ∧
      t.step Device.small lastBlock = .ok u ∧
      ∃ l, u.scenes[t.scenes.length]? = some (.leaderboards l) ∧
        texts l = ["Ranking", "150", "0", "0"] := by
  have hreplay : (replay (step Device.small) Receives installed easyGame).map (fun t =>
      ((t.gameAt 1).map (·.view.isSome), decide (t.Receives lastBlock),
        (t.step Device.small lastBlock).toOption.map (ranked t lastBlock))) =
      some (some true, true, some [150]) := by decide +kernel
  have htexts : ("Ranking" :: (largest 3 (scores Device.small installed (easyGame ++ [lastBlock]) ++
      ranking installed.defaults)).map toString) = ["Ranking", "150", "0", "0"] := by decide +kernel
  obtain ⟨t, ht, hrun, hstate⟩ := Runs.run_of_map hreplay
  simp only [Prod.mk.injEq, decide_eq_true_eq] at hstate
  obtain ⟨hgame, hm, hstep⟩ := hstate
  obtain ⟨game, hgame, hview⟩ := Option.map_eq_some_iff.mp hgame
  cases hs : t.step Device.small lastBlock with
  | error trap => simp [hs, Except.toOption] at hstep
  | ok u =>
    have hranked : ranked t lastBlock u = [150] := by simpa [hs, Except.toOption] using hstep
    obtain ⟨hshows, hpresents⟩ := leaderboards_show rfl hrun (by decide) hm hs
    obtain ⟨l, hl⟩ :=
      hpresents 1 _ _ _ game rfl (gameAt_eq_some.mp hgame) hview (by simp [hranked])
    exact ⟨t, u, ht, hs, l, hl, (hshows _ l (Nat.le_refl _) hl).trans htexts⟩

end App
end CardsGame
