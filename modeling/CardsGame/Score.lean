import CardsGame.Found

/-!
# The score that is ranked

`score` is a cache, and the end of the game is found in `cardsStatus`. The match
block recomputes the one just before it looks at the other, so that the ranking is
fed once, at the last pair, with the score of the whole game.
-/
namespace CardsGame

open Swift SpriteKit
open Pairs (Hand Table)
open Runs (Run)

namespace PlayScene

/-- The scores that `UpdateRanking` has read. -/
def rankings (s : PlayScene) : List Int :=
  s.effects.filterMap fun e =>
    match e with
    | .updateRanking score => some score
    | _ => none

/-- How many mismatched pairs have been tried. -/
def mismatches (s : PlayScene) : Nat := s.effects.count .unmatchedCards

theorem rankings_of_append {s t : PlayScene} {es : List Effect} (h : t.effects = s.effects ++ es)
    (hes : ∀ score, Effect.updateRanking score ∉ es) : t.rankings = s.rankings := by
  have hnone : ∀ e ∈ es, (match e with
      | Effect.updateRanking score => some score
      | _ => none) = none := by
    intro e he
    cases e with
    | updateRanking score => exact absurd he (hes score)
    | _ => rfl
  rw [rankings, h, List.filterMap_append, List.filterMap_eq_nil_iff.mpr hnone, List.append_nil,
    rankings]

theorem mismatches_of_append {s t : PlayScene} {es : List Effect}
    (h : t.effects = s.effects ++ es) : t.mismatches = s.mismatches + es.count .unmatchedCards := by
  rw [mismatches, h, List.count_append, mismatches]

theorem Quiet.rankings {base : Nat} {s t : PlayScene} (hq : Quiet base s t) :
    t.rankings = s.rankings := by
  obtain ⟨es, heq, hes⟩ := hq.effects
  exact rankings_of_append heq fun score h => hes _ h

theorem Quiet.mismatches {base : Nat} {s t : PlayScene} (hq : Quiet base s t) :
    t.mismatches = s.mismatches := by
  obtain ⟨es, heq, hes⟩ := hq.effects
  have hnot : Effect.unmatchedCards ∉ es := fun h => hes _ h
  rw [mismatches_of_append heq, List.count_eq_zero_of_not_mem hnot, Nat.add_zero]

/-- The last pair found: the ranking reads the score, and the leader board is asked for. -/
theorem finished_of_all {s : PlayScene} (h : s.cardsStatus.all id = true) :
    s.finished.rankings = s.rankings ++ [s.score] ∧
      s.finished.defaults = Ranking.updateRanking s.score s.defaults ∧
      s.finished.mismatches = s.mismatches := by
  rw [finished, if_pos h]
  have heffects : s.updateRanking.goLeaderBoard.effects =
      s.effects ++ [.updateRanking s.score] ++ [.goLeaderBoard] := by
    unfold goLeaderBoard present updateRanking
    split <;> rfl
  refine ⟨?_, ?_, ?_⟩
  · rw [rankings, heffects]
    simp [rankings]
  · unfold goLeaderBoard present updateRanking
    split <;> rfl
  · rw [mismatches, heffects]
    simp [mismatches]

theorem finished_of_not_all {s : PlayScene} (h : ¬ s.cardsStatus.all id = true) : s.finished = s :=
  if_neg h

section Marked

variable {base n : Nat} {τ : Table Nat} {s t : PlayScene}

theorem Shows.all_iff (hs : Shows base n τ s) :
    s.cardsStatus.all id = true ↔ τ.found = Finset.range (2 * n) := by
  rw [List.all_eq_true]
  constructor
  · intro hall
    apply Finset.Subset.antisymm hs.sound.within
    intro k hk
    have hlt : k < s.cardsStatus.length := by
      rw [hs.playing.status]
      exact Finset.mem_range.mp hk
    have htrue : s.cardsStatus[k] = true := hall _ (List.getElem_mem hlt)
    rw [← hs.found, List.getElem?_eq_getElem hlt, htrue]
  · intro hfound b hb
    obtain ⟨k, hlt, rfl⟩ := List.getElem_of_mem hb
    have hk : k ∈ τ.found := by
      rw [hfound, Finset.mem_range, ← hs.playing.status]
      exact hlt
    rw [← hs.found, List.getElem?_eq_getElem hlt, Option.some.injEq] at hk
    exact hk

/-- All are found exactly when the pairs counted are all there are. -/
theorem Shows.all_iff_matchesCount (hs : Shows base n τ s) :
    s.cardsStatus.all id = true ↔ s.matchesCount = n := by
  rw [hs.all_iff, hs.sound.complete_iff (Finset.card_range _), hs.matched]
  exact Int.ofNat_inj.symm

/-- A hand that holds a card leaves something to be found. -/
theorem Shows.not_all (hs : Shows base n τ s) {k : Nat} (hk : k ∈ τ.hand) :
    ¬ s.cardsStatus.all id = true := by
  rw [hs.all_iff]
  intro hfound
  obtain ⟨hdeck, hnot⟩ := hs.sound.hand k hk
  rw [hfound] at hnot
  exact hnot hdeck

/-- The event feeds the ranking. -/
structure Fed (s t : PlayScene) (e : Event) : Prop where
  fire : ∃ b, e = .fire b ∧ b.kind = .matched ∧ s.pending = [b]
  all : t.cardsStatus.all id = true
  rankings : t.rankings = s.rankings ++ [t.score]
  defaults : t.defaults = Ranking.updateRanking t.score s.defaults
  score : ∃ difficulty timer, s.difficulty = some difficulty ∧ t.timer = some timer ∧
    t.score = t.matchesCount * (difficulty + 1) * 5 - t.tryCount + truncate timer
  pending : t.pending = []

/-- The event leaves the ranking alone. -/
structure Unfed (s t : PlayScene) (e : Event) : Prop where
  rankings : t.rankings = s.rankings
  defaults : t.defaults = s.defaults
  not_last : ∀ b, e = .fire b → b.kind = .matched → ¬ t.cardsStatus.all id = true
  same : t.cardsStatus = s.cardsStatus ∨ ¬ t.cardsStatus.all id = true

theorem resolvedFound_fed {i j after : Nat} {difficulty : Int} {timer : ℚ}
    (hpending : s.pending = [⟨.matched, after⟩]) (hd : s.difficulty = some difficulty)
    (ht : s.timer = some timer)
    (hall : (s.marked base i j difficulty timer).cardsStatus.all id = true) :
    Fed s (s.resolvedFound base i j difficulty timer) (.fire ⟨.matched, after⟩) := by
  obtain ⟨hrankings, hdefaults, hmismatches⟩ := finished_of_all hall
  obtain ⟨defaults, presented, effects, heq⟩ := (s.marked base i j difficulty timer).finished_eq
  have hscore : (s.resolvedFound base i j difficulty timer).score =
      (s.marked base i j difficulty timer).score := by
    rw [resolvedFound, heq]
  constructor
  · exact ⟨_, rfl, rfl, hpending⟩
  · rw [resolvedFound, heq]
    exact hall
  · rw [hscore]
    exact hrankings
  · rw [hscore]
    exact hdefaults
  · refine ⟨difficulty, timer, hd, ?_, ?_⟩
    · rw [resolvedFound, heq]
      exact ht
    · rw [resolvedFound, heq]
      rfl
  · rw [resolvedFound, heq]
    rfl

theorem unfed_of_append {e : Event} {es : List Effect} (heffects : t.effects = s.effects ++ es)
    (hes : ∀ score, Effect.updateRanking score ∉ es) (hdefaults : t.defaults = s.defaults)
    (hlast : ∀ b, e = .fire b → b.kind = .matched → ¬ t.cardsStatus.all id = true)
    (hsame : t.cardsStatus = s.cardsStatus) : Unfed s t e :=
  ⟨rankings_of_append heffects hes, hdefaults, hlast, .inl hsame⟩

/-- The ranking is fed by the match block that leaves nothing to be found, and only then. -/
theorem fed_or_unfed {h h' : Hand Nat} {e : Event} (ho : Outcome base n s h e t h') :
    Fed s t e ∨ Unfed s t e := by
  cases ho with
  | quiet hfire hquiet =>
    exact .inr ⟨hquiet.rankings, hquiet.defaults, fun b hb => absurd hb (hfire b),
      .inl hquiet.cardsStatus⟩
  | @first k =>
    have heffects : (s.turnedFirst base k).effects = s.effects ++ [.cardTouched (s.cardValue k)] :=
      rfl
    exact .inr (unfed_of_append heffects (by simp) rfl (by simp) rfl)
  | @second i k =>
    have heffects : (s.turnedSecond base k).effects = s.effects ++ [.cardTouched (s.cardValue k)] ++
        [announcement (blockFor s.selectedCard1Value (formatInt (s.cardValue k)))] := rfl
    rw [List.append_assoc] at heffects
    refine .inr (unfed_of_append heffects ?_ rfl (by simp) rfl)
    intro score
    cases blockFor s.selectedCard1Value (formatInt (s.cardValue k)) <;> simp [announcement]
  | @found i j _ after difficulty timer hvalue hpending hd ht =>
    by_cases hall : (s.marked base i j difficulty timer).cardsStatus.all id = true
    · exact .inl (resolvedFound_fed hpending hd ht hall)
    · rw [resolvedFound, finished_of_not_all hall]
      exact .inr ⟨rfl, rfl, fun _ _ _ => hall, .inr hall⟩
  | missed =>
    refine .inr ⟨rfl, rfl, ?_, .inl rfl⟩
    intro b hb hkind
    cases hb
    cases hkind

theorem mismatches_resolvedFound {i j : Nat} {difficulty : Int} {timer : ℚ} :
    (s.resolvedFound base i j difficulty timer).mismatches = s.mismatches := by
  by_cases hall : (s.marked base i j difficulty timer).cardsStatus.all id = true
  · exact (finished_of_all hall).2.2
  · rw [resolvedFound, finished_of_not_all hall]
    rfl

/-- Mismatched pairs tried, but neither counted nor about to be. -/
def tally (s : PlayScene) : Int :=
  s.mismatches - s.tryCount - s.pending.countP (·.kind = .unmatched)

/-- Every pair that does not match is counted when its block fires. -/
theorem Outcome.tally {h h' : Hand Nat} {e : Event} (ho : Outcome base n s h e t h') :
    t.tally = s.tally := by
  cases ho with
  | quiet hfire hquiet =>
    rw [PlayScene.tally, hquiet.mismatches, hquiet.tryCount, hquiet.pending, PlayScene.tally]
  | @first k =>
    have heffects : (s.turnedFirst base k).effects = s.effects ++ [.cardTouched (s.cardValue k)] :=
      rfl
    rw [PlayScene.tally, mismatches_of_append heffects]
    rfl
  | @second i k =>
    have heffects : (s.turnedSecond base k).effects = s.effects ++ [.cardTouched (s.cardValue k)] ++
        [announcement (blockFor s.selectedCard1Value (formatInt (s.cardValue k)))] := rfl
    have hpending : (s.turnedSecond base k).pending = s.pending ++
        [⟨blockFor s.selectedCard1Value (formatInt (s.cardValue k)), s.actionsStarted + 1⟩] := rfl
    have htries : (s.turnedSecond base k).tryCount = s.tryCount := rfl
    rw [List.append_assoc] at heffects
    rw [PlayScene.tally, mismatches_of_append heffects, hpending, htries, List.countP_append,
      PlayScene.tally]
    cases blockFor s.selectedCard1Value (formatInt (s.cardValue k)) with
    | matched => simp [announcement]
    | unmatched =>
      simp [announcement]
      omega
  | @found i j _ after difficulty timer hvalue hpending hd ht =>
    obtain ⟨defaults, presented, effects, heq⟩ := (s.marked base i j difficulty timer).finished_eq
    have hrest : (s.resolvedFound base i j difficulty timer).tryCount = s.tryCount ∧
        (s.resolvedFound base i j difficulty timer).pending = [] := by
      rw [resolvedFound, heq]
      exact ⟨rfl, rfl⟩
    rw [PlayScene.tally, mismatches_resolvedFound, hrest.1, hrest.2, PlayScene.tally, hpending]
    rfl
  | missed hvalue hpending =>
    rw [PlayScene.tally, PlayScene.tally, hpending]
    change (s.mismatches : Int) - (s.tryCount + 1) - 0 = s.mismatches - s.tryCount - 1
    omega

/-- What a run keeps: every mismatch is counted or about to be, and the ranking is fed
once, when nothing is left. -/
structure Scored (base n : Nat) (s : PlayScene) : Prop where
  shows : ∃ τ, Shows base n τ s
  tally : s.tally = 0
  once : s.rankings.length ≤ 1
  unfed : ¬ s.cardsStatus.all id = true → s.rankings = []

/-- The ranking is fed by a scene that still has something to find. -/
theorem Fed.unfinished {e : Event} (hf : Fed s t e) (hs : Shows base n τ s) :
    ¬ s.cardsStatus.all id = true := by
  obtain ⟨b, -, -, hpending⟩ := hf.fire
  have hselected := hs.playing.selected
  cases hhand : τ.hand with
  | empty =>
    rw [hhand] at hselected
    rw [hselected.2.2.2] at hpending
    cases hpending
  | one i =>
    rw [hhand] at hselected
    rw [hselected.2.2.2] at hpending
    cases hpending
  | two i j hne =>
    apply hs.not_all (k := i)
    rw [hhand]
    exact .inl rfl

theorem Shows.all_mono {τ' : Table Nat} (hs : Shows base n τ s) (ht : Shows base n τ' t)
    (hsub : τ.found ⊆ τ'.found) (hall : s.cardsStatus.all id = true) :
    t.cardsStatus.all id = true := by
  rw [ht.all_iff]
  apply Finset.Subset.antisymm ht.sound.within
  rw [← hs.all_iff.mp hall]
  exact hsub

theorem Scored.step {e : Event} (hs : Scored base n s) (ho : OnScreen s e)
    (hstep : PlayScene.step s e = .ok t) : Scored base n t ∧ (Fed s t e ∨ Unfed s t e) := by
  obtain ⟨τ, hshows⟩ := hs.shows
  obtain ⟨h', houtcome⟩ := outcome_of_step hshows.playing ho.occurs hstep
  obtain ⟨τ', hmove, hshows'⟩ := hshows.step ho hstep
  have hsub : τ.found ⊆ τ'.found := by
    obtain rfl | hmove := hmove
    · exact Finset.Subset.refl _
    · exact hmove.found_mono
  have hfed := fed_or_unfed houtcome
  refine ⟨⟨⟨τ', hshows'⟩, houtcome.tally.trans hs.tally, ?_, ?_⟩, hfed⟩
  · obtain hfed | hunfed := hfed
    · rw [hfed.rankings, hs.unfed (hfed.unfinished hshows)]
      exact Nat.le_refl 1
    · rw [hunfed.rankings]
      exact hs.once
  · intro hnot
    obtain hfed | hunfed := hfed
    · exact absurd hfed.all hnot
    · rw [hunfed.rankings]
      exact hs.unfed (mt (hshows.all_mono hshows' hsub) hnot)

end Marked

/-- The ranking is fed at most once in a run, by the match block that leaves nothing to
be found, which is the one that completes the count of pairs; the score it reads is
that of the whole game. -/
theorem score_of_finished_game (g : Game) {s t : PlayScene} {es : List Event}
    (hstart : g.start = .ok s) (hrun : Run step OnScreen s es t) :
    t.rankings.length ≤ 1 ∧
      ∀ e u, OnScreen t e → step t e = .ok u →
        (u.rankings ≠ t.rankings ↔
          ∃ b, e = .fire b ∧ b.kind = .matched ∧ ∀ found ∈ u.cardsStatus, found = true) ∧
        (u.rankings ≠ t.rankings ↔
          t.matchesCount ≠ g.cardsPerRow * g.cardsPerColumn / 2 ∧
            u.matchesCount = g.cardsPerRow * g.cardsPerColumn / 2) ∧
        (u.rankings = t.rankings → u.defaults = t.defaults) ∧
        (u.rankings ≠ t.rankings → ∃ timer, u.timer = some timer ∧
          u.rankings = t.rankings ++ [u.score] ∧
          u.defaults = Ranking.updateRanking u.score t.defaults ∧
          u.score = 5 * (g.difficulty + 1) * (g.cardsPerRow * g.cardsPerColumn / 2) -
            u.mismatches + truncate timer) := by
  obtain ⟨n, sequence, hn, hperm, rfl⟩ := Game.start_eq_ok hstart
  have hopened := opened_shows g hn hperm
  have hsize : g.cardsPerRow * g.cardsPerColumn / 2 = n := by
    have hboard := hn.board
    change g.cardsPerRow * g.cardsPerColumn = _ at hboard
    rw [hboard]
    omega
  have hbegin : Scored 6 n (g.opened sequence) :=
    ⟨⟨_, hopened⟩, rfl, Nat.zero_le 1, fun _ => rfl⟩
  have hscored : Scored 6 n t :=
    hrun.preserves (I := Scored 6 n) (fun s e t hs ho hstep => (hs.step ho hstep).1) hbegin
  have hdifficulty : t.difficulty = some g.difficulty :=
    have hskeleton := run_skeleton hopened.playing (hrun.mono fun _ _ h => h.occurs)
    show t.skeleton.difficulty = _ by rw [hskeleton]; rfl
  refine ⟨hscored.once, ?_⟩
  intro e u ho hstep
  rw [hsize]
  obtain ⟨hscored', hfed⟩ := hscored.step ho hstep
  obtain ⟨τ, hshows⟩ := hscored.shows
  obtain ⟨τ', hshows'⟩ := hscored'.shows
  have hall : (∀ found ∈ u.cardsStatus, found = true) ↔ u.cardsStatus.all id = true := by
    rw [List.all_eq_true]
    exact Iff.rfl
  rw [hall]
  obtain hfed | hunfed := hfed
  · have hne : u.rankings ≠ t.rankings := by
      rw [hfed.rankings]
      simp
    obtain ⟨b, hb, hkind, -⟩ := hfed.fire
    have hlast := hshows'.all_iff_matchesCount.mp hfed.all
    refine ⟨iff_of_true hne ⟨b, hb, hkind, hfed.all⟩, iff_of_true hne ⟨?_, hlast⟩,
      fun heq => absurd heq hne, fun _ => ?_⟩
    · exact mt hshows.all_iff_matchesCount.mpr (hfed.unfinished hshows)
    · obtain ⟨difficulty, timer, hd, ht, hscore⟩ := hfed.score
      refine ⟨timer, ht, hfed.rankings, hfed.defaults, ?_⟩
      have htally := hscored'.tally
      rw [tally, hfed.pending] at htally
      cases hdifficulty.symm.trans hd
      rw [hscore, hlast]
      have hcount : u.tryCount = u.mismatches := by
        simp only [List.countP_nil] at htally
        omega
      rw [hcount]
      ring
  · have heq := hunfed.rankings
    refine ⟨iff_of_false (not_not.mpr heq) ?_, iff_of_false (not_not.mpr heq) ?_,
      fun _ => hunfed.defaults, fun hne => absurd heq hne⟩
    · rintro ⟨b, hb, hkind, hlast⟩
      exact absurd hlast (hunfed.not_last b hb hkind)
    · rintro ⟨hbefore, hafter⟩
      have hlast := hshows'.all_iff_matchesCount.mpr hafter
      obtain hsame | hnot := hunfed.same
      · rw [hsame] at hlast
        exact absurd (hshows.all_iff_matchesCount.mp hlast) hbefore
      · exact absurd hlast hnot

/-- Two pairs found without a miss and without a frame: 5 points each, and 120 seconds left. -/
theorem score_of_finished_game_small : ∃ t,
    Game.small.played step OnScreen [.touch 7, .touch 13, .evaluateActions 4, .evaluateActions 5,
      .evaluateActions 7, .evaluateActions 13, .fire ⟨.matched, 4⟩, .touch 9, .touch 11,
      .evaluateActions 6, .evaluateActions 12, .evaluateActions 9, .evaluateActions 11,
      .fire ⟨.matched, 8⟩] = some t ∧ t.rankings = [130] ∧ t.rankings.length ≤ 1 := by
  have hplayed : (Game.small.played step OnScreen [.touch 7, .touch 13, .evaluateActions 4,
      .evaluateActions 5, .evaluateActions 7, .evaluateActions 13, .fire ⟨.matched, 4⟩, .touch 9,
      .touch 11, .evaluateActions 6, .evaluateActions 12, .evaluateActions 9, .evaluateActions 11,
      .fire ⟨.matched, 8⟩]).map rankings = some [130] := by decide +kernel
  obtain ⟨s, t, hs, ht, hrun, hplayed⟩ := Game.run_of_map Game.small step OnScreen _ hplayed
  exact ⟨t, ht, hplayed, (score_of_finished_game Game.small hs hrun).1⟩

end PlayScene
end CardsGame
