import CardsGame.Selection

/-!
# Resetting a game

`ResetGame` deals a new board over a running game. It clears the selection but
neither the lock nor the blocks in flight, which then read a selection that is no
longer theirs. With no block in flight the reset game follows the protocol again.
-/
namespace CardsGame

open Swift SpriteKit
open Shuffle (Draws)
open Pairs (Hand)
open Runs (Run)

/-- What can happen to a scene, resets included. -/
inductive Operation where
  | event (e : Event)
  | reset (draws : Draws)

namespace PlayScene

def perform (assets : Assets) (s : PlayScene) : Operation → Checked PlayScene
  | .event e => step s e
  | .reset draws => resetGame assets draws s

/-- Events as they occur, and resets only while no block is pending. -/
def Calm (s : PlayScene) : Operation → Prop
  | .event e => Occurs s e
  | .reset _ => s.pending = []

instance (s : PlayScene) (op : Operation) : Decidable (Calm s op) :=
  match op with
  | .event e => inferInstanceAs (Decidable (Occurs s e))
  | .reset _ => inferInstanceAs (Decidable (s.pending = []))

/-- `ResetStats`, after the deal. -/
def restarted (difficulty : Int) (timer : ℚ) (s : PlayScene) : PlayScene :=
  { scored difficulty timer
      { scored difficulty timer { s with tryCount := 0 } with matchesCount := 0 } with
    timer := s.time }

theorem resetStats_ok {s : PlayScene} {difficulty : Int} {timer : ℚ}
    (hd : s.difficulty = some difficulty) (ht : s.timer = some timer) :
    resetStats s = .ok (s.restarted difficulty timer) := by
  have htries : setTryCount 0 s = .ok (scored difficulty timer { s with tryCount := 0 }) :=
    updateScore_ok (s := { s with tryCount := 0 }) hd ht
  have hmatches : setMatchesCount 0 (scored difficulty timer { s with tryCount := 0 }) = _ :=
    updateScore_ok
      (s := { scored difficulty timer { s with tryCount := 0 } with matchesCount := 0 }) hd ht
  rw [resetStats, htries, ok_bind, hmatches, ok_bind]
  rfl

theorem resetStats_eq_ok {s t : PlayScene} (h : resetStats s = .ok t) :
    ∃ difficulty timer, s.difficulty = some difficulty ∧ s.timer = some timer ∧
      t = s.restarted difficulty timer := by
  obtain ⟨u, htries, -⟩ := bind_eq_ok.mp h
  obtain ⟨difficulty, timer, hd, ht, -⟩ := updateScore_eq_ok htries
  rw [resetStats_ok (s := s) hd ht, Except.ok.injEq] at h
  exact ⟨difficulty, timer, hd, ht, h.symm⟩

section Reset

variable {base n : Nat} {h : Hand Nat} {assets : Assets} {draws : Draws} {s t : PlayScene}

theorem boarded_fields (bounds : Size) (sequence : List Int) (s : PlayScene) :
    (s.boarded assets bounds sequence).difficulty = s.difficulty ∧
      (s.boarded assets bounds sequence).timer = s.timer := by
  rw [boarded, dealt_eq]
  exact ⟨rfl, rfl⟩

theorem resetGame_eq_ok (hreset : resetGame assets draws s = .ok t) :
    ∃ bounds m sequence difficulty timer, s.view = some bounds ∧ Dealable s m ∧
      sequence.Perm (pairs m) ∧ s.difficulty = some difficulty ∧ s.timer = some timer ∧
        t = (s.boarded assets bounds sequence).restarted difficulty timer := by
  obtain ⟨u, hbuttons, hreset⟩ := bind_eq_ok.mp hreset
  obtain ⟨v, hdeal, hstats⟩ := bind_eq_ok.mp hreset
  obtain ⟨bounds, m, sequence, hview, hm, hperm, rfl⟩ := boarded_of_ok hbuttons hdeal
  obtain ⟨difficulty, timer, hd, ht, heq⟩ := resetStats_eq_ok hstats
  obtain ⟨hd', ht'⟩ := @boarded_fields assets bounds sequence s
  exact ⟨bounds, m, sequence, difficulty, timer, hview, hm, hperm, hd'.symm.trans hd,
    ht'.symm.trans ht, heq⟩

theorem skeleton_restarted (difficulty : Int) (timer : ℚ) (s : PlayScene) :
    (s.restarted difficulty timer).skeleton = s.skeleton := by
  simp only [skeleton, restarted, scored, fixed_retext]

/-- A reset completes exactly while the scene has a view. -/
theorem resetGame_completes (hp : Playing base n h s) :
    (∃ t, resetGame assets draws s = .ok t) ↔ ∃ bounds, s.view = some bounds := by
  constructor
  · rintro ⟨t, hreset⟩
    obtain ⟨bounds, _, _, _, _, hview, -⟩ := resetGame_eq_ok hreset
    exact ⟨bounds, hview⟩
  · rintro ⟨bounds, hview⟩
    obtain ⟨difficulty, hd⟩ := hp.board.difficulty
    obtain ⟨timer, ht⟩ := hp.timer
    have hn : Dealable (s.framed assets bounds) n :=
      ⟨hp.board.dealable.rows, hp.board.dealable.columns, hp.board.dealable.board,
        hp.board.dealable.fits⟩
    obtain ⟨sequence, -, hdeal⟩ := deal_ok draws hn
    obtain ⟨hd', ht'⟩ := @boarded_fields assets bounds sequence s
    refine ⟨(s.boarded assets bounds sequence).restarted difficulty timer, ?_⟩
    rw [resetGame, createGameButtons_ok assets hview, ok_bind, hdeal, ok_bind]
    exact resetStats_ok (hd'.trans hd) (ht'.trans ht)

/-- The selection and the counters are cleared; the lock and the blocks are not. -/
theorem resetGame_fields (hp : Playing base n h s) (hreset : resetGame assets draws s = .ok t) :
    t.selectedCardIndex1 = -1 ∧ t.selectedCardIndex2 = -1 ∧ t.tryCount = 0 ∧
      t.lockInteraction = s.lockInteraction ∧ t.pending = s.pending ∧
      (∃ timer, t.timer = some timer) ∧ ∃ difficulty, t.difficulty = some difficulty := by
  obtain ⟨bounds, m, sequence, difficulty, timer, -, -, -, -, -, rfl⟩ := resetGame_eq_ok hreset
  have heq := dealt_eq (s.framed assets bounds) sequence
  rw [boarded, heq]
  exact ⟨rfl, rfl, rfl, rfl, rfl, hp.board.time, hp.board.difficulty⟩

/-- With no block in flight, the reset game begins like a new one. -/
theorem resetGame_playing (hp : Playing base n h s) (hpending : s.pending = [])
    (hreset : resetGame assets draws s = .ok t) : ∃ m, Playing (s.nextNode + 6) m .empty t := by
  obtain ⟨h1, h2, -, hlock, hblocks, htimer, -⟩ := resetGame_fields hp hreset
  obtain ⟨bounds, m, sequence, difficulty, timer, -, hm, hperm, -, -, rfl⟩ := resetGame_eq_ok hreset
  have hunlocked : s.lockInteraction = false := by
    have hselected := hp.selected
    cases h with
    | empty | one => exact hselected.2.2.1
    | two =>
      obtain ⟨-, -, -, after, hone⟩ := hselected
      rw [hpending] at hone
      cases hone
  have hboard :=
    @boarded_board assets bounds s m sequence hm hperm hp.board.difficulty hp.board.time
  refine ⟨m, hboard.of_skeleton (skeleton_restarted difficulty timer _),
    ⟨h1, h2, hlock.trans hunlocked, hblocks.trans hpending⟩, ?_, ?_, ?_, htimer, ?_⟩
  · intro k hk
    exact absurd hk (Hand.not_mem_empty k)
  · intro i hi
    cases hi
  · simp only [restarted, scored, boarded, cardsStatus_dealt, List.length_replicate]
    rw [hperm.length_eq, length_pairs]
  · simp only [restarted, scored, boarded, dealt_eq, framed]
    exact hp.pauseTimer

end Reset

/-- The board, the selection and the counters are as they were, and so is what is shown. -/
structure SameBoard (s t : PlayScene) : Prop where
  cardsStatus : t.cardsStatus = s.cardsStatus
  index1 : t.selectedCardIndex1 = s.selectedCardIndex1
  index2 : t.selectedCardIndex2 = s.selectedCardIndex2
  matchesCount : t.matchesCount = s.matchesCount
  tryCount : t.tryCount = s.tryCount
  visible : ∀ m ∈ s.children, (t.node m).settled = (s.node m).settled

/-- The lock will be taken off again. -/
def Releasable (s : PlayScene) : Prop :=
  s.lockInteraction = true →
    ∃ b ∈ s.pending, ∃ t, step s (.fire b) = .ok t ∧ t.lockInteraction = false

/-- However a game goes on after a reset that took `s` to `t`, a block from before the
reset does no harm when it fires, and the lock is not held for ever. -/
def Tolerates (s t : PlayScene) : Prop :=
  ∀ es u, Run step Occurs t es u →
    (∀ b ∈ s.pending, b ∈ u.pending → ∃ v, step u (.fire b) = .ok v ∧ SameBoard u v) ∧ Releasable u

theorem Playing.releasable {base n : Nat} {h : Hand Nat} {s : PlayScene} (hp : Playing base n h s) :
    Releasable s := by
  intro hlock
  have hselected := hp.selected
  cases h with
  | empty | one =>
    rw [hselected.2.2.1] at hlock
    cases hlock
  | two i j hne =>
    obtain ⟨-, -, -, after, hpending⟩ := hselected
    have hmem : ⟨s.pairKind i j, after⟩ ∈ s.pending := by
      rw [hpending]
      exact List.mem_singleton_self _
    obtain ⟨t, hstep, houtcome⟩ := fire_two hp hmem
    exact ⟨_, hmem, t, hstep, (houtcome.playing hp).selected.2.2.1⟩

/-- A match block that was pending at the reset stops the process, at index -1. -/
theorem matchBlock_stale {s : PlayScene} (h1 : s.selectedCardIndex1 = -1) :
    matchBlock s = .error .indexOutOfRange := by
  rw [matchBlock, h1, setStatusCardFound, setAt_neg_one, error_bind, error_bind]

/-- A mismatch block that was pending at the reset counts a try in the new game. -/
theorem mismatchBlock_stale {s : PlayScene} {difficulty : Int} {timer : ℚ}
    (h1 : s.selectedCardIndex1 = -1) (hd : s.difficulty = some difficulty)
    (ht : s.timer = some timer) :
    mismatchBlock s = .ok (scored difficulty timer { s with tryCount := s.tryCount + 1 }) := by
  have hguard : resetSelectedCards s = .ok s := by
    rw [resetSelectedCards, if_pos (by omega)]
  rw [mismatchBlock, hguard, ok_bind]
  exact updateScore_ok (s := { s with tryCount := s.tryCount + 1 }) hd ht

section Tolerance

variable {base n : Nat} {h : Hand Nat} {assets : Assets} {draws : Draws} {s t : PlayScene}

theorem not_tolerates (hp : Playing base n h s) (hreset : resetGame assets draws s = .ok t)
    (hpending : s.pending ≠ []) : ¬ Tolerates s t := by
  intro htolerates
  obtain ⟨h1, -, -, -, hblocks, ⟨timer, ht⟩, difficulty, hd⟩ := resetGame_fields hp hreset
  obtain ⟨b, hb⟩ := List.exists_mem_of_ne_nil _ hpending
  obtain ⟨hstale, -⟩ := htolerates [] t (.nil t)
  obtain ⟨v, hstep, hsame⟩ := hstale b hb (hblocks ▸ hb)
  change runBlock b.kind { t with pending := t.pending.erase b } = _ at hstep
  cases hkind : b.kind with
  | matched =>
    rw [hkind, runBlock,
      matchBlock_stale (s := { t with pending := t.pending.erase b }) h1] at hstep
    cases hstep
  | unmatched =>
    rw [hkind, runBlock,
      mismatchBlock_stale (s := { t with pending := t.pending.erase b }) h1 hd ht] at hstep
    cases hstep
    have htries : t.tryCount + 1 = t.tryCount := hsame.tryCount
    omega

theorem tolerates (hp : Playing base n h s) (hreset : resetGame assets draws s = .ok t)
    (hpending : s.pending = []) : Tolerates s t := by
  intro es u hrun
  obtain ⟨m, hp'⟩ := resetGame_playing hp hpending hreset
  obtain ⟨h', hp''⟩ := run_playing hp' hrun
  refine ⟨?_, hp''.releasable⟩
  intro b hb
  rw [hpending] at hb
  cases hb

end Tolerance

/-- The protocol is kept by every run whose resets are calm. -/
theorem run_calm {assets : Assets} {s t : PlayScene} {ops : List Operation}
    (hp : ∃ base n h, Playing base n h s) (hrun : Run (perform assets) Calm s ops t) :
    ∃ base n h, Playing base n h t := by
  refine hrun.preserves (I := fun s => ∃ base n h, Playing base n h s) ?_ hp
  rintro s op t ⟨base, n, h, hp⟩ hm hs
  cases op with
  | event e =>
    obtain ⟨h', houtcome⟩ := outcome_of_step hp hm hs
    exact ⟨base, n, h', houtcome.playing hp⟩
  | reset draws =>
    obtain ⟨m, hp'⟩ := resetGame_playing hp hm hs
    exact ⟨_, m, _, hp'⟩

/-- In every run that resets only while no block is pending, the lock can always be
taken off. A further reset completes while there is a view, and then it is tolerated
exactly when no block is pending. -/
theorem reset_tolerated_iff (g : Game) {s t : PlayScene} {ops : List Operation}
    (hstart : g.start = .ok s) (hrun : Run (perform g.assets) Calm s ops t) :
    Releasable t ∧ ∀ draws,
      ((∃ u, resetGame g.assets draws t = .ok u) ↔ ∃ bounds, t.view = some bounds) ∧
        ∀ u, resetGame g.assets draws t = .ok u → (Tolerates t u ↔ t.pending = []) := by
  obtain ⟨n, sequence, hn, hperm, rfl⟩ := Game.start_eq_ok hstart
  obtain ⟨base, m, h, hp⟩ := run_calm ⟨6, n, .empty, g.opened_playing hn hperm⟩ hrun
  refine ⟨hp.releasable, fun draws => ⟨resetGame_completes hp, ?_⟩⟩
  intro u hreset
  constructor
  · intro htolerates
    by_contra hpending
    exact not_tolerates hp hreset hpending htolerates
  · exact tolerates hp hreset

/-- One card turned, the game reset, and a card of the new board turned: the game can be reset
once more. -/
theorem reset_tolerated_iff_small : ∃ t,
    Game.small.played (perform Game.small.assets) Calm
      [.event (.touch 7), .reset .first, .event (.touch 21)] = some t ∧ Releasable t ∧
    ∃ u, resetGame Game.small.assets .first t = .ok u ∧ Tolerates t u := by
  have hplayed : (Game.small.played (perform Game.small.assets) Calm
      [.event (.touch 7), .reset .first, .event (.touch 21)]).map
      (fun t => (t.view.isSome, t.pending)) = some (true, []) := by decide +kernel
  obtain ⟨s, t, hs, ht, hrun, hplayed⟩ := Game.run_of_map Game.small (perform Game.small.assets)
    Calm _ hplayed
  rw [Prod.mk.injEq] at hplayed
  obtain ⟨hreleasable, hresets⟩ := reset_tolerated_iff Game.small hs hrun
  obtain ⟨hcompletes, htolerates⟩ := hresets .first
  obtain ⟨u, hreset⟩ := hcompletes.mpr (Option.isSome_iff_exists.mp hplayed.1)
  exact ⟨t, ht, hreleasable, u, hreset, (htolerates u hreset).mpr hplayed.2⟩

/-- A pair is turned and the game reset before its block fires. -/
theorem reset_not_tolerated : ¬ ∀ (g : Game) (s t u : PlayScene) (es : List Event) (draws : Draws),
    g.start = .ok s → Run step OnScreen s es t → resetGame g.assets draws t = .ok u →
      Tolerates t u := by
  intro hall
  have hplayed : (Game.small.played step OnScreen [.touch 7, .touch 13]).map
      (fun t => (t.view.isSome, t.pending)) = some (true, [⟨.matched, 4⟩]) := by decide +kernel
  obtain ⟨s, t, hs, ht, hrun, hplayed⟩ := Game.run_of_map Game.small step OnScreen _ hplayed
  rw [Prod.mk.injEq] at hplayed
  obtain ⟨n, sequence, hn, hperm, rfl⟩ := Game.start_eq_ok hs
  obtain ⟨h, hp⟩ := run_playing (Game.small.opened_playing hn hperm)
    (hrun.mono fun _ _ h => h.occurs)
  obtain ⟨u, hreset⟩ := (@resetGame_completes _ _ _ Game.small.assets .first _ hp).mpr
    (Option.isSome_iff_exists.mp hplayed.1)
  refine not_tolerates hp hreset ?_ (hall Game.small _ t u _ .first hs hrun hreset)
  rw [hplayed.2]
  exact List.cons_ne_nil _ _

end PlayScene
end CardsGame
