import CardsGame.Score

/-!
# Every game can be finished

From any state of a game whose scene is still shown, the player who knows the cards
can finish it without a miss: he ends the pause, waits for the pending block, and
turns one pair after another. Each pair is one stretch of events that finds it.
-/
namespace CardsGame

open Swift SpriteKit
open Pairs (Hand Table)
open Runs (Run)

namespace PlayScene

/-- The events of such a continuation. -/
def Helpful (s : PlayScene) (e : Event) : Prop :=
  OnScreen s e ∧ match e with
    | .touch nod => nod ∈ s.cardsBacks ∧ s.presented = []
    | .togglePause now _ => s.pauseState = true ∧ Accepts s now
    | .fire _ | .evaluateActions _ => True
    | .frame _ | .accelerometer _ | .leave => False

/-- The scene after the actions of these nodes were evaluated. -/
def evaluated (ns : List Nat) (s : PlayScene) : PlayScene :=
  { s with node := fun m => if m ∈ ns then (s.node m).evaluate else s.node m }

theorem evaluated_cons (n : Nat) (ns : List Nat) (s : PlayScene) :
    (s.evaluateActions n).evaluated ns = s.evaluated (n :: ns) := by
  have hnode : (fun m => if m ∈ ns then ((s.evaluateActions n).node m).evaluate
      else (s.evaluateActions n).node m) =
      fun m => if m ∈ n :: ns then (s.node m).evaluate else s.node m := by
    funext m
    by_cases hm : m = n
    · subst hm
      simp only [evaluateActions, Function.update_self, List.mem_cons_self, if_true]
      split
      · rfl
      · rfl
    · simp only [evaluateActions, Function.update_of_ne hm, List.mem_cons, hm, false_or]
  unfold evaluated
  rw [hnode]
  rfl

theorem run_evaluated {ns : List Nat} {s : PlayScene} (h : ∀ n ∈ ns, n ∈ s.children) :
    Run step Helpful s (ns.map .evaluateActions) (s.evaluated ns) := by
  induction ns generalizing s with
  | nil =>
    have hnil : s.evaluated [] = s := by simp [evaluated]
    rw [hnil]
    exact .nil s
  | cons n ns ih =>
    obtain ⟨hn, hns⟩ := List.forall_mem_cons.mp h
    rw [← evaluated_cons]
    exact .cons ⟨⟨hn, trivial⟩, trivial⟩ rfl (ih (s := s.evaluateActions n) hns)

/-- The scene after all the queued actions of its nodes were applied. -/
def atRest (s : PlayScene) : PlayScene := s.evaluated s.children

theorem node_atRest {s : PlayScene} {n : Nat} (h : n ∈ s.children) :
    s.atRest.node n = (s.node n).evaluate :=
  if_pos h

theorem quiet_atRest (base : Nat) (s : PlayScene) : Quiet base s s.atRest := by
  refine quiet_with ?_ ?_ ?_ id id (Nat.le_refl _) (incidental_nil s.effects)
  · intro m
    split <;> simp
  · intro m _
    split
    · exact .inr rfl
    · exact .inl rfl
  · intro m _ _ hm
    split
    · exact hm.evaluate
    · exact hm

/-- A scene at rest lets its pending block fire. -/
theorem onScreen_fire {s : PlayScene} {b : Block} (hb : b ∈ s.pending) :
    OnScreen s.atRest (.fire b) := by
  refine ⟨hb, ?_⟩
  intro n hn a ha
  change n ∈ s.children at hn
  rw [node_atRest hn] at ha
  cases ha

/-- An unpaused game whose scene is still shown. -/
structure Open (base n : Nat) (τ : Table Nat) (s : PlayScene) : Prop where
  shows : Shows base n τ s
  unpaused : s.pauseState = false
  shown : s.presented = []

theorem Open.atRest {base n : Nat} {τ : Table Nat} {s : PlayScene} (h : Open base n τ s) :
    Open base n τ s.atRest :=
  ⟨(quiet_atRest base s).shows h.shows, h.unpaused, h.shown⟩

/-- A scene at rest lets the back of every card be touched that is neither found nor
turned. -/
theorem Open.helpful_touch {base n : Nat} {τ : Table Nat} {s : PlayScene} (h : Open base n τ s)
    {k : Nat} (hk : k < 2 * n) (hfound : k ∉ τ.found) (hhand : k ∉ τ.hand) :
    Helpful s.atRest (.touch (backId base k)) := by
  have hin := (h.shows.playing.board.inScene k hk).2
  have hsettled : (s.node (backId base k)).settled = false := by
    rw [Bool.eq_false_iff, ne_eq, h.shows.back k hk]
    rintro (h | h)
    · exact hfound h
    · exact hhand h
  refine ⟨⟨trivial, hin, ?_⟩, h.shows.playing.board.mem_backs.mpr ⟨k, hk, rfl⟩, h.shown⟩
  rw [node_atRest hin, Node.isHidden_evaluate, hsettled]

/-- Helpful events lead from one state to the other, with no new mismatch and no score. -/
def Leads (s t : PlayScene) : Prop :=
  ∃ es, Run step Helpful s es t ∧ t.mismatches = s.mismatches ∧ t.rankings = s.rankings

/-- Helpful events finish the game: everything is found and a score has been ranked. -/
def Completes (s : PlayScene) : Prop :=
  ∃ es t, Run step Helpful s es t ∧ t.cardsStatus.all id = true ∧
    t.mismatches = s.mismatches ∧ ∃ score, t.rankings = s.rankings ++ [score]

theorem Leads.trans {s t u : PlayScene} (h : Leads s t) (h' : Leads t u) : Leads s u := by
  obtain ⟨es, hrun, hmismatches, hrankings⟩ := h
  obtain ⟨fs, hrun', hmismatches', hrankings'⟩ := h'
  exact ⟨es ++ fs, hrun.append hrun', hmismatches'.trans hmismatches, hrankings'.trans hrankings⟩

theorem Leads.completes {s t : PlayScene} (h : Leads s t) (h' : Completes t) : Completes s := by
  obtain ⟨es, hrun, hmismatches, hrankings⟩ := h
  obtain ⟨fs, u, hrun', hall, hmismatches', score, hrankings'⟩ := h'
  exact ⟨es ++ fs, u, hrun.append hrun', hall, hmismatches'.trans hmismatches, score,
    by rw [hrankings', hrankings]⟩

theorem leads_atRest (s : PlayScene) : Leads s s.atRest :=
  ⟨_, run_evaluated fun _ h => h, rfl, rfl⟩

section Moves

variable {base n : Nat} {τ : Table Nat} {s : PlayScene} {i j k : Nat}

/-- A first card is turned. -/
theorem Open.leads_first (h : Open base n τ s) (hhand : τ.hand = .empty) (hk : k < 2 * n)
    (hfound : k ∉ τ.found) : ∃ t, Leads s t ∧ Open base n { τ with hand := .one k } t := by
  obtain ⟨found, hand, matched, missed⟩ := τ
  subst hhand
  have hhelpful := h.helpful_touch hk hfound (Hand.not_mem_empty k)
  have hrest := h.atRest
  have hleads := leads_atRest s
  generalize s.atRest = r at *
  have hstep := touch_first hrest.shows.playing hk hrest.unpaused
  have heffects : (r.turnedFirst base k).effects =
      r.effects ++ [.cardTouched (r.cardValue k)] := rfl
  refine ⟨r.turnedFirst base k, hleads.trans ⟨_, .single hhelpful hstep, ?_, ?_⟩,
    hrest.shows.turnedFirst hk hrest.unpaused hfound, hrest.unpaused, hrest.shown⟩
  · rw [mismatches_of_append heffects]
    rfl
  · exact rankings_of_append heffects (by simp)

/-- Its partner is turned. -/
theorem Open.leads_second (h : Open base n τ s) (hhand : τ.hand = .one i) (hne : i ≠ j)
    (hj : j < 2 * n) (hfound : j ∉ τ.found) (hvalue : s.cardValue i = s.cardValue j) :
    ∃ t, Leads s t ∧ Open base n { τ with hand := .two i j hne } t ∧
      t.cardValue i = t.cardValue j := by
  obtain ⟨found, hand, matched, missed⟩ := τ
  subst hhand
  have hhelpful := h.helpful_touch hj hfound (fun hmem => hne hmem.symm)
  have hrest := h.atRest
  have hleads := leads_atRest s
  have hvalue' : s.atRest.cardValue i = s.atRest.cardValue j := hvalue
  generalize s.atRest = r at *
  have hstep := touch_second hrest.shows.playing hne hj hrest.unpaused
  have hkind : blockFor r.selectedCard1Value (formatInt (r.cardValue j)) = .matched :=
    (blockFor_eq hrest.shows.playing hj).trans (if_pos hvalue')
  have heffects : (r.turnedSecond base j).effects =
      r.effects ++ [.cardTouched (r.cardValue j), .matchedCards] := by
    change r.effects ++ [_] ++ [announcement (blockFor r.selectedCard1Value
      (formatInt (r.cardValue j)))] = _
    rw [hkind, List.append_assoc]
    rfl
  refine ⟨r.turnedSecond base j, hleads.trans ⟨_, .single hhelpful hstep, ?_, ?_⟩,
    ⟨hrest.shows.turnedSecond hne hj hrest.unpaused hfound, hrest.unpaused, hrest.shown⟩, hvalue'⟩
  · rw [mismatches_of_append heffects]
    rfl
  · exact rankings_of_append heffects (by simp)

/-- The pending block of a scene at rest fires. -/
theorem Open.fires (h : Open base n τ s) {hne : i ≠ j} (hhand : τ.hand = .two i j hne) :
    ∃ b t, OnScreen s.atRest (.fire b) ∧ Run step Helpful s.atRest [.fire b] t ∧
      Outcome base n s.atRest (.two i j hne) (.fire b) t .empty := by
  have hplaying := h.atRest.shows.playing
  rw [hhand] at hplaying
  obtain ⟨-, -, -, after, hpending⟩ := hplaying.selected
  have hmem : ⟨s.atRest.pairKind i j, after⟩ ∈ s.pending := by
    change _ ∈ s.atRest.pending
    rw [hpending]
    exact List.mem_singleton_self _
  obtain ⟨t, hstep, houtcome⟩ := fire_two hplaying hmem
  exact ⟨_, t, onScreen_fire hmem, .single ⟨onScreen_fire hmem, trivial⟩ hstep, houtcome⟩

/-- The match block fires: either that was the last pair, or the game goes on. -/
theorem Open.fire_matched (h : Open base n τ s) {hne : i ≠ j} (hhand : τ.hand = .two i j hne)
    (hvalue : s.cardValue i = s.cardValue j) :
    Completes s ∨ ∃ t τ', Leads s t ∧ Open base n τ' t ∧ τ'.hand = .empty ∧
      τ'.matched = τ.matched + 1 ∧ ¬ t.cardsStatus.all id = true := by
  obtain ⟨b, t, hfire, hrun, houtcome⟩ := h.fires hhand
  obtain ⟨found, hand, matched, missed⟩ := τ
  subst hhand
  have hrest := h.atRest
  have hleads := leads_atRest s
  have hvalue' : s.atRest.cardValue i = s.atRest.cardValue j := hvalue
  generalize s.atRest = r at *
  have hplaying := houtcome.playing hrest.shows.playing
  have hskeleton := houtcome.skeleton
  cases houtcome with
  | missed hmiss => exact absurd hvalue' hmiss
  | @found _ _ _ after' difficulty timer _ hpending' hd ht =>
    by_cases hall : (r.marked base i j difficulty timer).cardsStatus.all id = true
    · have hfed := resolvedFound_fed hpending' hd ht hall
      exact .inl (hleads.completes
        ⟨_, _, hrun, hfed.all, mismatches_resolvedFound, _, hfed.rankings⟩)
    · have hshows := hrest.shows.hit rfl hfire hplaying hskeleton hvalue'
      rw [resolvedFound, finished_of_not_all hall] at hrun hshows
      exact .inr ⟨_, _, hleads.trans ⟨_, hrun, rfl, rfl⟩,
        ⟨hshows, hrest.unpaused, hrest.shown⟩, rfl, rfl, hall⟩

/-- The mismatch block fires: its pair was tried before. -/
theorem Open.fire_unmatched (h : Open base n τ s) {hne : i ≠ j} (hhand : τ.hand = .two i j hne)
    (hvalue : s.cardValue i ≠ s.cardValue j) :
    ∃ t τ', Leads s t ∧ Open base n τ' t ∧ τ'.hand = .empty ∧ τ'.found = τ.found := by
  obtain ⟨b, t, hfire, hrun, houtcome⟩ := h.fires hhand
  obtain ⟨found, hand, matched, missed⟩ := τ
  subst hhand
  have hrest := h.atRest
  have hleads := leads_atRest s
  have hvalue' : s.atRest.cardValue i ≠ s.atRest.cardValue j := hvalue
  generalize s.atRest = r at *
  have hplaying := houtcome.playing hrest.shows.playing
  have hskeleton := houtcome.skeleton
  cases houtcome with
  | found hmatch => exact absurd hmatch hvalue'
  | missed hmiss =>
    exact ⟨_, _, hleads.trans ⟨_, hrun, rfl, rfl⟩,
      ⟨hrest.shows.miss rfl hplaying hskeleton, hrest.unpaused, hrest.shown⟩, rfl, rfl⟩

/-- With one card turned, its partner completes a pair. -/
theorem Open.find_pair (h : Open base n τ s) (hhand : τ.hand = .one i) :
    Completes s ∨ ∃ t τ', Leads s t ∧ Open base n τ' t ∧ τ'.hand = .empty ∧
      τ'.matched = τ.matched + 1 ∧ ¬ t.cardsStatus.all id = true := by
  obtain ⟨hdeck, hfound⟩ := h.shows.sound.hand i (by rw [hhand]; exact rfl)
  obtain ⟨j, hj, hjfound, hne, hvalue⟩ :=
    h.shows.sound.partner h.shows.playing.board.paired hdeck hfound
  obtain ⟨t, hleads, ht, hvalue'⟩ :=
    h.leads_second hhand hne (Finset.mem_range.mp hj) hjfound hvalue
  obtain hcompletes | ⟨u, τ', hleads', hu, hempty, hmatched, hnot⟩ := ht.fire_matched rfl hvalue'
  · exact .inl (hleads.completes hcompletes)
  · exact .inr ⟨u, τ', hleads.trans hleads', hu, hempty, hmatched, hnot⟩

/-- With no card turned, the pairs left are found one after another. -/
theorem Open.completes_of_empty (d : Nat) : ∀ {τ : Table Nat} {s : PlayScene},
    Open base n τ s → τ.hand = .empty → ¬ s.cardsStatus.all id = true → τ.matched + d = n →
      Completes s := by
  induction d with
  | zero =>
    intro τ s h hempty hnot hd
    rw [h.shows.all_iff_matchesCount, h.shows.matched] at hnot
    omega
  | succ d ih =>
    intro τ s h hempty hnot hd
    obtain ⟨k, hk, hfound⟩ : ∃ k ∈ Finset.range (2 * n), k ∉ τ.found := by
      by_contra hno
      simp only [not_exists, not_and, not_not] at hno
      exact hnot (h.shows.all_iff.mpr (Finset.Subset.antisymm h.shows.sound.within hno))
    obtain ⟨t, hleads, ht⟩ := h.leads_first hempty (Finset.mem_range.mp hk) hfound
    obtain hcompletes | ⟨u, τ', hleads', hu, hempty', hmatched, hnot'⟩ := ht.find_pair rfl
    · exact hleads.completes hcompletes
    · have hd' : τ'.matched + d = n := by
        rw [hmatched]
        change τ.matched + 1 + d = n
        omega
      exact (hleads.trans hleads').completes (ih hu hempty' hnot' hd')

/-- Whatever is in the hand, the game can be completed. -/
theorem Open.completes (h : Open base n τ s) (hnot : ¬ s.cardsStatus.all id = true) :
    Completes s := by
  have hempty : ∀ {τ : Table Nat} {s : PlayScene}, Open base n τ s → τ.hand = .empty →
      ¬ s.cardsStatus.all id = true → Completes s := by
    intro τ s h hempty hnot
    have hle := h.shows.sound.matched_le (Finset.card_range (2 * n))
    exact h.completes_of_empty (n - τ.matched) hempty hnot (by omega)
  have hresolve : ∀ {s : PlayScene}, (Completes s ∨ ∃ t τ', Leads s t ∧ Open base n τ' t ∧
      τ'.hand = .empty ∧ τ'.matched = τ.matched + 1 ∧ ¬ t.cardsStatus.all id = true) →
        Completes s := by
    rintro s (hcompletes | ⟨t, τ', hleads, ht, hhand, -, hnot'⟩)
    · exact hcompletes
    · exact hleads.completes (hempty ht hhand hnot')
  cases hhand : τ.hand with
  | empty => exact hempty h hhand hnot
  | one i => exact hresolve (h.find_pair hhand)
  | two i j hne =>
    by_cases hvalue : s.cardValue i = s.cardValue j
    · exact hresolve (h.fire_matched hhand hvalue)
    · obtain ⟨t, τ', hleads, ht, hhand', hfound⟩ := h.fire_unmatched hhand hvalue
      refine hleads.completes (hempty ht hhand' ?_)
      rw [ht.shows.all_iff, hfound, ← h.shows.all_iff]
      exact hnot

/-- An accepted toggle ends the pause. -/
theorem leads_unpaused (hs : Shows base n τ s) (hpause : s.pauseState = true)
    (hshown : s.presented = []) :
    ∃ t, Leads s t ∧ Open base n τ t ∧ t.cardsStatus = s.cardsStatus := by
  obtain ⟨pauseTimer, htimer⟩ := hs.playing.pauseTimer
  obtain ⟨pauseLayer, pauseImg, hl, hi, -⟩ := hs.playing.board.pauseNodes
  have haccept : Accepts s (pauseTimer + 1) := ⟨pauseTimer, htimer, by linarith⟩
  have hstep : step s (.togglePause (pauseTimer + 1) (pauseTimer + 1)) = _ :=
    togglePause_ok (pauseTimer + 1) haccept hl hi
  have hquiet := quiet_toggle hs.playing.board hstep
  have hhelpful : Helpful s (.togglePause (pauseTimer + 1) (pauseTimer + 1)) :=
    ⟨⟨trivial, trivial⟩, hpause, haccept⟩
  refine ⟨_, ⟨_, .single hhelpful hstep, hquiet.mismatches, hquiet.rankings⟩,
    ⟨hquiet.shows hs, ?_, hshown⟩, hquiet.cardsStatus⟩
  change (!s.pauseState) = false
  rw [hpause]
  rfl

end Moves

/-- From every state of every run in which the scene is still shown and a card is still
to be found, helpful events alone lead to the end of the game. -/
theorem no_soft_lock (g : Game) {s t : PlayScene} {es : List Event} (hstart : g.start = .ok s)
    (hrun : Run step OnScreen s es t) (hshown : t.presented = []) (hleft : false ∈ t.cardsStatus) :
    ∃ fs u, Run step Helpful t fs u ∧ (∀ found ∈ u.cardsStatus, found = true) ∧
      u.mismatches = t.mismatches ∧ ∃ score, u.rankings = t.rankings ++ [score] := by
  obtain ⟨n, sequence, hn, hperm, rfl⟩ := Game.start_eq_ok hstart
  obtain ⟨τ, -, hs⟩ := run_shows (opened_shows g hn hperm) hrun
  have hnot : ¬ t.cardsStatus.all id = true := by
    rw [List.all_eq_true]
    intro hall
    exact absurd (hall false hleft) Bool.false_ne_true
  have hcompletes : Completes t := by
    cases hpause : t.pauseState with
    | false => exact Open.completes ⟨hs, hpause, hshown⟩ hnot
    | true =>
      obtain ⟨u, hleads, hu, hstatus⟩ := leads_unpaused hs hpause hshown
      exact hleads.completes (hu.completes (by rwa [hstatus]))
  obtain ⟨fs, u, hrun', hall, hmismatches, hrankings⟩ := hcompletes
  exact ⟨fs, u, hrun', List.all_eq_true.mp hall, hmismatches, hrankings⟩

/-- Two unequal cards turned, and the game paused before their block fires. -/
theorem no_soft_lock_small : ∃ t,
    Game.small.played step OnScreen [.touch 7, .touch 9, .togglePause 1 1] = some t ∧
      ∃ fs u, Run step Helpful t fs u ∧ (∀ found ∈ u.cardsStatus, found = true) := by
  have hplayed : (Game.small.played step OnScreen [.touch 7, .touch 9, .togglePause 1 1]).map
      (fun t => (t.presented, t.cardsStatus)) = some ([], [false, false, false, false]) := by
    decide +kernel
  obtain ⟨s, t, hs, ht, hrun, hplayed⟩ := Game.run_of_map Game.small step OnScreen _ hplayed
  rw [Prod.mk.injEq] at hplayed
  obtain ⟨fs, u, hrun', hall, -⟩ := no_soft_lock Game.small hs hrun hplayed.1
    (by rw [hplayed.2]; simp)
  exact ⟨t, ht, fs, u, hrun', hall⟩

end PlayScene
end CardsGame
