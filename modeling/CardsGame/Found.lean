import CardsGame.Selection

/-!
# What has been found, and what is shown

`ProcessItemTouch` never looks at `cardsStatus`: that a found card is not selected
again rests on its back being hidden. `Shows` ties status, counters and the hidden
flags of both rows of nodes to a game of pairs, and every event either leaves that
game alone or plays one move of it.
-/
namespace CardsGame

open Swift SpriteKit
open Pairs (Hand Table)
open Runs (Run)

namespace PlayScene

/-- The scene is at this point of the game of pairs. -/
structure Shows (base n : Nat) (τ : Table Nat) (s : PlayScene) : Prop where
  playing : Playing base n τ.hand s
  sound : Pairs.Sound (Finset.range (2 * n)) s.cardValue τ
  found : ∀ k, s.cardsStatus[k]? = some true ↔ k ∈ τ.found
  matched : s.matchesCount = τ.matched
  missed : s.tryCount = τ.missed
  back : ∀ k, k < 2 * n → ((s.node (backId base k)).settled = true ↔ k ∈ τ.found ∨ k ∈ τ.hand)
  front : ∀ k, k < 2 * n → ((s.node (frontId base k)).settled = true ↔ k ∈ τ.found)
  /-- The back of a found card can no longer be touched. -/
  gone : ∀ k ∈ τ.found, (s.node (backId base k)).isHidden = true ∧
    (s.node (backId base k)).actions = []
  /-- Actions queued on a back are older than the block that waits, if one does. -/
  queued : ∀ k, k < 2 * n → ∀ a ∈ (s.node (backId base k)).actions,
    a.ordinal < s.actionsStarted ∧ ∀ b ∈ s.pending, a.ordinal < b.after

section Refinement

variable {base n : Nat} {τ : Table Nat} {s t : PlayScene}

theorem sound_of_skeleton (hskeleton : t.skeleton = s.skeleton)
    (h : Pairs.Sound (Finset.range (2 * n)) s.cardValue τ) :
    Pairs.Sound (Finset.range (2 * n)) t.cardValue τ := by
  have hvalue : t.cardValue = s.cardValue := funext (cardValue_of_skeleton hskeleton)
  rwa [hvalue]

/-- What is shown does not depend on when the queued actions are applied. -/
theorem Quiet.shows (hq : Quiet base s t) (hs : Shows base n τ s) : Shows base n τ t := by
  have hsettled : ∀ m, base ≤ m → (t.node m).settled = (s.node m).settled := by
    intro m hm
    obtain h | h := hq.node m hm
    · rw [h]
    · rw [h, Node.settled_evaluate]
  refine ⟨hq.playing hs.playing, sound_of_skeleton hq.skeleton hs.sound, ?_, ?_, ?_, ?_, ?_, ?_, ?_⟩
  · rw [hq.cardsStatus]
    exact hs.found
  · rw [hq.matchesCount]
    exact hs.matched
  · rw [hq.tryCount]
    exact hs.missed
  · intro k hk
    rw [hsettled _ (by simp only [backId]; omega)]
    exact hs.back k hk
  · intro k hk
    rw [hsettled _ (by simp only [frontId]; omega)]
    exact hs.front k hk
  · intro k hk
    obtain ⟨hhidden, hnone⟩ := hs.gone k hk
    obtain h | h := hq.node (backId base k) (by simp only [backId]; omega)
    · rw [h]
      exact ⟨hhidden, hnone⟩
    · rw [h, Node.isHidden_evaluate, Node.settled_of_no_actions hnone]
      exact ⟨hhidden, rfl⟩
  · intro k hk a ha
    obtain h | h := hq.node (backId base k) (by simp only [backId]; omega)
    · rw [h] at ha
      obtain ⟨hstarted, hpending⟩ := hs.queued k hk a ha
      rw [hq.pending]
      exact ⟨hstarted.trans_le hq.actionsStarted, hpending⟩
    · rw [h, Node.actions_evaluate] at ha
      cases ha

/-- The back of a card that has not been found is all that a touch can reach. -/
theorem Shows.not_found (hs : Shows base n τ s) {k : Nat}
    (hvisible : (s.node (backId base k)).isHidden = false) : k ∉ τ.found := by
  intro hk
  rw [(hs.gone k hk).1] at hvisible
  cases hvisible

theorem backId_inj {j k : Nat} : backId base j = backId base k ↔ j = k := by
  simp only [backId]
  omega

theorem frontId_inj {j k : Nat} : frontId base j = frontId base k ↔ j = k := by
  simp only [frontId]
  omega

theorem backId_ne_frontId (j k : Nat) : backId base j ≠ frontId base k := by
  simp only [backId, frontId]
  omega

theorem backId_ne_label (hb : Board base n s) (k : Nat) : s.scoreLabel ≠ some (backId base k) := by
  intro h
  have := hb.scoreLabel _ h
  simp only [backId] at this
  omega

theorem frontId_ne_label (hb : Board base n s) (k : Nat) :
    s.scoreLabel ≠ some (frontId base k) := by
  intro h
  have := hb.scoreLabel _ h
  simp only [frontId] at this
  omega

/-- A touched back is queued to hide; the other card nodes stay as they were. -/
theorem Shows.turn {h' : Hand Nat} {k : Nat} (hs : Shows base n τ s)
    (hplaying : Playing base n h' t) (hskeleton : t.skeleton = s.skeleton)
    (hsound : Pairs.Sound (Finset.range (2 * n)) s.cardValue { τ with hand := h' })
    (hhand : ∀ m, m ∈ h' ↔ m ∈ τ.hand ∨ m = k)
    (hstatus : t.cardsStatus = s.cardsStatus) (hmatches : t.matchesCount = s.matchesCount)
    (htries : t.tryCount = s.tryCount) (hfound : k ∉ τ.found)
    (hnode : t.node = Function.update s.node (backId base k)
      ((s.node (backId base k)).queue ⟨true, s.actionsStarted⟩))
    (hstarted : t.actionsStarted = s.actionsStarted + 1)
    (hpending : ∀ b ∈ t.pending, b.after = s.actionsStarted + 1) :
    Shows base n { τ with hand := h' } t := by
  have hback : ∀ m, m ≠ k → t.node (backId base m) = s.node (backId base m) := by
    intro m hm
    rw [hnode, Function.update_of_ne (mt backId_inj.mp hm)]
  refine ⟨hplaying, sound_of_skeleton hskeleton hsound, ?_, ?_, ?_, ?_, ?_, ?_, ?_⟩
  · rw [hstatus]
    exact hs.found
  · rw [hmatches]
    exact hs.matched
  · rw [htries]
    exact hs.missed
  · intro m hm
    simp only [hnode, settled_queued, backId_inj, hhand]
    by_cases hmk : m = k
    · simp [hmk]
    · simp [hmk, hs.back m hm]
  · intro m hm
    rw [hnode, Function.update_of_ne (Ne.symm (backId_ne_frontId k m))]
    exact hs.front m hm
  · intro m hm
    have hmk : m ≠ k := by
      rintro rfl
      exact hfound hm
    rw [hback m hmk]
    exact hs.gone m hm
  · intro m hm a ha
    rw [hnode] at ha
    have hold : a.ordinal < s.actionsStarted + 1 := by
      obtain ha | rfl := mem_queued ha
      · exact (hs.queued m hm a ha).1.trans (Nat.lt_succ_self _)
      · exact Nat.lt_succ_self _
    refine ⟨hstarted ▸ hold, ?_⟩
    intro b hb
    rw [hpending b hb]
    exact hold

/-- By the time the block of a pair fires, the backs of the pair are hidden for good. -/
theorem Shows.gone_of_fire (hs : Shows base n τ s) {b : Block} (ho : OnScreen s (.fire b)) {k : Nat}
    (hk : k < 2 * n) (hhand : k ∈ τ.hand) :
    (s.node (backId base k)).isHidden = true ∧ (s.node (backId base k)).actions = [] := by
  have hnone : (s.node (backId base k)).actions = [] := by
    rw [List.eq_nil_iff_forall_not_mem]
    intro a ha
    have holder := (hs.queued k hk a ha).2 b ho.1
    have hnewer := ho.2 _ (hs.playing.board.inScene k hk).2 a ha
    omega
  refine ⟨?_, hnone⟩
  rw [← Node.settled_of_no_actions hnone, hs.back k hk]
  exact .inr hhand

theorem node_resolvedFound (i j : Nat) (difficulty : Int) (timer : ℚ) {m : Nat}
    (hm : s.scoreLabel ≠ some m) : (s.resolvedFound base i j difficulty timer).node m =
      queuePair true (frontId base i) (frontId base j) s.actionsStarted s.node m := by
  obtain ⟨defaults, presented, effects, heq⟩ := (s.marked base i j difficulty timer).finished_eq
  rw [resolvedFound, heq]
  exact retext_of_ne hm _ _

theorem node_resolvedMissed (i j : Nat) (difficulty : Int) (timer : ℚ) {m : Nat}
    (hm : s.scoreLabel ≠ some m) : (s.resolvedMissed base i j difficulty timer).node m =
      queuePair false (backId base i) (backId base j) s.actionsStarted s.node m :=
  retext_of_ne hm _ _

theorem getElem?_set_pair {status : List Bool} {i j : Nat} (hi : i < status.length)
    (hj : j < status.length) (k : Nat) :
    ((status.set i true).set j true)[k]? = some true ↔ k = i ∨ k = j ∨ status[k]? = some true := by
  by_cases hkj : k = j
  · subst hkj
    simp [hj]
  · rw [List.getElem?_set_ne (Ne.symm hkj)]
    by_cases hki : k = i
    · subst hki
      simp [hi]
    · rw [List.getElem?_set_ne (Ne.symm hki)]
      simp [hki, hkj]

section Resolved

variable {i j : Nat} {hne : i ≠ j} {b : Block} {difficulty : Int} {timer : ℚ}
  (hs : Shows base n τ s) (hhand : τ.hand = .two i j hne) (ho : OnScreen s (.fire b))

include hs hhand ho

/-- After the match block the fronts are queued to hide as well. -/
theorem Shows.hit (hplaying : Playing base n .empty (s.resolvedFound base i j difficulty timer))
    (hskeleton : (s.resolvedFound base i j difficulty timer).skeleton = s.skeleton)
    (hvalue : s.cardValue i = s.cardValue j) :
    Shows base n ⟨insert i (insert j τ.found), .empty, τ.matched + 1, τ.missed⟩
      (s.resolvedFound base i j difficulty timer) := by
  have hmem : ∀ k, k ∈ τ.hand ↔ k = i ∨ k = j := by
    intro k
    rw [hhand, Hand.mem_two]
  have hi := hs.playing.valid i ((hmem i).mpr (.inl rfl))
  have hj := hs.playing.valid j ((hmem j).mpr (.inr rfl))
  have hback : ∀ k, (s.resolvedFound base i j difficulty timer).node (backId base k) =
      s.node (backId base k) := by
    intro k
    rw [node_resolvedFound i j _ _ (backId_ne_label hs.playing.board k),
      queuePair_other (backId_ne_frontId k i) (backId_ne_frontId k j)]
  have hsound := hs.sound.hit hs.playing.board.paired hhand hvalue
  obtain ⟨defaults, presented, effects, heq⟩ := (s.marked base i j difficulty timer).finished_eq
  refine ⟨hplaying, sound_of_skeleton hskeleton hsound, ?_, ?_, ?_, ?_, ?_, ?_, ?_⟩
  · intro k
    rw [resolvedFound, heq]
    change ((s.cardsStatus.set i true).set j true)[k]? = some true ↔ _
    rw [getElem?_set_pair (hs.playing.status ▸ hi) (hs.playing.status ▸ hj), hs.found,
      Finset.mem_insert, Finset.mem_insert]
  · rw [resolvedFound, heq]
    change s.matchesCount + 1 = _
    rw [hs.matched]
    rfl
  · rw [resolvedFound, heq]
    exact hs.missed
  · intro k hk
    rw [hback, hs.back k hk, hmem, Finset.mem_insert, Finset.mem_insert]
    have := Hand.not_mem_empty k
    tauto
  · intro k hk
    rw [node_resolvedFound i j _ _ (frontId_ne_label hs.playing.board k)]
    simp only [settled_queuePair, frontId_inj, Finset.mem_insert, ← or_assoc]
    by_cases hki : k = i ∨ k = j
    · simp [hki]
    · simp [hki, hs.front k hk]
  · intro k hk
    rw [hback]
    rw [Finset.mem_insert, Finset.mem_insert] at hk
    obtain rfl | rfl | hk := hk
    · exact hs.gone_of_fire ho hi ((hmem k).mpr (.inl rfl))
    · exact hs.gone_of_fire ho hj ((hmem k).mpr (.inr rfl))
    · exact hs.gone k hk
  · intro k hk a ha
    rw [hback] at ha
    have hold := (hs.queued k hk a ha).1
    constructor
    · rw [resolvedFound, heq]
      change a.ordinal < s.actionsStarted + 1 + 1
      omega
    · intro c hc
      rw [resolvedFound, heq] at hc
      cases hc

omit ho in
/-- After the mismatch block both backs are queued to show again. -/
theorem Shows.miss (hplaying : Playing base n .empty (s.resolvedMissed base i j difficulty timer))
    (hskeleton : (s.resolvedMissed base i j difficulty timer).skeleton = s.skeleton) :
    Shows base n { τ with hand := .empty, missed := τ.missed + 1 }
      (s.resolvedMissed base i j difficulty timer) := by
  have hmem : ∀ k, k ∈ τ.hand ↔ k = i ∨ k = j := by
    intro k
    rw [hhand, Hand.mem_two]
  have hfound : ∀ k, k = i ∨ k = j → k ∉ τ.found := by
    intro k hk
    exact (hs.sound.hand k ((hmem k).mpr hk)).2
  have hnode : ∀ k, (s.resolvedMissed base i j difficulty timer).node (backId base k) =
      queuePair false (backId base i) (backId base j) s.actionsStarted s.node (backId base k) := by
    intro k
    exact node_resolvedMissed i j _ _ (backId_ne_label hs.playing.board k)
  have hsound : Pairs.Sound (Finset.range (2 * n)) s.cardValue
      { τ with hand := .empty, missed := τ.missed + 1 } := by
    refine ⟨hs.sound.within, hs.sound.whole, hs.sound.count, ?_⟩
    intro k hk
    exact absurd hk (Hand.not_mem_empty k)
  refine ⟨hplaying, sound_of_skeleton hskeleton hsound, hs.found, hs.matched, ?_, ?_, ?_, ?_, ?_⟩
  · change s.tryCount + 1 = ((τ.missed + 1 : Nat) : Int)
    rw [hs.missed]
    rfl
  · intro k hk
    simp only [hnode, settled_queuePair, backId_inj]
    by_cases hki : k = i ∨ k = j
    · simp [hki, hfound k hki]
    · simp [hki, hs.back k hk, hmem]
  · intro k hk
    rw [node_resolvedMissed i j _ _ (frontId_ne_label hs.playing.board k),
      queuePair_other (Ne.symm (backId_ne_frontId i k)) (Ne.symm (backId_ne_frontId j k))]
    exact hs.front k hk
  · intro k hk
    have hki : k ≠ i := fun h => hfound k (.inl h) hk
    have hkj : k ≠ j := fun h => hfound k (.inr h) hk
    rw [hnode, queuePair_other (mt backId_inj.mp hki) (mt backId_inj.mp hkj)]
    exact hs.gone k hk
  · intro k hk a ha
    constructor
    · change a.ordinal < s.actionsStarted + 1 + 1
      rw [hnode] at ha
      obtain ha | ha := mem_queuePair ha
      · exact (hs.queued k hk a ha).1.trans (by omega)
      · exact Nat.lt_succ_of_le ha
    · intro c hc
      cases hc

end Resolved

section Turned

variable {found : Finset Nat} {matched missed k : Nat}

theorem Shows.turnedFirst (hs : Shows base n ⟨found, .empty, matched, missed⟩ s) (hk : k < 2 * n)
    (hpause : s.pauseState = false) (hfound : k ∉ found) :
    Shows base n ⟨found, .one k, matched, missed⟩ (s.turnedFirst base k) := by
  have houtcome : Outcome base n s .empty _ _ _ := .first hk hpause
  have hmove : Pairs.Step (Finset.range (2 * n)) s.cardValue ⟨found, .empty, matched, missed⟩ _ :=
    .first rfl (Finset.mem_range.mpr hk) hfound
  refine hs.turn (houtcome.playing hs.playing) houtcome.skeleton
    (hs.sound.step hs.playing.board.paired hmove) (by simp) rfl rfl rfl hfound rfl rfl ?_
  intro b hb
  change b ∈ s.pending at hb
  rw [hs.playing.selected.2.2.2] at hb
  cases hb

theorem Shows.turnedSecond {i : Nat} (hs : Shows base n ⟨found, .one i, matched, missed⟩ s)
    (hne : i ≠ k) (hk : k < 2 * n) (hpause : s.pauseState = false) (hfound : k ∉ found) :
    Shows base n ⟨found, .two i k hne, matched, missed⟩ (s.turnedSecond base k) := by
  have houtcome : Outcome base n s (.one i) _ _ _ := .second hne hk hpause
  have hmove : Pairs.Step (Finset.range (2 * n)) s.cardValue ⟨found, .one i, matched, missed⟩ _ :=
    .second hne rfl (Finset.mem_range.mpr hk) hfound
  refine hs.turn (houtcome.playing hs.playing) houtcome.skeleton
    (hs.sound.step hs.playing.board.paired hmove) (by simp) rfl rfl rfl hfound rfl rfl ?_
  intro b hb
  change b ∈ s.pending ++ [_] at hb
  rw [hs.playing.selected.2.2.2, List.nil_append, List.mem_singleton] at hb
  rw [hb]
  rfl

end Turned

/-- Every event on the screen is one move of the game of pairs or none. -/
theorem Shows.step {e : Event} (hs : Shows base n τ s) (ho : OnScreen s e)
    (hstep : PlayScene.step s e = .ok t) :
    ∃ τ', (τ' = τ ∨ Pairs.Step (Finset.range (2 * n)) s.cardValue τ τ') ∧ Shows base n τ' t := by
  obtain ⟨h', houtcome⟩ := outcome_of_step hs.playing ho.occurs hstep
  have hplaying := houtcome.playing hs.playing
  have hskeleton := houtcome.skeleton
  obtain ⟨found, hand, matched, missed⟩ := τ
  cases houtcome with
  | quiet _ hquiet => exact ⟨_, .inl rfl, hquiet.shows hs⟩
  | first hk hpause =>
    have hfound := hs.not_found ho.2.2
    exact ⟨_, .inr (.first rfl (Finset.mem_range.mpr hk) hfound), hs.turnedFirst hk hpause hfound⟩
  | second hne hj hpause =>
    have hfound := hs.not_found ho.2.2
    exact ⟨_, .inr (.second hne rfl (Finset.mem_range.mpr hj) hfound),
      hs.turnedSecond hne hj hpause hfound⟩
  | found hvalue =>
    exact ⟨_, .inr (.hit rfl hvalue), hs.hit rfl ho hplaying hskeleton hvalue⟩
  | missed hvalue =>
    exact ⟨_, .inr (.miss rfl hvalue), hs.miss rfl hplaying hskeleton⟩

end Refinement

/-- When the game starts, nothing is found and every card shows its back. -/
theorem opened_shows (g : Game) {n : Nat} {sequence : List Int} (hn : Dealable g.scene n)
    (hperm : sequence.Perm (pairs n)) : Shows 6 n Table.initial (g.opened sequence) := by
  have hlength : sequence.length = 2 * n := by rw [hperm.length_eq, length_pairs]
  have hback : ∀ k, k < 2 * n → ((g.opened sequence).node (backId 6 k)).isHidden = false ∧
      ((g.opened sequence).node (backId 6 k)).actions = [] := by
    intro k hk
    have hnode := node_dealt_back (g.scene.framed g.assets g.bounds) sequence (hlength ▸ hk)
    change (g.opened sequence).node (backId 6 k) = _ at hnode
    rw [hnode]
    exact ⟨rfl, rfl⟩
  have hfront : ∀ k, k < 2 * n → ((g.opened sequence).node (frontId 6 k)).settled = false := by
    intro k hk
    have hnode := node_dealt_front (g.scene.framed g.assets g.bounds) sequence (hlength ▸ hk)
    change (g.opened sequence).node (frontId 6 k) = _ at hnode
    rw [hnode]
    rfl
  refine ⟨g.opened_playing hn hperm, Pairs.sound_initial, ?_, rfl, rfl, ?_, ?_, ?_, ?_⟩
  · intro k
    change (List.replicate sequence.length false)[k]? = some true ↔ k ∈ (∅ : Finset Nat)
    simp [List.getElem?_replicate]
  · intro k hk
    rw [Node.settled_of_no_actions (hback k hk).2, (hback k hk).1]
    simp [Table.initial]
  · intro k hk
    rw [hfront k hk]
    simp [Table.initial]
  · intro k hk
    exact absurd hk (Finset.notMem_empty k)
  · intro k hk a ha
    rw [(hback k hk).2] at ha
    cases ha

section Runs

variable {base n : Nat} {τ : Table Nat} {s t : PlayScene} {es : List Event}

/-- What has been found stays found. -/
theorem run_shows (hs : Shows base n τ s) (hrun : Run step OnScreen s es t) :
    ∃ τ', τ.found ⊆ τ'.found ∧ Shows base n τ' t := by
  refine hrun.preserves (I := fun t => ∃ τ', τ.found ⊆ τ'.found ∧ Shows base n τ' t) ?_
    ⟨τ, Finset.Subset.refl _, hs⟩
  rintro t e u ⟨τ₁, hsub, hs₁⟩ ho hstep
  obtain ⟨τ₂, hmove, hs₂⟩ := hs₁.step ho hstep
  refine ⟨τ₂, ?_, hs₂⟩
  obtain rfl | hmove := hmove
  · exact hsub
  · exact hsub.trans hmove.found_mono

/-- The firing of a mismatch block. -/
def firesMismatch : Event → Bool
  | .fire b => b.kind = .unmatched
  | _ => false

theorem Outcome.tryCount {h h' : Hand Nat} {e : Event} (ho : Outcome base n s h e t h') :
    t.tryCount = s.tryCount + if firesMismatch e then 1 else 0 := by
  cases ho with
  | @quiet h e t hfire hquiet =>
    have hno : firesMismatch e = false := by
      cases e with
      | fire b => exact absurd rfl (hfire b)
      | _ => rfl
    rw [hquiet.tryCount, hno]
    simp
  | first | second => exact (Int.add_zero _).symm
  | @found i j _ _ difficulty timer =>
    obtain ⟨defaults, presented, effects, heq⟩ := (s.marked base i j difficulty timer).finished_eq
    rw [resolvedFound, heq]
    exact (Int.add_zero _).symm
  | missed => rfl

theorem run_tryCount {h : Hand Nat} (hp : Playing base n h s) (hrun : Run step Occurs s es t) :
    t.tryCount = s.tryCount + es.countP firesMismatch := by
  refine hrun.counts (I := fun s => ∃ h, Playing base n h s) ?_ ⟨h, hp⟩
  rintro s e t ⟨h, hp⟩ ho hs
  obtain ⟨h', houtcome⟩ := outcome_of_step hp ho hs
  exact ⟨⟨h', houtcome.playing hp⟩, houtcome.tryCount⟩

theorem Shows.selected_iff (hs : Shows base n τ s) (k : Nat) :
    k ∈ τ.hand ↔ s.selectedCardIndex1 = k ∨ s.selectedCardIndex2 = k := by
  have hselected := hs.playing.selected
  cases hhand : τ.hand with
  | empty =>
    rw [hhand] at hselected
    obtain ⟨h1, h2, -⟩ := hselected
    simp [h1, h2]
  | one i =>
    rw [hhand] at hselected
    obtain ⟨h1, h2, -⟩ := hselected
    simp [h1, h2, eq_comm]
  | two i j hne =>
    rw [hhand] at hselected
    obtain ⟨h1, h2, -⟩ := hselected
    simp [h1, h2, eq_comm]

theorem Shows.count_status (hs : Shows base n τ s) :
    (s.cardsStatus.count true : Int) = 2 * s.matchesCount := by
  have hset : (Finset.range s.cardsStatus.length).filter
      (fun k => s.cardsStatus[k]?.getD false = true) = τ.found := by
    ext k
    rw [← hs.found, Finset.mem_filter, Finset.mem_range]
    by_cases hk : k < s.cardsStatus.length
    · simp [hk]
    · simp [hk]
  have hcard := Pairs.card_indices s.cardsStatus false true
  rw [hset, hs.sound.count] at hcard
  rw [← hcard, hs.matched]
  push_cast
  rfl

end Runs

/-- Found cards, counters and what is shown agree in every state of every run. -/
theorem found_cards_agree (g : Game) {s t : PlayScene} {es : List Event}
    (hstart : g.start = .ok s) (hrun : Run step OnScreen s es t) :
    (∀ (i j : Nat) (v : Int), t.cardsSequence[i]? = some v → t.cardsSequence[j]? = some v →
        (t.cardsStatus[i]? = some true ↔ t.cardsStatus[j]? = some true)) ∧
      (t.cardsStatus.count true : Int) = 2 * t.matchesCount ∧
      t.matchesCount ≤ g.cardsPerRow * g.cardsPerColumn / 2 ∧
      (∀ i : Nat, t.cardsStatus[i]? = some true → ∀ fs u, Run step OnScreen t fs u →
        u.cardsStatus[i]? = some true ∧ u.selectedCardIndex1 ≠ i ∧ u.selectedCardIndex2 ≠ i) ∧
      t.tryCount = es.countP firesMismatch ∧
      ∀ (i front back : Nat), t.cards[i]? = some front → t.cardsBacks[i]? = some back →
        ((t.node back).settled = true ↔ t.cardsStatus[i]? = some true ∨
          t.selectedCardIndex1 = i ∨ t.selectedCardIndex2 = i) ∧
        ((t.node front).settled = true ↔ t.cardsStatus[i]? = some true) := by
  obtain ⟨n, sequence, hn, hperm, rfl⟩ := Game.start_eq_ok hstart
  have hopened := opened_shows g hn hperm
  obtain ⟨τ, -, hs⟩ := run_shows hopened hrun
  have hboard := hs.playing.board
  have hcard : (Finset.range (2 * n)).card = 2 * n := Finset.card_range _
  refine ⟨?_, hs.count_status, ?_, ?_, ?_, ?_⟩
  · intro i j v hi hj
    have hvalue : ∀ k, t.cardsSequence[k]? = some v → k ∈ Finset.range (2 * n) ∧
        t.cardValue k = v := by
      intro k hk
      rw [Finset.mem_range, ← hboard.length_sequence, cardValue, hk]
      exact ⟨(List.getElem?_eq_some_iff.mp hk).1, rfl⟩
    obtain ⟨hi, hvi⟩ := hvalue i hi
    obtain ⟨hj, hvj⟩ := hvalue j hj
    rw [hs.found, hs.found]
    exact ⟨hs.sound.whole i hi j hj (hvi.trans hvj.symm),
      hs.sound.whole j hj i hi (hvj.trans hvi.symm)⟩
  · have hle := hs.sound.matched_le hcard
    have hsize := hn.board
    change g.cardsPerRow * g.cardsPerColumn = _ at hsize
    rw [hs.matched, hsize]
    omega
  · intro i hi fs u hfs
    obtain ⟨τ', hsub, hs'⟩ := run_shows hs hfs
    have hfound := hsub ((hs.found i).mp hi)
    have hhand : i ∉ τ'.hand := fun h => (hs'.sound.hand i h).2 hfound
    rw [hs'.selected_iff] at hhand
    rw [not_or] at hhand
    exact ⟨(hs'.found i).mpr hfound, hhand⟩
  · have hcount := run_tryCount hopened.playing (hrun.mono fun _ _ h => h.occurs)
    rw [hcount]
    exact Int.zero_add _
  · intro i front back hfront hback
    have hi : i < 2 * n := by
      have hlt := (List.getElem?_eq_some_iff.mp hfront).1
      simpa [hboard.cards] using hlt
    rw [hboard.card_getElem? hi, Option.some.injEq] at hfront
    rw [hboard.back_getElem? hi, Option.some.injEq] at hback
    subst hfront hback
    rw [hs.back i hi, hs.front i hi, hs.found, hs.selected_iff]
    exact ⟨Iff.rfl, Iff.rfl⟩

/-- A pair is turned back, and another one found. -/
def missAndMatch : List Event :=
  [.touch 7, .touch 9, .evaluateActions 4, .evaluateActions 5, .evaluateActions 7,
    .evaluateActions 9, .fire ⟨.unmatched, 4⟩, .evaluateActions 7, .touch 7, .touch 13,
    .evaluateActions 7, .evaluateActions 9, .evaluateActions 13, .fire ⟨.matched, 8⟩]

/-- The cards at 0 and 3 stay found. -/
theorem found_cards_agree_small : ∃ t, Game.small.played step OnScreen missAndMatch = some t ∧
    (t.cardsStatus[0]? = some true ↔ t.cardsStatus[3]? = some true) ∧
    (t.cardsStatus.count true : Int) = 2 * t.matchesCount ∧ t.matchesCount ≤ 2 ∧
    (∀ fs u, Run step OnScreen t fs u → u.cardsStatus[0]? = some true) ∧ t.tryCount = 1 ∧
    ∀ back ∈ t.cardsBacks[0]?, (t.node back).settled = true := by
  have hplayed : (Game.small.played step OnScreen missAndMatch).map (fun t =>
      (t.cardsSequence[0]?, t.cardsSequence[3]?, t.cardsStatus[0]?, t.cards[0]?.isSome)) =
      some (some 1, some 1, some true, true) := by decide +kernel
  obtain ⟨s, t, hs, ht, hrun, hplayed⟩ := Game.run_of_map Game.small step OnScreen _ hplayed
  simp only [Prod.mk.injEq] at hplayed
  obtain ⟨hvalue, hvalue', hstatus, hcard⟩ := hplayed
  obtain ⟨front, hfront⟩ := Option.isSome_iff_exists.mp hcard
  obtain ⟨hpair, hcount, hle, hstays, htries, hnodes⟩ := found_cards_agree Game.small hs hrun
  refine ⟨t, ht, hpair 0 3 1 hvalue hvalue', hcount, hle, ?_, htries, ?_⟩
  · intro fs u hfs
    exact (hstays 0 hstatus fs u hfs).1
  · intro back hback
    exact (hnodes 0 front back hfront hback).1.mpr (.inl hstatus)

end PlayScene
end CardsGame
