import Mathlib.Algebra.BigOperators.Ring.Finset
import Mathlib.Data.Fintype.Fin
import CardsGame.Turns
import CardsGame.Ways

/-!
# The boards that are dealt

Every game of a session shows a board that the shuffle can make of the pairs of its level,
and every such board is shown in some session. Not all boards are: the draws leave out the
last two cards, so the last position of the board is never taken by the greatest number.
-/
namespace Shuffle

open Swift

variable {α : Type}

/-- What depends on one of several independent uniform draws is as likely as it is for this one. -/
theorem sum_of_draw {k : Nat} (m : Fin k → Nat) (hm : ∀ j, 0 < m j) (i : Fin k)
    (p : Fin (m i) → Prop) [DecidablePred p] :
    (∑ f : (j : Fin k) → Fin (m j), if p (f i) then ∏ j, 1 / (m j : ℚ) else 0) =
      (Finset.univ.filter p).card / (m i : ℚ) := by
  classical
  let q : (j : Fin k) → Fin (m j) → Prop := fun j a => ∀ h : j = i, p (h ▸ a)
  have hself : ∀ a, q i a ↔ p a := fun a => ⟨fun h => h rfl, fun h _ => h⟩
  have hother : ∀ j, j ≠ i → ∀ a, q j a := fun j hj a h => absurd h hj
  have hterm : ∀ f : (j : Fin k) → Fin (m j), (if p (f i) then ∏ j, 1 / (m j : ℚ) else 0) =
      ∏ j, if q j (f j) then 1 / (m j : ℚ) else 0 := by
    intro f
    by_cases hp : p (f i)
    · rw [if_pos hp]
      refine Finset.prod_congr rfl fun j _ => (if_pos ?_).symm
      by_cases hj : j = i
      · subst hj
        exact (hself _).mpr hp
      · exact hother j hj _
    · rw [if_neg hp, Finset.prod_eq_zero (Finset.mem_univ i)]
      exact if_neg (mt (hself _).mp hp)
  have hsum : ∀ j, j ≠ i → (∑ a : Fin (m j), if q j a then 1 / (m j : ℚ) else 0) = 1 := by
    intro j hj
    have hpos : (m j : ℚ) ≠ 0 := Nat.cast_ne_zero.mpr (hm j).ne'
    simp only [hother j hj, if_true, Finset.sum_const, Finset.card_univ, Fintype.card_fin,
      nsmul_eq_mul, mul_one_div_cancel hpos]
  calc
    _ = ∑ f : (j : Fin k) → Fin (m j), ∏ j, if q j (f j) then 1 / (m j : ℚ) else 0 :=
      Finset.sum_congr rfl fun f _ => hterm f
    _ = ∏ j, ∑ a : Fin (m j), if q j a then 1 / (m j : ℚ) else 0 := by
      rw [Finset.prod_univ_sum, Fintype.piFinset_univ]
    _ = ∑ a : Fin (m i), if q i a then 1 / (m i : ℚ) else 0 :=
      Finset.prod_eq_single i (fun j _ hj => hsum j hj) fun h => absurd (Finset.mem_univ i) h
    _ = (Finset.univ.filter p).card / (m i : ℚ) := by
      simp only [hself, ← Finset.sum_filter, Finset.sum_const, nsmul_eq_mul, mul_one_div]

/-- Among the first `k` positions a value is as often as it is counted there. -/
theorem card_positions [DecidableEq α] (array : List α) {k : Nat} (hk : k ≤ array.length) (v : α) :
    (Finset.univ.filter fun a : Fin k => array[a.val]? = some v).card = (array.take k).count v := by
  have hlength : (array.take k).length = k := by rw [List.length_take, min_eq_left hk]
  refine Eq.trans ?_ (Fin.card_filter_univ_eq_vector_get_eq_count v ⟨array.take k, hlength⟩)
  congr 1
  ext a
  have ha : a.val < (array.take k).length := lt_of_lt_of_eq a.isLt hlength.symm
  rw [Finset.mem_filter, Finset.mem_filter, ← List.getElem?_take_of_lt a.isLt,
    List.getElem?_eq_getElem ha, Option.some.injEq]
  rfl

/-- The last card is the one at the first draw. -/
theorem getLast_shuffleArray (draws : Draws) {array result : List α} (htwo : 2 ≤ array.length)
    (h : shuffleArray draws array = .ok result) :
    result.getLast? = array[draws.value (array.length - 1)]? := by
  have hfit : array.length ≤ 2 ^ 32 + 1 := by
    by_contra hlarge
    rw [shuffleArray_overflow draws (by omega)] at h
    cases h
  obtain ⟨result', hresult', hperm⟩ := shuffleArray_perm draws hfit
  cases h.symm.trans hresult'
  rw [List.getLast?_eq_getElem?, hperm.length_eq, shuffleArray_last draws htwo h]

/-- So the last two of three or more cards do not get there. -/
theorem exists_last (draws : Draws) {array result : List α} (hthree : 3 ≤ array.length)
    (h : shuffleArray draws array = .ok result) :
    ∃ v ∈ array.take (array.length - 2), result.getLast? = some v := by
  have hlast := getLast_shuffleArray draws (by omega) h
  have hbelow := draws.below (array.length - 1)
  have hdraw : draws.value (array.length - 1) < array.length - 2 := by omega
  rw [List.getElem?_eq_getElem (by omega)] at hlast
  refine ⟨_, ?_, hlast⟩
  rw [List.mem_take_iff_getElem]
  exact ⟨_, by omega, rfl⟩

open Classical in
/-- The chance that the arrangement is such a one. -/
noncomputable def chanceThat (array : List α) (P : List α → Prop) : ℚ :=
  ∑ sequence : DrawSequence array.length,
    if ∃ result, shuffleArray sequence.draws array = .ok result ∧ P result then
      sequenceChance array.length
    else 0

theorem last_iff {array : List α} (hthree : 3 ≤ array.length) (hfit : array.length ≤ 2 ^ 32 + 1)
    (sequence : DrawSequence array.length) (v : α) :
    (∃ result, shuffleArray sequence.draws array = .ok result ∧ result.getLast? = some v) ↔
      array[(sequence ⟨array.length - 2, by omega⟩).val]? = some v := by
  obtain ⟨result, hresult, -⟩ := shuffleArray_perm sequence.draws hfit
  have hindex : array.length - 2 + 1 = array.length - 1 := by omega
  have hshown := getLast_shuffleArray sequence.draws (by omega) hresult
  rw [← hindex, sequence.draws_succ ⟨array.length - 2, by omega⟩] at hshown
  rw [← hshown]
  constructor
  · rintro ⟨result', hresult', hv⟩
    cases hresult.symm.trans hresult'
    exact hv
  · exact fun hv => ⟨result, hresult, hv⟩

/-- The last card is any of the cards but the last two, each with the same chance. -/
theorem chanceThat_last [DecidableEq α] {array : List α} (hthree : 3 ≤ array.length)
    (hfit : array.length ≤ 2 ^ 32 + 1) (v : α) :
    chanceThat array (fun result => result.getLast? = some v) =
      ((array.take (array.length - 2)).count v : ℚ) / ((array.length - 2 : Nat) : ℚ) := by
  have hmax : max (array.length - 2) 1 = array.length - 2 := max_eq_left (by omega)
  have hsum := sum_of_draw (fun k : Fin (array.length - 1) => max k.val 1)
    (fun k => lt_max_of_lt_right Nat.one_pos) ⟨array.length - 2, by omega⟩
    (fun a => array[a.val]? = some v)
  rw [card_positions array (by simp only; omega) v] at hsum
  rw [chanceThat, ← hmax, ← hsum]
  refine Finset.sum_congr rfl fun sequence _ => ?_
  simp only [last_iff hthree hfit, sequenceChance]

end Shuffle

namespace CardsGame

open Swift
open Ranking (UserDefaults)
open Runs (Run replay)
open Shuffle (Draws Arises chanceThat shuffleArray)

namespace PlayScene

theorem fillCardSequence_shuffles {draws : Draws} {s t : PlayScene} {n : Nat} (hn : 0 < n)
    (hboard : s.cardsPerRow * s.cardsPerColumn / 2 = n) (h : fillCardSequence draws s = .ok t) :
    shuffleArray draws (pairs n) = .ok t.cardsSequence := by
  simp only [fillCardSequence, hboard, closedRange_one hn, ok_bind, foldl_appendPairs,
    List.nil_append, flatMap_numbers] at h
  obtain ⟨sequence, hsequence, h⟩ := bind_eq_ok.mp h
  cases h
  exact hsequence

/-- The deal shows the cards as the shuffle leaves them. -/
theorem deal_shuffles {draws : Draws} {s t : PlayScene} {n : Nat} (hn : Dealable s n)
    (h : deal draws s = .ok t) : shuffleArray draws (pairs n) = .ok t.cardsSequence := by
  obtain ⟨u, hfill, -⟩ := bind_eq_ok.mp h
  have hshuffle := fillCardSequence_shuffles hn.pos hn.half hfill
  obtain ⟨m, sequence, -, hm, -, hperm, rfl⟩ := fillCardSequence_eq_ok draws hfill
  have hsame : m = n := by exact_mod_cast hm.symm.trans hn.half
  have hlength : sequence.length = 2 * n := by rw [hperm.length_eq, length_pairs, hsame]
  cases h.symm.trans (deal_filled draws hn hlength hfill)
  exact hshuffle

/-- All pairs but the last one. -/
theorem take_pairs {n : Nat} (hn : 0 < n) : (pairs n).take (2 * n - 2) = pairs (n - 1) := by
  obtain ⟨m, rfl⟩ := Nat.exists_eq_add_of_le' hn
  have hlength : 2 * (m + 1) - 2 = (pairs m).length := by
    rw [length_pairs]
    omega
  have happend : pairs (m + 1) = pairs m ++ [1 + (m : Int), 1 + (m : Int)] := by
    rw [pairs, List.range_succ, List.flatMap_append]
    rfl
  rw [hlength, Nat.add_sub_cancel, happend, List.take_left]

end PlayScene

open PlayScene (pairs)

theorem Game.start_shuffles {g : Game} {s : PlayScene} {n : Nat} (hn : PlayScene.Dealable g.scene n)
    (h : g.start = .ok s) : shuffleArray g.draws (pairs n) = .ok s.cardsSequence := by
  obtain ⟨t, hbuttons, hrest⟩ := bind_eq_ok.mp h
  obtain ⟨u, hdeal, hlast⟩ := bind_eq_ok.mp hrest
  rw [PlayScene.createGameButtons_ok g.assets (s := g.scene) rfl, Except.ok.injEq] at hbuttons
  subst hbuttons
  have hframed : PlayScene.Dealable (g.scene.framed g.assets g.bounds) n :=
    ⟨hn.rows, hn.columns, hn.board, hn.fits⟩
  have hshuffle := PlayScene.deal_shuffles hframed hdeal
  cases hlast
  exact hshuffle

theorem Game.start_difficulty {g : Game} {s : PlayScene} (h : g.start = .ok s) :
    s.difficulty = some g.difficulty := by
  obtain ⟨n, sequence, -, -, rfl⟩ := Game.start_eq_ok h
  rw [PlayScene.boarded, PlayScene.dealt_eq]
  rfl

theorem Device.game_draws (device : Device) (difficulty : Int) (draws : Draws) (now : ℚ)
    (defaults : UserDefaults) : (device.game difficulty draws now defaults).draws = draws := by
  unfold Device.game Game.levelled
  dsimp only
  split_ifs <;> rfl

namespace PlayScene

variable {device : Device} {s t : PlayScene}

/-- The board is one that the shuffle makes of the pairs of the level. -/
def Shuffled (s : PlayScene) : Prop :=
  ∃ difficulty n T, (difficulty, n, T) ∈ levels ∧ s.difficulty = some difficulty ∧
    Arises (pairs n) s.cardsSequence

theorem shuffled_start {difficulty : Int} {draws : Draws} {now : ℚ} {d : UserDefaults}
    (hoffered : Offered difficulty) (h : (device.game difficulty draws now d).start = .ok s) :
    Shuffled s := by
  obtain ⟨n, T, hlevel, hn, -, hdifficulty⟩ := device.game_level hoffered draws now d
  refine ⟨difficulty, n, T, hlevel, ?_, ?_⟩
  · rw [Game.start_difficulty h, hdifficulty]
  · exact Shuffle.arises_of_shuffle (by rw [length_pairs]; exact hn.fits) (Game.start_shuffles hn h)

theorem Shuffled.step {e : Event} (h : Shuffled s) (hs : step s e = .ok t) : Shuffled t := by
  obtain ⟨difficulty, n, T, hlevel, hdifficulty, harises⟩ := h
  have hskeleton := skeleton_step hs
  have hsequence : t.cardsSequence = s.cardsSequence := congrArg (·.cardsSequence) hskeleton
  have hsame : t.difficulty = s.difficulty := congrArg (·.difficulty) hskeleton
  exact ⟨difficulty, n, T, hlevel, hsame.trans hdifficulty, hsequence ▸ harises⟩

theorem Alone.shuffled (h : Alone device s) : Shuffled s :=
  h.holds (fun _ _ _ _ _ hoffered hstart => shuffled_start hoffered hstart)
    (fun _ _ _ hi _ hs => hi.step hs) fun _ _ hi => hi

end PlayScene

namespace App

variable {device : Device} {s t : App} {es : List AppEvent}

theorem exists_launched (device : Device) (app : App) :
    ∃ menu, app.step device .launch = .ok { app with scenes := [menu] } := by
  have hvalid : (Destination.menu (doubled device.view)).Valid device := rfl
  obtain ⟨menu, hmenu⟩ := Scene.didMove_completes hvalid .first 0 app
  refine ⟨menu, ?_⟩
  rw [step, viewDidLoad, hmenu]
  rfl

theorem arises_of_run (hclosed : s.scenes = []) (hrun : Run (step device) Receives s es t)
    {game : PlayScene} (hgame : .play game ∈ t.scenes) {difficulty : Int} {n : Nat} {T : ℚ}
    (hlevel : (difficulty, n, T) ∈ levels) (hdifficulty : game.difficulty = some difficulty) :
    Arises (pairs n) game.cardsSequence := by
  obtain ⟨d, n', T', hlevel', hd, harises⟩ := (alone_of_run hclosed hrun hgame).shuffled
  cases hdifficulty.symm.trans hd
  rwa [levels_unique hlevel hlevel']

/-- At each difficulty, the boards that are shown in some game of some session are those that
the shuffle can make of the pairs of the level. -/
theorem deals_iff (hcatalogue : Catalogued device.assets) {difficulty : Int} {n : Nat} {T : ℚ}
    (hlevel : (difficulty, n, T) ∈ levels) (sequence : List Int) :
    (∃ es t game, Run (step device) Receives installed es t ∧ .play game ∈ t.scenes ∧
      game.difficulty = some difficulty ∧ game.cardsSequence = sequence) ↔
        Arises (pairs n) sequence := by
  constructor
  · rintro ⟨es, t, game, hrun, hgame, hdifficulty, rfl⟩
    exact arises_of_run rfl hrun hgame hlevel hdifficulty
  · rintro ⟨choices, hchoices⟩
    have hoffered := offered_of_level hlevel
    obtain ⟨menu, hmenu⟩ := exists_launched device installed
    have hlaunch :
        Run (step device) Receives installed [.launch] { installed with scenes := [menu] } :=
      .single trivial hmenu
    obtain ⟨fs, u, _, -, -, hrun, hlast, game, d, rfl, hgame⟩ := leads_game hcatalogue rfl hlaunch
      (List.cons_ne_nil menu []) hoffered choices.draws 0
    obtain ⟨n', T', hlevel', hn, -, hdifficulty⟩ := device.game_level hoffered choices.draws 0 d
    have hshuffle := Game.start_shuffles hn hgame
    rw [device.game_draws, ← levels_unique hlevel hlevel'] at hshuffle
    refine ⟨_, u, game, hlaunch.append hrun, List.mem_of_getLast? hlast, ?_, ?_⟩
    · rw [Game.start_difficulty hgame, hdifficulty]
    · exact Except.ok.inj (hshuffle.symm.trans hchoices)

theorem deals_iff_phone : ∃ sequence es t game, Run (step Device.phone) Receives installed es t ∧
    .play game ∈ t.scenes ∧ game.difficulty = some 0 ∧ game.cardsSequence = sequence ∧
      Arises (pairs 6) sequence := by
  obtain ⟨sequence, hsequence, -⟩ := Shuffle.shuffleArray_perm (Shuffle.DrawSequence.least 12).draws
    (show (pairs 6).length ≤ 2 ^ 32 + 1 by decide)
  have harises : Arises (pairs 6) sequence := ⟨.least 12, hsequence⟩
  have hcatalogue : Catalogued Device.phone.assets := by decide +kernel
  have hlevel : ((0 : Int), 6, (120 : ℚ)) ∈ levels := by simp [levels]
  obtain ⟨es, t, game, hrun, hgame, hdifficulty, hshown⟩ :=
    (deals_iff hcatalogue hlevel sequence).mpr harises
  exact ⟨sequence, es, t, game, hrun, hgame, hdifficulty, hshown, harises⟩

/-- The last card of a game is never one of the greatest number, and every other number is as
likely there as any. -/
theorem last_card {difficulty : Int} {n : Nat} {T : ℚ} (hlevel : (difficulty, n, T) ∈ levels) :
    (∀ s es t, s.scenes = [] → Run (step device) Receives s es t → ∀ game, .play game ∈ t.scenes →
      game.difficulty = some difficulty →
        ∃ v : Int, game.cardsSequence.getLast? = some v ∧ 1 ≤ v ∧ v < n) ∧
    ∀ v : Int, chanceThat (pairs n) (fun sequence => sequence.getLast? = some v) =
      if 1 ≤ v ∧ v < n then 1 / ((n : ℚ) - 1) else 0 := by
  obtain ⟨htwo, hfit⟩ : 2 ≤ n ∧ n ≤ 10 := by
    have hlevels := mem_levels.mp hlevel
    omega
  have hlength : (pairs n).length = 2 * n := PlayScene.length_pairs n
  have htake := PlayScene.take_pairs (show 0 < n by omega)
  constructor
  · intro s es t hclosed hrun game hgame hdifficulty
    obtain ⟨choices, hchoices⟩ := arises_of_run hclosed hrun hgame hlevel hdifficulty
    obtain ⟨v, hmem, hlast⟩ := Shuffle.exists_last choices.draws (by omega) hchoices
    rw [hlength, htake, ← List.count_pos_iff, PlayScene.count_pairs] at hmem
    refine ⟨v, hlast, ?_⟩
    split at hmem <;> omega
  · intro v
    have hcards : ((2 * n - 2 : Nat) : ℚ) = 2 * ((n : ℚ) - 1) := by
      rw [Nat.cast_sub (by omega)]
      push_cast
      ring
    have hpos : (n : ℚ) - 1 ≠ 0 := by
      have : (2 : ℚ) ≤ n := by exact_mod_cast htwo
      linarith
    rw [Shuffle.chanceThat_last (by omega) (by omega), hlength, htake, PlayScene.count_pairs,
      hcards]
    by_cases hv : 1 ≤ v ∧ v < n
    · rw [if_pos hv, if_pos (by omega)]
      push_cast
      field_simp
    · rw [if_neg hv, if_neg (by omega), Nat.cast_zero, zero_div]

/-- Of the six numbers of the easiest game, the last card is 1 with one chance in five. -/
theorem last_card_easy :
    chanceThat (pairs 6) (fun sequence => sequence.getLast? = some 1) = 1 / 5 := by
  have hlevel : ((0 : Int), 6, (120 : ℚ)) ∈ levels := by simp [levels]
  rw [(@last_card Device.small 0 6 120 hlevel).2 1]
  norm_num

end App
end CardsGame
