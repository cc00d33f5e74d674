import CardsGame.Display
import CardsGame.Layout
import CardsGame.Standings
import CardsGame.Traps

/-!
# The card that a touch turns

All backs are as high as the labels and the button, and drawn over them in the order of the
cards. So a touch turns the card whose back was drawn last of those that it hits. On a
board that fits the scene this is the card that lies there.
-/
namespace CardsGame

open Swift SpriteKit
open Pairs (Hand Table)
open Ranking (UserDefaults)
open Runs (Run replay)
open Shuffle (Draws)

namespace PlayScene

/-- The back of the card at `k` is shown at `p`. -/
def ShownAt (assets : Assets) (p : Point) (s : PlayScene) (k : Nat) : Prop :=
  ∃ back, s.cardsBacks[k]? = some back ∧ Hit assets p (s.node back)

/-- Of the backs that are shown at `p` it is the last one. -/
def Uppermost (assets : Assets) (p : Point) (s : PlayScene) (k : Nat) : Prop :=
  ShownAt assets p s k ∧ ∀ j, k < j → ¬ ShownAt assets p s j

/-- The pause layer or the pause image is shown at `p`. -/
def Covered (assets : Assets) (p : Point) (s : PlayScene) : Prop :=
  ∃ m, (s.pauseLayer = some m ∨ s.pauseImg = some m) ∧ Hit assets p (s.node m)

/-- `k` is selected in `t`, at a place where nothing is selected in `s`. -/
def Selects (s t : PlayScene) (k : Nat) : Prop :=
  s.selectedCardIndex1 = -1 ∧ t.selectedCardIndex1 = k ∨
    s.selectedCardIndex2 = -1 ∧ t.selectedCardIndex2 = k

/-- The end of a touch at `p` turns the card at `k`. -/
def Picks (assets : Assets) (p : Point) (s : PlayScene) (k : Nat) : Prop :=
  ∃ t, touchesEnded assets p s = .ok t ∧ Selects s t k

/-- Neither the pause nor the lock, nor an earlier touch of it, keeps the card from being turned. -/
def Turnable (s : PlayScene) (k : Nat) : Prop :=
  s.pauseState = false ∧ s.lockInteraction = false ∧ s.selectedCardIndex1 ≠ k

/-- The index of the card in column `i` and row `j`. -/
def index (s : PlayScene) (i j : Int) : Nat := (i * s.cardsPerColumn + j).toNat

/-- The columns fit the width of the scene, and the rows its height. -/
def Fits (s : PlayScene) : Prop :=
  s.cardsPerRow * cardSizeX ≤ s.size.width ∧ s.cardsPerColumn * cardSizeY ≤ s.size.height

/-- The actions of all nodes have been evaluated. -/
def Evaluated (s : PlayScene) : Prop := ∀ m ∈ s.children, (s.node m).actions = []

instance (s : PlayScene) : Decidable (Fits s) := inferInstanceAs (Decidable (_ ∧ _))
instance (s : PlayScene) : Decidable (Evaluated s) :=
  inferInstanceAs (Decidable (∀ m ∈ s.children, _))
instance (s : PlayScene) (k : Nat) : Decidable (Turnable s k) := inferInstanceAs (Decidable (_ ∧ _))
instance (s : PlayScene) (i j : Int) : Decidable (Slot s i j) := inferInstanceAs (Decidable (_ ∧ _))

section Selects

variable {base n : Nat} {h : Hand Nat} {s t : PlayScene} {k : Nat}

theorem Quiet.not_selects (hq : Quiet base s t) : ¬ Selects s t k := by
  rintro (⟨hnone, hselected⟩ | ⟨hnone, hselected⟩)
  · rw [hq.index1, hnone] at hselected
    omega
  · rw [hq.index2, hnone] at hselected
    omega

/-- A touched node turns a card exactly when it is the back of this one. -/
theorem Playing.selects_iff (hp : Playing base n h s) {nod : Nat} :
    (∃ t, processItemTouch nod s = .ok t ∧ Selects s t k) ↔
      nod = backId base k ∧ k < 2 * n ∧ Turnable s k := by
  constructor
  · rintro ⟨t, ht, hselects⟩
    obtain ⟨h', houtcome⟩ := outcome_of_step hp (e := .touch nod) trivial ht
    cases houtcome with
    | quiet _ hquiet => exact absurd hselects hquiet.not_selects
    | @first j hj hpause =>
      obtain ⟨h1, h2, hlock, -⟩ := hp.selected
      have hk : j = k := by
        obtain ⟨-, hk⟩ | ⟨-, hk⟩ := hselects
        · exact Int.ofNat.inj hk
        · exact absurd (h2.symm.trans hk) (by omega)
      subst hk
      exact ⟨rfl, hj, hpause, hlock, by omega⟩
    | @second i j hne hj hpause =>
      obtain ⟨h1, h2, hlock, -⟩ := hp.selected
      have hk : j = k := by
        obtain ⟨hnone, -⟩ | ⟨-, hk⟩ := hselects
        · exact absurd (h1.symm.trans hnone) (by omega)
        · exact Int.ofNat.inj hk
      subst hk
      exact ⟨rfl, hj, hpause, hlock, by omega⟩
  · rintro ⟨rfl, hk, hpause, hlock, hselected⟩
    cases h with
    | empty => exact ⟨_, touch_first hp hk hpause, .inl ⟨hp.selected.1, rfl⟩⟩
    | one i =>
      obtain ⟨h1, h2, -⟩ := hp.selected
      have hne : i ≠ k := fun heq => hselected (heq ▸ h1)
      exact ⟨_, touch_second hp hne hk hpause, .inr ⟨h2, rfl⟩⟩
    | two i j hne =>
      obtain ⟨-, -, hlocked, -⟩ := hp.selected
      cases hlock.symm.trans hlocked

end Selects

/-- The front and the back of a card, as they are drawn. -/
def cardNodes (k : Nat) : List Nat := [frontId 6 k, backId 6 k]

theorem mem_cardNodes {k m : Nat} : m ∈ cardNodes k ↔ m = frontId 6 k ∨ m = backId 6 k := by
  simp [cardNodes]

/-- What is drawn before the back at `k`, and what is drawn after it on a board of `length`
cards. -/
def earlierNodes (k : Nat) : List Nat :=
  List.range 6 ++ (List.range k).flatMap cardNodes ++ [frontId 6 k]

def laterNodes (k length : Nat) : List Nat :=
  ((List.range (length - (k + 1))).map (k + 1 + ·)).flatMap cardNodes

theorem mem_earlierNodes {k m : Nat} : m ∈ earlierNodes k ↔
    m < 6 ∨ m = frontId 6 k ∨ ∃ j, j < k ∧ (m = frontId 6 j ∨ m = backId 6 j) := by
  simp only [earlierNodes, List.mem_append, List.mem_range, List.mem_flatMap, mem_cardNodes,
    List.mem_singleton]
  rw [or_assoc, or_comm (a := ∃ j, _)]

theorem mem_laterNodes {k length m : Nat} : m ∈ laterNodes k length ↔
    ∃ j, k < j ∧ j < length ∧ (m = frontId 6 j ∨ m = backId 6 j) := by
  simp only [laterNodes, List.mem_flatMap, List.mem_map, List.mem_range, mem_cardNodes]
  constructor
  · rintro ⟨_, ⟨i, hi, rfl⟩, hm⟩
    exact ⟨k + 1 + i, by omega, by omega, hm⟩
  · rintro ⟨j, hkj, hj, hm⟩
    exact ⟨j, ⟨j - (k + 1), by omega, by omega⟩, hm⟩

theorem backId_notMem_laterNodes (k length : Nat) : backId 6 k ∉ laterNodes k length := by
  rw [mem_laterNodes]
  rintro ⟨j, hkj, -, hj⟩
  simp only [frontId, backId] at hj
  omega

namespace Staged

variable {g : Game} {sequence : List Int} {t : PlayScene} (hs : Staged g sequence t)

include hs

theorem cardsBacks : t.cardsBacks = (List.range sequence.length).map (backId 6) := by
  have hbacks : t.skeleton.cardsBacks = (g.opened sequence).skeleton.cardsBacks := by
    rw [hs.skeleton]
  exact hbacks.trans (cardsBacks_dealt (g.scene.framed g.assets g.bounds) sequence)

theorem shownAt_iff {p : Point} {k : Nat} : ShownAt g.assets p t k ↔
    k < sequence.length ∧ Hit g.assets p (t.node (backId 6 k)) := by
  rw [ShownAt, hs.cardsBacks]
  constructor
  · rintro ⟨back, hback, hit⟩
    rw [List.getElem?_map, Option.map_eq_some_iff] at hback
    obtain ⟨j, hj, rfl⟩ := hback
    obtain ⟨hlt, rfl⟩ := List.getElem?_eq_some_iff.mp hj
    rw [List.getElem_range] at hit
    exact ⟨by simpa using hlt, hit⟩
  · rintro ⟨hk, hit⟩
    exact ⟨_, by simp [hk], hit⟩

theorem pauseNodes {m : Nat} : t.pauseLayer = some m ∨ t.pauseImg = some m ↔ m = 4 ∨ m = 5 := by
  have hlayer : t.pauseLayer = some 4 := congrArg PlayScene.pauseLayer hs.skeleton
  have himg : t.pauseImg = some 5 := congrArg PlayScene.pauseImg hs.skeleton
  rw [hlayer, himg, Option.some.injEq, Option.some.injEq, eq_comm, @eq_comm _ 5]

theorem heights {k : Nat} (hk : k < sequence.length) :
    (t.node (frontId 6 k)).zPosition = 9 ∧ (t.node (backId 6 k)).zPosition = 10 := by
  obtain ⟨b, hfront⟩ := hs.front hk
  obtain ⟨b', hback⟩ := hs.back hk
  have hz : (t.node (backId 6 k)).zPosition = 9 + 1 := congrArg Node.zPosition hback
  exact ⟨congrArg Node.zPosition hfront, hz.trans (by norm_num)⟩

section Layers

variable {p : Point} {k : Nat}

theorem children_split (hk : k < sequence.length) :
    t.children = earlierNodes k ++ backId 6 k :: laterNodes k sequence.length := by
  have hlength : sequence.length = (k + 1) + (sequence.length - (k + 1)) := by omega
  rw [hs.children]
  change _ ++ (List.range sequence.length).flatMap cardNodes = _
  rw [hlength, List.range_add (n := k + 1), List.range_succ (n := k), List.flatMap_append,
    List.flatMap_append, ← hlength]
  simp [cardNodes, earlierNodes, laterNodes]

/-- Of what is drawn after a back only another back is high enough to cover it. -/
theorem later_lower_iff : (∀ m ∈ laterNodes k sequence.length,
    Hit g.assets p (t.node m) → (t.node m).zPosition < 10) ↔
      ∀ j, k < j → ¬ ShownAt g.assets p t j := by
  constructor
  · intro hlower j hkj hshown
    obtain ⟨hj, hit⟩ := hs.shownAt_iff.mp hshown
    have hlt := hlower _ (mem_laterNodes.mpr ⟨j, hkj, hj, .inr rfl⟩) hit
    rw [(hs.heights hj).2] at hlt
    exact absurd hlt (lt_irrefl _)
  · intro hlast m hm hit
    obtain ⟨j, hkj, hj, rfl | rfl⟩ := mem_laterNodes.mp hm
    · rw [(hs.heights hj).1]
      norm_num
    · exact absurd (hs.shownAt_iff.mpr ⟨hj, hit⟩) (hlast j hkj)

/-- Of what is drawn before it only the pause layer and the pause image are higher. -/
theorem earlier_lower_iff (hk : k < sequence.length) : (∀ m ∈ earlierNodes k,
    Hit g.assets p (t.node m) → (t.node m).zPosition ≤ 10) ↔ ¬ Covered g.assets p t := by
  constructor
  · rintro hlower ⟨m, hm, hit⟩
    rw [hs.pauseNodes] at hm
    have hheight := hlower m (mem_earlierNodes.mpr (.inl (by omega))) hit
    have hhundred : (t.node m).zPosition = 100 := by
      obtain rfl | rfl := hm
      · exact hs.height (by decide)
      · exact hs.height (by decide)
    rw [hhundred] at hheight
    exact absurd hheight (by norm_num)
  · intro hcovered m hm hit
    obtain hm | rfl | ⟨j, hj, rfl | rfl⟩ := mem_earlierNodes.mp hm
    · rw [hs.height hm]
      interval_cases m
      · norm_num [buttonNode]
      · norm_num [buttonNode]
      · norm_num [buttonNode]
      · norm_num [buttonNode]
      · exact absurd ⟨4, hs.pauseNodes.mpr (.inl rfl), hit⟩ hcovered
      · exact absurd ⟨5, hs.pauseNodes.mpr (.inr rfl), hit⟩ hcovered
    · rw [(hs.heights hk).1]
      norm_num
    · rw [(hs.heights (hj.trans hk)).1]
      norm_num
    · exact (hs.heights (hj.trans hk)).2.le

end Layers

/-- A back is in front exactly when it is the last one shown there, and the pause is not. -/
theorem front_back_iff {p : Point} {k : Nat} :
    k < sequence.length ∧ atPoint t.node g.assets t.children p = some (backId 6 k) ↔
      Uppermost g.assets p t k ∧ ¬ Covered g.assets p t := by
  by_cases hk : k < sequence.length
  · rw [hs.children_split hk, atPoint_eq_some_iff t.node g.assets p (backId_notMem_laterNodes k _),
      (hs.heights hk).2, hs.earlier_lower_iff hk, hs.later_lower_iff, Uppermost, hs.shownAt_iff]
    simp only [hk, true_and, and_assoc]
    rw [and_comm (a := ¬ Covered g.assets p t)]
  · refine iff_of_false (fun h => hk h.1) ?_
    rintro ⟨⟨hshown, -⟩, -⟩
    exact hk (hs.shownAt_iff.mp hshown).1

/-- Nothing but the pause and the lock keeps a touch from turning the last back shown there. -/
theorem picks_iff {p : Point} {k : Nat} : Picks g.assets p t k ↔
    Turnable t k ∧ Uppermost g.assets p t k ∧ ¬ Covered g.assets p t := by
  obtain ⟨n, h, hp⟩ := hs.playing
  have hlength : sequence.length = 2 * n := by
    have hbacks := congrArg List.length (hs.cardsBacks.symm.trans hp.board.cardsBacks)
    simpa using hbacks
  rw [← hs.front_back_iff, hlength]
  constructor
  · rintro ⟨u, hu, hselects⟩
    obtain ⟨nod, hnod, hu⟩ := bind_eq_ok.mp hu
    obtain ⟨rfl, hk, hturnable⟩ := hp.selects_iff.mp ⟨u, hu, hselects⟩
    exact ⟨hturnable, hk, ((asSprite_eq_ok t.node).mp hnod).1⟩
  · rintro ⟨hturnable, hk, hfront⟩
    obtain ⟨u, hu, hselects⟩ := hp.selects_iff.mpr ⟨rfl, hk, hturnable⟩
    obtain ⟨b, hback⟩ := hs.back (hlength ▸ hk)
    have hsprite := (asSprite_eq_ok t.node).mpr ⟨hfront, congrArg Node.kind hback⟩
    refine ⟨u, ?_, hselects⟩
    rw [touchesEnded, hsprite, ok_bind, hu]

theorem position_back {k : Nat} (hk : k < sequence.length) :
    (t.node (backId 6 k)).position = t.slot k := by
  have hsize : t.skeleton.size = (g.opened sequence).skeleton.size := by rw [hs.skeleton]
  have hrow : t.skeleton.cardsPerRow = (g.opened sequence).skeleton.cardsPerRow := by
    rw [hs.skeleton]
  have hcolumn : t.skeleton.cardsPerColumn = (g.opened sequence).skeleton.cardsPerColumn := by
    rw [hs.skeleton]
  have hposition : (t.node (backId 6 k)).fixed.position =
      ((g.opened sequence).node (backId 6 k)).fixed.position := by rw [hs.fixed]
  change t.size = (g.opened sequence).size at hsize
  change t.cardsPerRow = (g.opened sequence).cardsPerRow at hrow
  change t.cardsPerColumn = (g.opened sequence).cardsPerColumn at hcolumn
  change (t.node (backId 6 k)).position = ((g.opened sequence).node (backId 6 k)).position
    at hposition
  have hnode : (g.opened sequence).node (backId 6 k) = _ :=
    node_dealt_back (g.scene.framed g.assets g.bounds) sequence hk
  rw [hposition, hnode]
  simp only [slot, cardPosition, hsize, hrow, hcolumn]
  rfl

theorem frame_back {i j : Int} (hslot : Slot t i j) (hindex : t.index i j < sequence.length) :
    frame g.assets (t.node (backId 6 (t.index i j))) = cardRect ⟨cardSizeX, cardSizeY⟩ t i j := by
  obtain ⟨b, hback⟩ := hs.back hindex
  obtain ⟨hi, hir, hj, hjc⟩ := hslot
  obtain ⟨i, rfl⟩ := Int.eq_ofNat_of_zero_le hi
  obtain ⟨j, rfl⟩ := Int.eq_ofNat_of_zero_le hj
  obtain ⟨c, hc⟩ := Int.eq_ofNat_of_zero_le (show 0 ≤ t.cardsPerColumn by omega)
  have hk : t.index i j = i * c + j := by
    rw [index, hc]
    exact Int.toNat_natCast (i * c + j)
  have hposition := hs.position_back hindex
  rw [hk, slot_eq hc (by omega) (by omega)] at hposition
  have hkind : (t.node (backId 6 (t.index i j))).kind = .sprite := congrArg Node.kind hback
  have hsize : (t.node (backId 6 (t.index i j))).size = ⟨cardSizeX, cardSizeY⟩ :=
    congrArg Node.size hback
  have hanchor : (t.node (backId 6 (t.index i j))).anchorPoint = ⟨1 / 2, 1 / 2⟩ :=
    congrArg Node.anchorPoint hback
  simp only [frame, hkind, hsize, hanchor, cardRect]
  rw [hk, hposition, cardPosition_eq]

end Staged

/-- Each point lies in the rectangle of one card at most. -/
theorem slot_unique {s : PlayScene} (hfits : Fits s) {i j i' j' : Int} {p : Point}
    (hslot : Slot s i j) (hp : (cardRect ⟨cardSizeX, cardSizeY⟩ s i j).Contains p)
    (hp' : (cardRect ⟨cardSizeX, cardSizeY⟩ s i' j').Contains p) : i = i' ∧ j = j' := by
  obtain ⟨hi, hir, hj, hjc⟩ := hslot
  have hgapX := (Spread.gap_nonneg_iff (show 0 < s.cardsPerRow by omega)).mpr hfits.1
  have hgapY := (Spread.gap_nonneg_iff (show 0 < s.cardsPerColumn by omega)).mpr hfits.2
  rw [contains_cardRect] at hp hp'
  exact ⟨Spread.item_eq (by norm_num [cardSizeX]) hgapX hp.1 hp'.1,
    Spread.item_eq (by norm_num [cardSizeY]) hgapY hp.2 hp'.2⟩

/-- On a board that fits, only the back of the card that lies at a point can be shown there. -/
theorem Staged.shownAt_slot {g : Game} {sequence : List Int} {t : PlayScene}
    (hs : Staged g sequence t) (hfits : Fits t) {i j : Int} {p : Point} (hslot : Slot t i j)
    (hp : (cardRect ⟨cardSizeX, cardSizeY⟩ t i j).Contains p) {k : Nat} : ShownAt g.assets p t k ↔
      k = t.index i j ∧ (t.node (backId 6 k)).isHidden = false := by
  obtain ⟨n, h, hplaying⟩ := hs.playing
  have hlength : (sequence.length : Int) = t.cardsPerRow * t.cardsPerColumn := by
    have hbacks := congrArg List.length (hs.cardsBacks.symm.trans hplaying.board.cardsBacks)
    rw [List.length_map, List.length_map, List.length_range, List.length_range] at hbacks
    rw [hplaying.board.dealable.board, hbacks]
    push_cast
    rfl
  have hbij := @index_bijOn t hplaying.board.dealable.columns
  have hindex : ∀ i j, Slot t i j → t.index i j < sequence.length := by
    intro i j hslot
    obtain ⟨hlower, hupper⟩ := hbij.mapsTo (show (i, j) ∈ _ from hslot)
    dsimp only at hlower hupper
    rw [index]
    omega
  rw [hs.shownAt_iff]
  constructor
  · rintro ⟨hk, hhidden, hcontains⟩
    obtain ⟨⟨i', j'⟩, hslot', hk'⟩ := hbij.surjOn (show (k : Int) ∈ _ from ⟨by omega, by omega⟩)
    dsimp only at hk'
    have hindex' : t.index i' j' = k := by rw [index, hk', Int.toNat_natCast]
    rw [← hindex', hs.frame_back hslot' (hindex' ▸ hk)] at hcontains
    obtain ⟨rfl, rfl⟩ := slot_unique hfits hslot hp hcontains
    exact ⟨hindex'.symm, hhidden⟩
  · rintro ⟨rfl, hhidden⟩
    exact ⟨hindex i j hslot, hhidden, hs.frame_back hslot (hindex i j hslot) ▸ hp⟩

/-- With no actions left to evaluate, the back of a card is shown exactly until the card is
selected or found. -/
theorem Shows.back_shown_iff {n : Nat} {τ : Table Nat} {s : PlayScene} (hs : Shows 6 n τ s)
    (hevaluated : Evaluated s) {k : Nat} (hk : k < 2 * n) :
    (s.node (backId 6 k)).isHidden = false ↔ s.cardsStatus[k]? = some false ∧ k ∉ τ.hand := by
  have hactions := hevaluated _ (hs.playing.board.inScene k hk).2
  have hlt : k < s.cardsStatus.length := hs.playing.status.symm ▸ hk
  have hback := hs.back k hk
  rw [Node.settled_of_no_actions hactions, ← hs.found k, List.getElem?_eq_getElem hlt] at hback
  rw [List.getElem?_eq_getElem hlt, ← Bool.not_eq_true, hback, not_or]
  simp

theorem Displays.stored {s : PlayScene} (hs : Displays s) (d : UserDefaults) :
    Displays (s.stored d) :=
  ⟨hs.labels, hs.score, hs.time, hs.pause⟩

section Alone

variable {device : Device} {s : PlayScene}

theorem Alone.shows (h : Alone device s) : ∃ n τ, Shows 6 n τ s := by
  obtain ⟨_, n, _, -, -, hscored, -⟩ := h.standing.level
  obtain ⟨τ, hshows⟩ := hscored.shows
  exact ⟨n, τ, hshows⟩

theorem Alone.displays (h : Alone device s) : Displays s := by
  refine (h.holds (I := fun s => (∃ n h, Playing 6 n h s) ∧ Displays s) ?_ ?_ ?_).2
  · intro difficulty draws now defaults start _ hstart
    obtain ⟨n, sequence, hn, hperm, rfl⟩ := Game.start_eq_ok hstart
    exact ⟨⟨n, .empty, Game.opened_playing _ hn hperm⟩, opened_displays _ hn hperm⟩
  · rintro s e t ⟨⟨n, h, hp⟩, hs⟩ hm hstep
    obtain ⟨h', houtcome⟩ := outcome_of_step hp hm.1.occurs hstep
    exact ⟨⟨n, h', houtcome.playing hp⟩, hs.step hp hm.1.occurs hstep⟩
  · rintro s d ⟨⟨n, h, hp⟩, hs⟩
    exact ⟨⟨n, h, hp.stored d⟩, hs.stored d⟩

theorem Alone.picks_iff (h : Alone device s) {p : Point} {k : Nat} : Picks device.assets p s k ↔
    Turnable s k ∧ Uppermost device.assets p s k ∧ ¬ Covered device.assets p s := by
  obtain ⟨difficulty, draws, now, defaults, sequence, -, hs⟩ := h.staged
  obtain ⟨hassets, -, -⟩ := device.game_fields difficulty draws now defaults
  rw [← hassets]
  exact hs.picks_iff

/-- A game that goes on and has evaluated its actions hides the pause. -/
theorem Alone.not_covered (h : Alone device s) (hevaluated : Evaluated s)
    (hpause : s.pauseState = false) (p : Point) : ¬ Covered device.assets p s := by
  obtain ⟨difficulty, draws, now, defaults, sequence, -, hs⟩ := h.staged
  rintro ⟨m, hm, hshown, -⟩
  have hsettled := h.displays.pause m hm
  have hchild : m ∈ s.children := by
    rw [hs.pauseNodes] at hm
    exact hs.child.mpr (.inl (by omega))
  rw [Node.settled_of_no_actions (hevaluated m hchild), hshown, hpause] at hsettled
  cases hsettled

/-- What a touch turns on a board that fits, when nothing is left to evaluate. -/
theorem Alone.picks_slot_iff (h : Alone device s) (hfits : Fits s) (hevaluated : Evaluated s)
    {i j : Int} {p : Point} (hslot : Slot s i j)
    (hp : (cardRect ⟨cardSizeX, cardSizeY⟩ s i j).Contains p) {k : Nat} :
    Picks device.assets p s k ↔
      k = s.index i j ∧ Turnable s k ∧ s.cardsStatus[k]? = some false := by
  obtain ⟨n, τ, hshows⟩ := h.shows
  obtain ⟨difficulty, draws, now, defaults, sequence, -, hs⟩ := h.staged
  obtain ⟨hassets, -, -⟩ := device.game_fields difficulty draws now defaults
  have hslots := fun k => hassets ▸ hs.shownAt_slot hfits hslot hp (k := k)
  have hhand : Turnable s k → k ∉ τ.hand := by
    rintro ⟨-, hlock, hselected⟩ hmem
    obtain hfirst | hsecond := (hshows.selected_iff k).mp hmem
    · exact hselected hfirst
    · have hidle := hshows.playing.selected
      cases hhand : τ.hand with
      | empty =>
        rw [hhand] at hmem
        exact hmem
      | one i =>
        rw [hhand] at hidle
        exact absurd (hidle.2.1.symm.trans hsecond) (by omega)
      | two i j hne =>
        rw [hhand] at hidle
        cases hlock.symm.trans hidle.2.2.1
  have hlength : s.cardsStatus.length = 2 * n := hshows.playing.status
  rw [h.picks_iff]
  constructor
  · rintro ⟨hturnable, ⟨hshown, -⟩, -⟩
    obtain ⟨rfl, hhidden⟩ := (hslots k).mp hshown
    obtain ⟨back, hback, -⟩ := hshown
    have hk : s.index i j < 2 * n := by
      have hlt := (List.getElem?_eq_some_iff.mp hback).1
      rwa [hshows.playing.board.cardsBacks, List.length_map, List.length_range] at hlt
    exact ⟨rfl, hturnable, ((hshows.back_shown_iff hevaluated hk).mp hhidden).1⟩
  · rintro ⟨rfl, hturnable, hstatus⟩
    have hk : s.index i j < 2 * n := hlength ▸ (List.getElem?_eq_some_iff.mp hstatus).1
    have hhidden := (hshows.back_shown_iff hevaluated hk).mpr ⟨hstatus, hhand hturnable⟩
    refine ⟨hturnable, ⟨(hslots _).mpr ⟨rfl, hhidden⟩, ?_⟩, h.not_covered hevaluated hturnable.1 p⟩
    intro j' hlt hj'
    exact absurd ((hslots j').mp hj').1 hlt.ne'

end Alone

end PlayScene

namespace App

open PlayScene

variable {device : Device} {s t u : App} {es : List AppEvent} {game : PlayScene}

/-- The end of a touch at `p` turns the card at `k` of the game at `index`. -/
def Turns (device : Device) (t : App) (index : Nat) (p : Point) (draws : Draws) (now : ℚ)
    (k : Nat) : Prop :=
  ∃ u before after, t.step device (.signal index (.touchesEnded p) draws now) = .ok u ∧
    t.gameAt index = some before ∧ u.gameAt index = some after ∧ Selects before after k

/-- The scene that gets a signal is what it has made of it. -/
theorem handled_scene {index : Nat} {signal : Signal} {draws : Draws} {now : ℚ} {scene : Scene}
    (hscene : t.scenes[index]? = some scene)
    (hstep : t.step device (.signal index signal draws now) = .ok u) :
    ∃ after, (scene.load t).handle device.assets signal = .ok after ∧
      u.scenes[index]? = some after := by
  simp only [step, hscene] at hstep
  obtain ⟨after, hafter, hstep⟩ := bind_eq_ok.mp hstep
  obtain ⟨presented, -, hstep⟩ := bind_eq_ok.mp hstep
  cases hstep
  exact ⟨after, hafter, acted_getElem? hscene after⟩

/-- The game that is touched handles the touch. -/
theorem touched_game {index : Nat} {p : Point} {draws : Draws} {now : ℚ}
    (hgame : t.gameAt index = some game)
    (hstep : t.step device (.signal index (.touchesEnded p) draws now) = .ok u) :
    ∃ after, (game.stored t.defaults).touchesEnded device.assets p = .ok after ∧
      u.gameAt index = some after := by
  obtain ⟨scene, hhandled, hscene⟩ := handled_scene (gameAt_eq_some.mp hgame) hstep
  obtain ⟨after, htouch, hafter⟩ := bind_eq_ok.mp hhandled
  cases hafter
  exact ⟨after, htouch, gameAt_eq_some.mpr hscene⟩

/-- In every state of every run, a touch of the game that is shown turns a card exactly when
its back is the last one shown there, and neither the pause nor the lock holds it up. On a
board that fits the scene, with the actions evaluated, this is the card that lies there, if it
is not turned and not found. -/
theorem touch_turns_iff (hclosed : s.scenes = []) (hrun : Run (step device) Receives s es t)
    {index : Nat} (hgame : t.gameAt index = some game) (hview : game.view.isSome = true)
    (p : Point) (draws : Draws) (now : ℚ) (k : Nat) :
    (t.Turns device index p draws now k ↔
      Turnable game k ∧ Uppermost device.assets p game k ∧ ¬ Covered device.assets p game) ∧
      ∀ i j, Slot game i j → (cardRect ⟨cardSizeX, cardSizeY⟩ game i j).Contains p →
        Fits game → Evaluated game →
          (t.Turns device index p draws now k ↔
            k = game.index i j ∧ Turnable game k ∧ game.cardsStatus[k]? = some false) := by
  have hscene := gameAt_eq_some.mp hgame
  have hsettled := settled_of_run hclosed hrun _ (List.mem_of_getElem? hscene)
  have halone : (game.stored t.defaults).Alone device := Alone.stored hsettled.1.2 t.defaults
  have hturns : t.Turns device index p draws now k ↔
      Picks device.assets p (game.stored t.defaults) k := by
    constructor
    · rintro ⟨u, before, after, hstep, hbefore, hafter, hselects⟩
      cases hgame.symm.trans hbefore
      obtain ⟨after', htouch, hafter'⟩ := touched_game hgame hstep
      cases hafter.symm.trans hafter'
      exact ⟨after, htouch, hselects⟩
    · rintro ⟨after, htouch, hselects⟩
      have hhandled : (Scene.load t (.play game)).handle device.assets (.touchesEnded p) =
          .ok (.play after) := by
        change ((game.stored t.defaults).touchesEnded device.assets p >>= _) = _
        rw [htouch, ok_bind]
      have hreceives : (Scene.play game).Receives (.touchesEnded p) := hview
      obtain ⟨u, hstep⟩ := signal_completes draws now hsettled hscene hreceives hhandled
      obtain ⟨after', htouch', hafter⟩ := touched_game hgame hstep
      cases htouch.symm.trans htouch'
      exact ⟨u, game, after, hstep, hgame, hafter, hselects⟩
  rw [hturns]
  refine ⟨halone.picks_iff, ?_⟩
  intro i j hslot hp hfits hevaluated
  exact halone.picks_slot_iff hfits hevaluated hslot hp

/-- An easy game has begun, and the touch is on its first card. -/
theorem touch_turns_iff_small : ∃ t,
    replay (step Device.small) Receives installed (firstTouch.take 4) = some t ∧
      t.Turns Device.small 1 ⟨168, 231⟩ .first 0 0 := by
  have hreplay : (replay (step Device.small) Receives installed (firstTouch.take 4)).map (fun t =>
      (t.gameAt 1).map fun game => decide (game.view.isSome = true ∧ Slot game 0 0 ∧
        (cardRect ⟨cardSizeX, cardSizeY⟩ game 0 0).Contains ⟨168, 231⟩ ∧ Fits game ∧
        Evaluated game ∧ 0 = game.index 0 0 ∧ Turnable game 0 ∧
        game.cardsStatus[0]? = some false)) =
      some (some true) := by decide +kernel
  obtain ⟨t, ht, hrun, hstate⟩ := Runs.run_of_map hreplay
  obtain ⟨game, hgame, hstate⟩ := Option.map_eq_some_iff.mp hstate
  obtain ⟨hview, hslot, hp, hfits, hevaluated, hturned⟩ := of_decide_eq_true hstate
  refine ⟨t, ht, ?_⟩
  exact ((touch_turns_iff rfl hrun hgame hview ⟨168, 231⟩ .first 0 0).2 0 0 hslot hp hfits
    hevaluated).mpr hturned

end App
end CardsGame
