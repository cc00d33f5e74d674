import CardsGame.Menus
import CardsGame.Selection

/-!
# Where a touch ends

Every `touchesEnded` casts the front-most node at the point to a sprite. What is
front-most is worked out for each scene, in every state its events lead to: only a
label or the knob of the slider can be in the way.
-/
namespace CardsGame

open Swift SpriteKit
open Ranking (UserDefaults)
open Runs (Run)

/-- A point of a scene of the given size. -/
def Within (size : Size) (p : Point) : Prop := Rect.Contains ⟨⟨0, 0⟩, size⟩ p

instance (size : Size) (p : Point) : Decidable (Within size p) :=
  inferInstanceAs (Decidable (Rect.Contains _ p))

/-- A background as large as the scene fills it. -/
theorem background_hit (assets : Assets) {n : Node} {size : Size} {p : Point}
    (hkind : n.kind = .sprite) (hanchor : n.anchorPoint = ⟨1 / 2, 1 / 2⟩) (hsize : n.size = size)
    (hposition : n.position = ⟨size.width / 2, size.height / 2⟩) (hhidden : n.isHidden = false)
    (hp : Within size p) : Hit assets p n := by
  have hframe : frame assets n = ⟨⟨0, 0⟩, size⟩ := by
    simp only [frame, hkind, anchored, hanchor, hsize, hposition, Rect.mk.injEq, Point.mk.injEq,
      and_true]
    constructor
    · ring
    · ring
  refine ⟨hhidden, ?_⟩
  rw [hframe]
  exact hp

theorem menuBackground_hit (assets : Assets) {bounds : Size} {p : Point}
    (hp : Within (doubled bounds) p) : Hit assets p (menuBackground (doubled bounds) bounds) :=
  background_hit assets rfl rfl rfl rfl rfl hp

theorem menuBack_hit (assets : Assets) (p : Point) :
    Hit assets p (menuBack assets) ↔ (frame assets (menuBack assets)).Contains p :=
  and_iff_right rfl

/-- The cast of a touch gets through exactly when the front-most node is a sprite. -/
theorem cast_completes_iff {β : Type} {assets : Assets} {drawn : List Node} {p : Point} {n : Node}
    (h : atPoint id assets drawn p = some n) (handle : Node → β) :
    (∃ u, (asSprite id (atPoint id assets drawn p) >>= fun nod => .ok (handle nod) : Checked β) =
      .ok u) ↔ n.kind = .sprite := by
  constructor
  · rintro ⟨u, hu⟩
    obtain ⟨nod, hnod, -⟩ := bind_eq_ok.mp hu
    obtain ⟨hfront, hkind⟩ := (asSprite_eq_ok id).mp hnod
    cases h.symm.trans hfront
    exact hkind
  · intro hkind
    rw [(asSprite_eq_ok id).mpr ⟨h, hkind⟩]
    exact ⟨_, rfl⟩

theorem cast_traps {β : Type} {assets : Assets} {drawn : List Node} {p : Point} {e : Trap}
    (handle : Node → β) (h : asSprite id (atPoint id assets drawn p) = .error e) :
    (asSprite id (atPoint id assets drawn p) >>= fun nod => .ok (handle nod) : Checked β) =
      .error e := by
  rw [h, error_bind]

namespace GameScene

variable {assets : Assets} {music : Music} {view : Size} {s t : GameScene} {p : Point}

theorem children_present (destination : Size → Destination) (s : GameScene) :
    (s.present destination).children = s.children := by
  unfold present
  split
  · rfl
  · rfl

theorem children_processItemTouch (nod : Node) (s : GameScene) :
    (processItemTouch nod s).children = s.children := by
  unfold processItemTouch
  split_ifs
  · exact children_present _ _
  · exact children_present _ _
  · exact children_present _ _
  · exact children_present _ _
  · exact children_present _ _
  · rfl

theorem run_children {ps : List Point}
    (hrun : Run (fun s p => touchesEnded assets p s) (fun _ _ => True) s ps t) :
    t.children = s.children := by
  refine hrun.preserves (I := fun t => t.children = s.children) ?_ rfl
  intro t p u hchildren _ hs
  obtain ⟨nod, -, hs⟩ := bind_eq_ok.mp hs
  cases hs
  rw [children_processItemTouch, hchildren]

theorem didMove_children (h : didMove assets music view { size := doubled view } = .ok s) :
    menuBackground (doubled view) view ∈ s.children ∧ ∀ n ∈ s.children, n.kind = .sprite := by
  obtain ⟨playable, volume⟩ := music
  cases playable with
  | false =>
    cases h
    simp [addChild, button, menuBackground]
  | true =>
    cases h
    simp [addChild, button, menuBackground]

/-- The menu has sprites only, and its background fills it. -/
theorem touch_completes {ps : List Point}
    (hstart : didMove assets music view { size := doubled view } = .ok s)
    (hrun : Run (fun s p => touchesEnded assets p s) (fun _ _ => True) s ps t)
    (hp : Within (doubled view) p) : ∃ u, touchesEnded assets p t = .ok u := by
  obtain ⟨hbackground, hsprites⟩ := didMove_children hstart
  rw [← run_children hrun] at hbackground hsprites
  obtain ⟨n, hn⟩ := atPoint_exists id assets p hbackground (menuBackground_hit assets hp)
  obtain ⟨hmem, -, -⟩ := atPoint_eq_some id assets p hn
  exact (cast_completes_iff hn _).mpr (hsprites n hmem)

end GameScene

namespace LeaderboardsScene

variable {assets : Assets} {defaults : UserDefaults} {view : Size} {s t : LeaderboardsScene}
  {p : Point}

theorem children_processItemTouch (nod : Node) (s : LeaderboardsScene) :
    (processItemTouch nod s).children = s.children := by
  unfold processItemTouch goMenu
  split
  · split
    · rfl
    · rfl
  · rfl

theorem run_children {ps : List Point}
    (hrun : Run (fun s p => touchesEnded assets p s) (fun _ _ => True) s ps t) :
    t.children = s.children := by
  refine hrun.preserves (I := fun t => t.children = s.children) ?_ rfl
  intro t p u hchildren _ hs
  obtain ⟨nod, -, hs⟩ := bind_eq_ok.mp hs
  cases hs
  rw [children_processItemTouch, hchildren]

/-- The background, the four lines and the button of the ranking, in this order. -/
theorem didMove_children (h : didMove assets defaults view { size := doubled view } = .ok s) :
    ∃ lines : List Node,
      s.children = [menuBackground (doubled view) view] ++ lines ++ [menuBack assets] ∧
      ∀ n ∈ lines, n.kind = .label ∧ n.zPosition = 10 ∧ n.isHidden = false := by
  cases h
  exact ⟨[_, _, _, _], rfl, by simp [line]⟩

/-- A touch ends on a sprite unless it ends on a line that the button does not cover. -/
theorem touch_completes_iff {ps : List Point}
    (hstart : didMove assets defaults view { size := doubled view } = .ok s)
    (hrun : Run (fun s p => touchesEnded assets p s) (fun _ _ => True) s ps t)
    (hp : Within (doubled view) p) :
    (∃ u, touchesEnded assets p t = .ok u) ↔
      (frame assets (menuBack assets)).Contains p ∨
        ∀ n ∈ t.children, n.kind = .label → ¬ (frame assets n).Contains p := by
  obtain ⟨lines, hchildren, hlines⟩ := didMove_children hstart
  rw [← run_children hrun] at hchildren
  obtain ⟨n, hn⟩ : ∃ n, atPoint id assets t.children p = some n := by
    rw [hchildren]
    exact atPoint_exists id assets p (List.mem_append_left _ (List.mem_append_left _
      (List.mem_singleton_self _))) (menuBackground_hit assets hp)
  obtain ⟨hmem, hit, -⟩ := atPoint_eq_some id assets p hn
  apply (cast_completes_iff hn _).trans
  rw [hchildren] at hn hmem ⊢
  constructor
  · intro hkind
    rw [or_iff_not_imp_left]
    intro hback l hl hlabel hcontains
    have hline : l ∈ lines := by
      simp only [List.mem_append, List.mem_singleton] at hl
      obtain (rfl | hl) | rfl := hl
      · cases hlabel
      · exact hl
      · cases hlabel
    obtain ⟨-, hz, hhidden⟩ := hlines l hline
    -- The lines lie over the background, and the button is not hit.
    rw [List.append_assoc] at hn
    have hmem := mem_above_of_atPoint id assets p hn (List.mem_append_left _ hline)
      ⟨hhidden, hcontains⟩ (by simp [menuBackground, hz])
    rw [List.mem_append, List.mem_singleton] at hmem
    obtain hmem | rfl := hmem
    · cases hkind.symm.trans (hlines n hmem).1
    · exact hback hit.2
  · rintro (hback | hlabels)
    · have hbelow : ∀ m ∈ [menuBackground (doubled view) view] ++ lines,
          Hit assets p m → m.zPosition ≤ (menuBack assets).zPosition := by
        intro m hm _
        rw [List.mem_append, List.mem_singleton] at hm
        obtain rfl | hm := hm
        · simp [menuBackground, menuBack]
        · simp [hlines m hm, menuBack]
      have hmem := mem_above_of_atPoint id assets p (n := menuBack assets) hn
        (List.mem_singleton_self _) ((menuBack_hit assets p).mpr hback) hbelow
      rw [List.mem_singleton] at hmem
      subst hmem
      rfl
    · have hlabel : n.kind ≠ .label := fun hkind => hlabels n hmem hkind hit.2
      simp only [List.mem_append, List.mem_singleton] at hmem
      obtain (rfl | hmem) | rfl := hmem
      · rfl
      · exact absurd (hlines n hmem).1 hlabel
      · rfl

end LeaderboardsScene

/-- The touches of the options: one that moves over the slider, and the end of one that
the scene receives, at any point when it began elsewhere. -/
inductive OptionsTouch where
  | moved (x : ℚ)
  | ended (p : Point)

/-- A node at the `zPosition` of its parent. -/
structure Flat (kind : NodeKind) (n : Node) : Prop where
  kind : n.kind = kind
  zPosition : n.zPosition = 0
  isHidden : n.isHidden = false

theorem Flat.hit_iff {kind : NodeKind} {n : Node} (h : Flat kind n) (assets : Assets) (p : Point) :
    Hit assets p n ↔ (frame assets n).Contains p :=
  and_iff_right h.isHidden

namespace OptionsScene

def step (assets : Assets) (s : OptionsScene) : OptionsTouch → Checked OptionsScene
  | .moved x => .ok (s.sliderMoved x)
  | .ended p => s.touchesEnded assets p

/-- What `didMove` lays out and no touch changes. -/
structure Laid (assets : Assets) (view : Size) (s : OptionsScene) : Prop where
  children : s.children =
    [.node (menuBackground (doubled view) view), .slider, .node (menuBack assets)]
  label : Flat .label (s.slider.placed s.slider.label)
  track : Flat .sprite (s.slider.placed s.slider.background)
  knob : Flat .shape (s.slider.placed s.slider.slider)

variable {assets : Assets} {text : String} {view : Size} {volume : ℚ} {s t : OptionsScene}
  {p : Point}

theorem didMove_laid (h : didMove assets view (new assets text (doubled view) volume) = .ok s) :
    Laid assets view s := by
  cases h
  exact ⟨rfl, ⟨rfl, rfl, rfl⟩, ⟨rfl, rfl, rfl⟩, ⟨rfl, rfl, rfl⟩⟩

theorem Laid.processItemTouch (h : Laid assets view s) (nod : Node) :
    Laid assets view (s.processItemTouch nod) := by
  unfold OptionsScene.processItemTouch goMenu
  split
  · split
    · exact ⟨h.children, h.label, h.track, h.knob⟩
    · exact h
  · exact h

theorem Laid.step {e : OptionsTouch} (h : Laid assets view s) (hs : s.step assets e = .ok t) :
    Laid assets view t := by
  cases e with
  | moved x =>
    cases hs
    exact ⟨h.children, ⟨h.label.kind, h.label.zPosition, h.label.isHidden⟩,
      ⟨h.track.kind, h.track.zPosition, h.track.isHidden⟩,
      ⟨h.knob.kind, h.knob.zPosition, h.knob.isHidden⟩⟩
  | ended p =>
    obtain ⟨nod, -, hs⟩ := bind_eq_ok.mp hs
    cases hs
    exact h.processItemTouch nod

theorem Laid.drawn (h : Laid assets view s) :
    s.drawn = [menuBackground (doubled view) view,
      { kind := .group, position := s.slider.position },
      s.slider.placed s.slider.label, s.slider.placed s.slider.background,
      s.slider.placed s.slider.slider, menuBack assets] := by
  rw [OptionsScene.drawn, h.children]
  rfl

theorem group_not_hit (position : Point) :
    ¬ Hit assets p { kind := .group, position := position } := by
  rintro ⟨-, hleft, hright, -, -⟩
  simp only [frame, add_zero] at hleft hright
  exact absurd hleft (not_le.mpr hright)

/-- Of the six nodes the last one that is hit is in front: each case names it. -/
theorem front_completes_iff {β : Type} (handle : Node → β)
    {background group label track knob back : Node} (hbackground : Flat .sprite background)
    (hgroup : Flat .group group) (hlabel : Flat .label label) (htrack : Flat .sprite track)
    (hknob : Flat .shape knob) (hsprite : back.kind = .sprite) (hback : 0 ≤ back.zPosition)
    (hit : Hit assets p background) (hempty : ¬ Hit assets p group) :
    (∃ u, (asSprite id (atPoint id assets [background, group, label, track, knob, back] p) >>=
        fun nod => .ok (handle nod) : Checked β) = .ok u) ↔
      Hit assets p back ∨
        ¬ Hit assets p knob ∧ (Hit assets p track ∨ ¬ Hit assets p label) := by
  have hflat := And.intro hbackground.zPosition (And.intro hgroup.zPosition (And.intro
    hlabel.zPosition (And.intro htrack.zPosition hknob.zPosition)))
  by_cases hitBack : Hit assets p back
  · have hfront := @atPoint_front _ id assets p [background, group, label, track, knob] [] back
      hitBack (by simp [hflat, hback]) (by simp)
    apply (cast_completes_iff hfront handle).trans
    exact iff_of_true hsprite (.inl hitBack)
  by_cases hitKnob : Hit assets p knob
  · have hfront := @atPoint_front _ id assets p [background, group, label, track] [back] knob
      hitKnob (by simp [hflat]) (by simp [hitBack])
    apply (cast_completes_iff hfront handle).trans
    simp [hknob.kind, hitBack, hitKnob]
  by_cases hitTrack : Hit assets p track
  · have hfront := @atPoint_front _ id assets p [background, group, label] [knob, back] track
      hitTrack (by simp [hflat]) (by simp [hitBack, hitKnob])
    apply (cast_completes_iff hfront handle).trans
    exact iff_of_true htrack.kind (.inr ⟨hitKnob, .inl hitTrack⟩)
  by_cases hitLabel : Hit assets p label
  · have hfront := @atPoint_front _ id assets p [background, group] [track, knob, back] label
      hitLabel (by simp [hflat]) (by simp [hitBack, hitKnob, hitTrack])
    apply (cast_completes_iff hfront handle).trans
    simp [hlabel.kind, hitBack, hitTrack, hitLabel]
  have hfront := @atPoint_front _ id assets p [] [group, label, track, knob, back] background
    hit (by simp) (by simp [hempty, hitBack, hitKnob, hitTrack, hitLabel])
  apply (cast_completes_iff hfront handle).trans
  exact iff_of_true hbackground.kind (.inr ⟨hitKnob, .inr hitLabel⟩)

/-- A touch ends on a sprite unless it ends on the knob, or on the label beside the
track, where the button does not cover them. -/
theorem touch_completes_iff {es : List OptionsTouch}
    (hstart : didMove assets view (new assets text (doubled view) volume) = .ok s)
    (hrun : Run (step assets) (fun _ _ => True) s es t) (hp : Within (doubled view) p) :
    (∃ u, touchesEnded assets p t = .ok u) ↔
      (frame assets (menuBack assets)).Contains p ∨
        ¬ (frame assets (t.slider.placed t.slider.slider)).Contains p ∧
          ((frame assets (t.slider.placed t.slider.background)).Contains p ∨
            ¬ (frame assets (t.slider.placed t.slider.label)).Contains p) := by
  have hlaid : Laid assets view t :=
    hrun.preserves (I := Laid assets view) (fun _ _ _ h _ hs => h.step hs) (didMove_laid hstart)
  unfold touchesEnded
  rw [hlaid.drawn, ← menuBack_hit, ← hlaid.label.hit_iff, ← hlaid.track.hit_iff,
    ← hlaid.knob.hit_iff]
  exact front_completes_iff _ ⟨rfl, rfl, rfl⟩ ⟨rfl, rfl, rfl⟩ hlaid.label hlaid.track hlaid.knob rfl
    (by simp [menuBack]) (menuBackground_hit assets hp) (group_not_hit t.slider.position)

end OptionsScene

section Opened

variable (g : Game) (sequence : List Int)

theorem Game.node_opened_button {m : Nat} (hm : m < 6) :
    (g.opened sequence).node m = PlayScene.buttonNode g.assets g.bounds g.scene m := by
  have hnode := PlayScene.node_boarded_button g.assets g.bounds sequence g.scene hm
  have hzero : g.scene.nextNode + m = m := Nat.zero_add m
  rw [hzero] at hnode
  exact hnode

theorem Game.children_opened : (g.opened sequence).children =
    List.range 6 ++ (List.range sequence.length).flatMap fun k =>
      [PlayScene.frontId 6 k, PlayScene.backId 6 k] :=
  PlayScene.children_dealt (g.scene.framed g.assets g.bounds) sequence

end Opened

namespace PlayScene

/-- A named node is touched without a trap when the cards are not reached. -/
theorem processItemTouch_completes {s : PlayScene} {nod : Nat} {name : String}
    (hname : (s.node nod).name = some name)
    (hother : s.lockInteraction = true ∨ nod ∉ s.cardsBacks) :
    ∃ t, processItemTouch nod s = .ok t := by
  cases hpause : s.pauseState with
  | true => exact ⟨s, processItemTouch_paused nod hpause⟩
  | false =>
    by_cases hback : (s.node nod).name = some "GameBack"
    · exact ⟨_, processItemTouch_gameBack hpause hback⟩
    · rw [processItemTouch_other hpause hback, hname, unwrap_some, ok_bind]
      cases intOfString name with
      | none => exact ⟨_, rfl⟩
      | some num =>
        rw [Option.elim_some]
        split
        · split
          · exact ⟨_, rfl⟩
          · next hlock =>
            obtain hlock' | hmem := hother
            · exact absurd hlock' hlock
            · exact ⟨_, touchLoop_of_not_mem hmem 0 _⟩
        · exact ⟨_, rfl⟩

/-- In a game no named node traps. -/
theorem Playing.touch_completes {base n : Nat} {h : Pairs.Hand Nat} {s : PlayScene} {nod : Nat}
    {name : String} (hp : Playing base n h s) (hname : (s.node nod).name = some name) :
    ∃ t, processItemTouch nod s = .ok t := by
  by_cases hback : ∃ k, k < 2 * n ∧ nod = backId base k
  · obtain ⟨k, hk, rfl⟩ := hback
    cases hpause : s.pauseState with
    | true => exact ⟨s, processItemTouch_paused _ hpause⟩
    | false =>
      cases h with
      | empty => exact ⟨_, touch_first hp hk hpause⟩
      | one i =>
        by_cases hne : i = k
        · subst hne
          exact ⟨_, touch_again hp hpause⟩
        · exact ⟨_, touch_second hp hne hk hpause⟩
      | two i j hne => exact processItemTouch_completes hname (.inl hp.selected.2.2.1)
  · exact processItemTouch_completes hname (.inr fun hmem => hback (hp.board.mem_backs.mp hmem))

/-- The nodes around the cards stay shown, the pause layer and image aside. -/
theorem Outcome.still {base n : Nat} {h h' : Pairs.Hand Nat} {s t : PlayScene} {e : Event}
    (ho : Outcome base n s h e t h') {m : Nat} (hm : m < base) (hlayer : s.pauseLayer ≠ some m)
    (himg : s.pauseImg ≠ some m) (hstill : (s.node m).Still) : (t.node m).Still := by
  have hfront : ∀ k, m ≠ frontId base k := fun k => by simp only [frontId]; omega
  have hback : ∀ k, m ≠ backId base k := fun k => by simp only [backId]; omega
  cases ho with
  | quiet _ hquiet => exact hquiet.still m hlayer himg hstill
  | @first k =>
    change (Function.update s.node (backId base k) _ m).Still
    rwa [Function.update_of_ne (hback k)]
  | @second _ j =>
    change (Function.update s.node (backId base j) _ m).Still
    rwa [Function.update_of_ne (hback j)]
  | @found i j _ _ difficulty timer =>
    obtain ⟨defaults, presented, effects, heq⟩ := (s.marked base i j difficulty timer).finished_eq
    rw [resolvedFound, heq]
    apply still_retext _
    change (queuePair true (frontId base i) (frontId base j) s.actionsStarted s.node m).Still
    rwa [queuePair_other (hfront i) (hfront j)]
  | @missed i j =>
    apply still_retext _
    change (queuePair false (backId base i) (backId base j) s.actionsStarted s.node m).Still
    rwa [queuePair_other (hback i) (hback j)]

/-- The nodes of a game that has begun, as far as a touch depends on them. -/
structure Staged (g : Game) (sequence : List Int) (t : PlayScene) : Prop where
  playing : ∃ n h, Playing 6 n h t
  skeleton : t.skeleton = (g.opened sequence).skeleton
  still : ∀ m, m < 4 → (t.node m).Still

namespace Staged

variable {g : Game} {sequence : List Int} {t : PlayScene} (hs : Staged g sequence t)

include hs

theorem fixed (m : Nat) : (t.node m).fixed = ((g.opened sequence).node m).fixed := by
  have hnode : t.skeleton.node m = (g.opened sequence).skeleton.node m := by rw [hs.skeleton]
  exact hnode

theorem button {m : Nat} (hm : m < 6) :
    (t.node m).fixed = (buttonNode g.assets g.bounds g.scene m).fixed := by
  rw [hs.fixed, Game.node_opened_button g sequence hm]

theorem front {k : Nat} (hk : k < sequence.length) :
    ∃ b : PlayScene, (t.node (frontId 6 k)).fixed = (b.frontNode k).fixed := by
  have hnode : (g.opened sequence).node (frontId 6 k) = _ :=
    node_dealt_front (g.scene.framed g.assets g.bounds) sequence hk
  exact ⟨_, by rw [hs.fixed, hnode]⟩

theorem back {k : Nat} (hk : k < sequence.length) :
    ∃ b : PlayScene, (t.node (backId 6 k)).fixed = (b.backNode k).fixed := by
  have hnode : (g.opened sequence).node (backId 6 k) = _ :=
    node_dealt_back (g.scene.framed g.assets g.bounds) sequence hk
  exact ⟨_, by rw [hs.fixed, hnode]⟩

theorem children : t.children =
    List.range 6 ++ (List.range sequence.length).flatMap fun k => [frontId 6 k, backId 6 k] := by
  have hchildren : t.skeleton.children = (g.opened sequence).skeleton.children := by
    rw [hs.skeleton]
  exact hchildren.trans (g.children_opened sequence)

theorem child {m : Nat} : m ∈ t.children ↔
    m < 6 ∨ ∃ k, k < sequence.length ∧ (m = frontId 6 k ∨ m = backId 6 k) := by
  rw [hs.children]
  simp only [List.mem_append, List.mem_range, List.mem_flatMap, List.mem_cons, List.not_mem_nil,
    or_false]

theorem height {m : Nat} (hm : m < 6) :
    (t.node m).zPosition = (buttonNode g.assets g.bounds g.scene m).zPosition := by
  have hheight := congrArg Node.zPosition (hs.button hm)
  exact hheight

theorem label {m : Nat} (hm : m = 2 ∨ m = 3) :
    (t.node m).kind = .label ∧ (t.node m).zPosition = 10 ∧ (t.node m).isHidden = false := by
  obtain rfl | rfl := hm
  · exact ⟨congrArg Node.kind (hs.button (by decide)), hs.height (by decide),
      (hs.still 2 (by decide)).1⟩
  · exact ⟨congrArg Node.kind (hs.button (by decide)), hs.height (by decide),
      (hs.still 3 (by decide)).1⟩

/-- Every child but the two labels is a sprite with a name. -/
theorem sprite {m : Nat} (hm : m ∈ t.children) (hlabel : ¬ (m = 2 ∨ m = 3)) :
    (t.node m).kind = .sprite ∧ ∃ name, (t.node m).name = some name := by
  obtain hm | ⟨k, hk, rfl | rfl⟩ := hs.child.mp hm
  · have hbutton := hs.button hm
    have hkind := congrArg Node.kind hbutton
    have hname := congrArg Node.name hbutton
    interval_cases m
    · exact ⟨hkind, _, hname⟩
    · exact ⟨hkind, _, hname⟩
    · exact absurd (.inl rfl) hlabel
    · exact absurd (.inr rfl) hlabel
    · exact ⟨hkind, _, hname⟩
    · exact ⟨hkind, _, hname⟩
  · obtain ⟨b, hfront⟩ := hs.front hk
    exact ⟨congrArg Node.kind hfront, _, congrArg Node.name hfront⟩
  · obtain ⟨b, hback⟩ := hs.back hk
    exact ⟨congrArg Node.kind hback, _, congrArg Node.name hback⟩

theorem mem_cardsBacks {m : Nat} :
    m ∈ t.cardsBacks ↔ ∃ k, k < sequence.length ∧ m = backId 6 k := by
  have hbacks : t.skeleton.cardsBacks = (g.opened sequence).skeleton.cardsBacks := by
    rw [hs.skeleton]
  have hlist : t.cardsBacks = (List.range sequence.length).map (backId 6) :=
    hbacks.trans (cardsBacks_dealt (g.scene.framed g.assets g.bounds) sequence)
  rw [hlist]
  simp [eq_comm]

section Front

variable {p : Point} {nod : Nat} (hfront : atPoint t.node g.assets t.children p = some nod)

include hfront

/-- A pause node that is hit is in front of the labels. -/
theorem front_of_pause {m : Nat} (hm : m = 4 ∨ m = 5) (hit : Hit g.assets p (t.node m)) :
    ¬ (nod = 2 ∨ nod = 3) := by
  intro hlabel
  obtain ⟨-, -, hgreatest⟩ := atPoint_eq_some t.node g.assets p hfront
  have hle := hgreatest m (hs.child.mpr (.inl (by omega))) hit
  have hheight : (t.node m).zPosition = 100 := by
    obtain rfl | rfl := hm
    · exact hs.height (by decide)
    · exact hs.height (by decide)
  rw [hheight, (hs.label hlabel).2.1] at hle
  exact absurd hle (by norm_num)

/-- The back of a card that is hit is in front of the labels, which are as high but drawn
before it. -/
theorem front_of_back {k : Nat} (hk : k < sequence.length)
    (hit : Hit g.assets p (t.node (backId 6 k))) : ¬ (nod = 2 ∨ nod = 3) := by
  by_cases hpause : Hit g.assets p (t.node 4) ∨ Hit g.assets p (t.node 5)
  · obtain hpause | hpause := hpause
    · exact hs.front_of_pause hfront (.inl rfl) hpause
    · exact hs.front_of_pause hfront (.inr rfl) hpause
  rw [not_or] at hpause
  obtain ⟨b, hback⟩ := hs.back hk
  have hheight : (t.node (backId 6 k)).zPosition = 9 + 1 := congrArg Node.zPosition hback
  rw [hs.children] at hfront
  have hmem := mem_above_of_atPoint t.node g.assets p hfront
    (List.mem_flatMap.mpr ⟨k, List.mem_range.mpr hk, List.mem_cons_of_mem _ List.mem_cons_self⟩) hit
    (by
      intro m hm hitm
      rw [List.mem_range] at hm
      rw [hs.height hm, hheight]
      interval_cases m
      · norm_num [buttonNode]
      · norm_num [buttonNode]
      · norm_num [buttonNode]
      · norm_num [buttonNode]
      · exact absurd hitm hpause.1
      · exact absurd hitm hpause.2)
  obtain ⟨j, -, hj⟩ := List.mem_flatMap.mp hmem
  simp only [List.mem_cons, List.not_mem_nil, or_false, frontId, backId] at hj
  omega

/-- A label that contains the point is in front, unless a back or a pause node is hit. -/
theorem front_of_label {l : Nat} (hl : l = 2 ∨ l = 3)
    (hcontains : (frame g.assets (t.node l)).Contains p)
    (hbacks : ∀ k, k < sequence.length → ¬ Hit g.assets p (t.node (backId 6 k)))
    (hlayer : ¬ Hit g.assets p (t.node 4)) (himg : ¬ Hit g.assets p (t.node 5)) :
    nod = 2 ∨ nod = 3 := by
  obtain ⟨-, hheight, hhidden⟩ := hs.label hl
  have hit : Hit g.assets p (t.node l) := ⟨hhidden, hcontains⟩
  obtain ⟨-, hitNod, -⟩ := atPoint_eq_some t.node g.assets p hfront
  rw [hs.children, atPoint_below t.node g.assets p (List.mem_range.mpr (by omega)) hit] at hfront
  · have hmem := @mem_above_of_atPoint _ t.node g.assets p [0, 1] [2, 3, 4, 5] nod l hfront
      (by simp; omega) hit (by
        have hbackground : (t.node 0).zPosition = 0 := hs.height (by decide)
        have hgameBack : (t.node 1).zPosition = 10 := hs.height (by decide)
        simp [hbackground, hgameBack, hheight])
    simp only [List.mem_cons, List.not_mem_nil, or_false] at hmem
    obtain rfl | rfl | rfl | rfl := hmem
    · exact .inl rfl
    · exact .inr rfl
    · exact absurd hitNod hlayer
    · exact absurd hitNod himg
  · intro m hm hitm
    obtain ⟨k, hk, hmk⟩ := List.mem_flatMap.mp hm
    rw [List.mem_range] at hk
    simp only [List.mem_cons, List.not_mem_nil, or_false] at hmk
    obtain rfl | rfl := hmk
    · obtain ⟨b, hfrontNode⟩ := hs.front hk
      have hz : (t.node (frontId 6 k)).zPosition = 9 := congrArg Node.zPosition hfrontNode
      rw [hz, hheight]
      norm_num
    · exact absurd hitm (hbacks k hk)

end Front

theorem background_hit (hsize : g.size = doubled g.bounds) {p : Point} (hp : Within g.size p) :
    Hit g.assets p (t.node 0) := by
  have hbutton := hs.button (m := 0) (by decide)
  have hnode : (t.node 0).size = g.size := (congrArg Node.size hbutton).trans hsize.symm
  exact CardsGame.background_hit g.assets (congrArg Node.kind hbutton)
    (congrArg Node.anchorPoint hbutton) hnode (congrArg Node.position hbutton)
    (hs.still 0 (by decide)).1 hp

end Staged

/-- Every run leaves the nodes like this. -/
theorem run_staged {g : Game} {s t : PlayScene} {es : List Event} (hstart : g.start = .ok s)
    (hrun : Run step Occurs s es t) : ∃ sequence, Staged g sequence t := by
  obtain ⟨n, sequence, hn, hperm, rfl⟩ := Game.start_eq_ok hstart
  refine ⟨sequence, hrun.preserves (I := Staged g sequence) ?_ ?_⟩
  · rintro s e t ⟨⟨n, h, hp⟩, hskeleton, hstill⟩ ho hs
    obtain ⟨h', houtcome⟩ := outcome_of_step hp ho hs
    refine ⟨⟨n, h', houtcome.playing hp⟩, houtcome.skeleton.trans hskeleton, ?_⟩
    intro m hm
    have hlayer : s.pauseLayer = some 4 := congrArg PlayScene.pauseLayer hskeleton
    have himg : s.pauseImg = some 5 := congrArg PlayScene.pauseImg hskeleton
    refine houtcome.still (by omega) ?_ ?_ (hstill m hm)
    · rw [hlayer, Ne, Option.some.injEq]
      omega
    · rw [himg, Ne, Option.some.injEq]
      omega
  · refine ⟨⟨n, _, g.opened_playing hn hperm⟩, rfl, ?_⟩
    intro m hm
    change ((g.opened sequence).node m).Still
    rw [g.node_opened_button sequence (by omega)]
    interval_cases m
    · exact ⟨rfl, rfl⟩
    · exact ⟨rfl, rfl⟩
    · exact ⟨rfl, rfl⟩
    · exact ⟨rfl, rfl⟩

/-- The touch at `p` gets through on a sprite that has a name. -/
def Lands (assets : Assets) (p : Point) (s : PlayScene) : Prop :=
  ∃ nod name u, asSprite s.node (atPoint s.node assets s.children p) = .ok nod ∧
    (s.node nod).name = some name ∧ touchesEnded assets p s = .ok u

/-- A touch of a game gets through unless it ends on one of the two labels, where no
back of a card and no pause node covers it. -/
theorem lands_iff {g : Game} {s t : PlayScene} {es : List Event} (hsize : g.size = doubled g.bounds)
    (hstart : g.start = .ok s) (hrun : Run step Occurs s es t) {p : Point} (hp : Within g.size p) :
    Lands g.assets p t ↔
      (∀ label, t.scoreLabel = some label ∨ t.timeLabel = some label →
        ¬ (frame g.assets (t.node label)).Contains p) ∨
      ∃ m, (m ∈ t.cardsBacks ∨ t.pauseLayer = some m ∨ t.pauseImg = some m) ∧
        Hit g.assets p (t.node m) := by
  obtain ⟨sequence, hs⟩ := run_staged hstart hrun
  have hscore : t.scoreLabel = some 2 := congrArg PlayScene.scoreLabel hs.skeleton
  have htime : t.timeLabel = some 3 := congrArg PlayScene.timeLabel hs.skeleton
  have hlayer : t.pauseLayer = some 4 := congrArg PlayScene.pauseLayer hs.skeleton
  have himg : t.pauseImg = some 5 := congrArg PlayScene.pauseImg hs.skeleton
  obtain ⟨nod, hfront⟩ := atPoint_exists t.node g.assets p (hs.child.mpr (.inl (by decide)))
    (hs.background_hit hsize hp)
  obtain ⟨hmem, hit, -⟩ := atPoint_eq_some t.node g.assets p hfront
  have hlands : Lands g.assets p t ↔ ¬ (nod = 2 ∨ nod = 3) := by
    constructor
    · rintro ⟨nod', name, u, hsprite, -, -⟩ hlabel
      obtain ⟨hfront', hkind⟩ := (asSprite_eq_ok t.node).mp hsprite
      cases hfront.symm.trans hfront'
      cases hkind.symm.trans (hs.label hlabel).1
    · intro hlabel
      obtain ⟨hkind, name, hname⟩ := hs.sprite hmem hlabel
      obtain ⟨n, h, hplaying⟩ := hs.playing
      obtain ⟨u, hu⟩ := hplaying.touch_completes hname
      have hsprite := (asSprite_eq_ok t.node).mpr ⟨hfront, hkind⟩
      refine ⟨nod, name, u, hsprite, hname, ?_⟩
      rw [touchesEnded, hsprite, ok_bind, hu]
  rw [hlands, hscore, htime, hlayer, himg]
  constructor
  · intro hnod
    rw [or_iff_not_imp_right]
    intro hcovered l hl hcontains
    refine hnod (hs.front_of_label hfront ?_ hcontains ?_ ?_ ?_)
    · simpa [eq_comm] using hl
    · intro k hk hitBack
      exact hcovered ⟨_, .inl (hs.mem_cardsBacks.mpr ⟨k, hk, rfl⟩), hitBack⟩
    · intro hitLayer
      exact hcovered ⟨4, .inr (.inl rfl), hitLayer⟩
    · intro hitImg
      exact hcovered ⟨5, .inr (.inr rfl), hitImg⟩
  · rintro (hlabels | ⟨m, hm | hm | hm, hitm⟩)
    · rintro (rfl | rfl)
      · exact hlabels 2 (.inl rfl) hit.2
      · exact hlabels 3 (.inr rfl) hit.2
    · obtain ⟨k, hk, rfl⟩ := hs.mem_cardsBacks.mp hm
      exact hs.front_of_back hfront hk hitm
    · cases hm
      exact hs.front_of_pause hfront (.inl rfl) hitm
    · cases hm
      exact hs.front_of_pause hfront (.inr rfl) hitm

/-- In the menu every touch gets through; in the ranking, in the options and in a game
exactly those do that end on no label and no knob which is in front. The scenes are as
large as their callers make them for a view. -/
theorem touches_complete_iff (g : Game) {p : Point} (hsize : g.size = doubled g.bounds)
    (hp : Within g.size p) :
    (∀ music s t ps, GameScene.didMove g.assets music g.bounds { size := g.size } = .ok s →
      Run (fun s p => GameScene.touchesEnded g.assets p s) (fun _ _ => True) s ps t →
      ∃ u, GameScene.touchesEnded g.assets p t = .ok u) ∧
    (∀ defaults s t ps,
      LeaderboardsScene.didMove g.assets defaults g.bounds { size := g.size } = .ok s →
      Run (fun s p => LeaderboardsScene.touchesEnded g.assets p s) (fun _ _ => True) s ps t →
      ((∃ u, LeaderboardsScene.touchesEnded g.assets p t = .ok u) ↔
        (frame g.assets (menuBack g.assets)).Contains p ∨
          ∀ n ∈ t.children, n.kind = .label → ¬ (frame g.assets n).Contains p)) ∧
    (∀ text volume s t es,
      OptionsScene.didMove g.assets g.bounds (.new g.assets text g.size volume) = .ok s →
      Run (OptionsScene.step g.assets) (fun _ _ => True) s es t →
      ((∃ u, OptionsScene.touchesEnded g.assets p t = .ok u) ↔
        (frame g.assets (menuBack g.assets)).Contains p ∨
          ¬ (frame g.assets (t.slider.placed t.slider.slider)).Contains p ∧
            ((frame g.assets (t.slider.placed t.slider.background)).Contains p ∨
              ¬ (frame g.assets (t.slider.placed t.slider.label)).Contains p))) ∧
    ∀ s t es, g.start = .ok s → Run step Occurs s es t →
      (Lands g.assets p t ↔
        (∀ label, t.scoreLabel = some label ∨ t.timeLabel = some label →
          ¬ (frame g.assets (t.node label)).Contains p) ∨
        ∃ m, (m ∈ t.cardsBacks ∨ t.pauseLayer = some m ∨ t.pauseImg = some m) ∧
          Hit g.assets p (t.node m)) := by
  have hp' : Within (doubled g.bounds) p := hsize ▸ hp
  refine ⟨?_, ?_, ?_, ?_⟩
  · intro music s t ps hstart hrun
    rw [hsize] at hstart
    exact GameScene.touch_completes hstart hrun hp'
  · intro defaults s t ps hstart hrun
    rw [hsize] at hstart
    exact LeaderboardsScene.touch_completes_iff hstart hrun hp'
  · intro text volume s t es hstart hrun
    rw [hsize] at hstart
    exact OptionsScene.touch_completes_iff hstart hrun hp'
  · intro s t es hstart hrun
    exact lands_iff hsize hstart hrun hp

/-- The touch of a back at the start of a game. -/
theorem touches_complete_small : ∃ t, Game.small.played step Occurs
    [.evaluateActions 4, .evaluateActions 5] = some t ∧ Lands Game.small.assets ⟨236, 424⟩ t := by
  have hplayed : (Game.small.played step Occurs [.evaluateActions 4, .evaluateActions 5]).map
      (fun t => decide (7 ∈ t.cardsBacks ∧ Hit Game.small.assets ⟨236, 424⟩ (t.node 7))) =
        some true := by decide +kernel
  obtain ⟨s, t, hs, ht, hrun, hplayed⟩ := Game.run_of_map Game.small step Occurs _ hplayed
  rw [decide_eq_true_eq] at hplayed
  refine ⟨t, ht, ?_⟩
  obtain ⟨-, -, -, hlands⟩ := touches_complete_iff Game.small (p := ⟨236, 424⟩)
    (by decide +kernel) (by decide +kernel)
  exact (hlands s t _ hs hrun).mpr (.inr ⟨7, .inl hplayed.1, hplayed.2⟩)

/-- A touch of a game ends on its score, one of the ranking on its title, and one of the
options on the knob. -/
theorem touches_trap :
    (∃ s t es, Game.small.levelled.start = .ok s ∧ Run step OnScreen s es t ∧
      Within Game.small.size ⟨225, 1294⟩ ∧
      touchesEnded Game.small.assets ⟨225, 1294⟩ t = .error .badCast) ∧
    (∃ s, LeaderboardsScene.didMove Game.small.assets .empty ⟨375, 667⟩ { size := ⟨750, 1334⟩ } =
        .ok s ∧ Within ⟨750, 1334⟩ ⟨375, 917⟩ ∧
      LeaderboardsScene.touchesEnded Game.small.assets ⟨375, 917⟩ s = .error .badCast) ∧
    ∃ s, OptionsScene.didMove Game.small.assets ⟨375, 667⟩
        (.new Game.small.assets "Volumen" ⟨750, 1334⟩ (1 / 2)) = .ok s ∧
      Within ⟨750, 1334⟩ ⟨460, 667⟩ ∧
      OptionsScene.touchesEnded Game.small.assets ⟨460, 667⟩ s = .error .badCast := by
  refine ⟨?_, ⟨_, rfl, by decide +kernel, ?_⟩, ⟨_, rfl, by decide +kernel, ?_⟩⟩
  · have hplayed : (Game.small.levelled.played step OnScreen
        [.evaluateActions 4, .evaluateActions 5]).map (fun t => asSprite t.node
          (atPoint t.node Game.small.assets t.children ⟨225, 1294⟩)) = some (.error .badCast) := by
      decide +kernel
    obtain ⟨s, t, hs, ht, hrun, hplayed⟩ :=
      Game.run_of_map Game.small.levelled step OnScreen _ hplayed
    exact ⟨s, t, _, hs, hrun, by decide +kernel, by rw [touchesEnded, hplayed]; rfl⟩
  · exact cast_traps _ (by decide +kernel)
  · exact cast_traps _ (by decide +kernel)

end PlayScene
end CardsGame
