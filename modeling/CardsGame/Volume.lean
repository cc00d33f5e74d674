import CardsGame.Games

/-!
# The volume

The options store every move of the slider, and a menu reads the store once, when it is
set up. So a menu plays at the last volume set before it was presented, rounded to a `Float`, and
the options it opens have the knob there.
-/
namespace CardsGame

open Swift SpriteKit
open Runs (Run replay)
open Shuffle (Draws)

namespace Slider

/-- The knob is on the track, at the place of the value. -/
structure OnTrack (s : Slider) : Prop where
  width : s.width = 300
  lower : 0 ≤ s.value
  upper : s.value ≤ 1
  knob : s.slider.position = ⟨s.background.position.x + s.value * s.width, 0⟩

theorem onTrack_new (assets : Assets) (text : String) {volume : ℚ} (hlower : 0 ≤ volume)
    (hupper : volume ≤ 1) : ((Slider.new assets 300 20 text).setValue volume).OnTrack :=
  ⟨rfl, hlower, hupper, rfl⟩

theorem OnTrack.moved {s : Slider} (h : s.OnTrack) (position : Point) :
    { s with position := position }.OnTrack :=
  ⟨h.width, h.lower, h.upper, h.knob⟩

/-- The value is how far along the track the touch is, or an end of the track. -/
theorem value_touchesMoved {s : Slider} (h : s.OnTrack) (x : ℚ) :
    (s.touchesMoved x).value = max (min ((x - s.background.position.x) / 300) 1) 0 := by
  have hwidth : (0 : ℚ) < 300 := by norm_num
  change max (min (x - s.background.position.x) s.width) 0 / s.width = _
  rw [h.width, ← max_div_div_right hwidth.le, ← min_div_div_right hwidth.le, div_self hwidth.ne',
    zero_div]

theorem OnTrack.touchesMoved {s : Slider} (h : s.OnTrack) (x : ℚ) : (s.touchesMoved x).OnTrack where
  width := h.width
  lower := by
    rw [value_touchesMoved h]
    exact le_max_right _ _
  upper := by
    rw [value_touchesMoved h]
    exact max_le (min_le_right _ _) zero_le_one
  knob := rfl

end Slider

/-- A volume between silence and full. -/
def Audible (volume : ℚ) : Prop := 0 ≤ volume ∧ volume ≤ 1

/-- A leader board asks for menus only. -/
theorem LeaderboardsScene.touch_presented (nod : Node) (s : LeaderboardsScene) :
    ∃ new, (processItemTouch nod s).presented = s.presented ++ new ∧
      ∀ destination ∈ new, ∃ size, destination = .menu size := by
  unfold processItemTouch goMenu
  split
  · split
    · exact ⟨_, rfl, by simp⟩
    · exact ⟨[], (List.append_nil _).symm, by simp⟩
  · exact ⟨[], (List.append_nil _).symm, by simp⟩

/-- So do the options, whose slider a touch leaves alone. -/
theorem OptionsScene.touch_volume (nod : Node) (s : OptionsScene) :
    (processItemTouch nod s).slider = s.slider ∧
      (processItemTouch nod s).musicVolume = s.musicVolume ∧
      ∃ new, (processItemTouch nod s).presented = s.presented ++ new ∧
        ∀ destination ∈ new, ∃ size, destination = .menu size := by
  unfold processItemTouch goMenu
  split
  · split
    · exact ⟨rfl, rfl, _, rfl, by simp⟩
    · exact ⟨rfl, rfl, [], (List.append_nil _).symm, by simp⟩
  · exact ⟨rfl, rfl, [], (List.append_nil _).symm, by simp⟩

theorem OptionsScene.slider_didMove {assets : Assets} {text : String} {view size : Size} {value : ℚ}
    {s : OptionsScene} (h : didMove assets view (new assets text size value) = .ok s) :
    s.presented = [] ∧ ∃ position,
      s.slider = { (Slider.new assets 300 20 text).setValue value with position := position } := by
  cases h
  exact ⟨rfl, _, rfl⟩

/-- A menu has the stored volume as a `Float`, or full volume when there is none. -/
theorem GameScene.volume_didMove {assets : Assets} {music : Music} {view size : Size}
    {s : GameScene} (h : didMove assets music view { size := size } = .ok s) :
    s.presented = [] ∧
      s.volume = if music.playable then (music.volume.map float).getD 1 else 1 / 2 := by
  cases h
  split
  · exact ⟨rfl, rfl⟩
  · exact ⟨rfl, rfl⟩

theorem GameScene.present_eq (destination : Size → Destination) (s : GameScene) :
    (s.present destination).volume = s.volume ∧
      ((s.present destination).presented = s.presented ∨
        ∃ view, (s.present destination).presented =
          s.presented ++ [destination (doubled view)]) := by
  unfold GameScene.present
  split
  · exact ⟨rfl, .inr ⟨_, rfl⟩⟩
  · exact ⟨rfl, .inl rfl⟩

/-- A menu asks for options only at its own volume, which it keeps. -/
theorem GameScene.touch_volume (nod : Node) (s : GameScene) :
    (processItemTouch nod s).volume = s.volume ∧
      ∃ new, (processItemTouch nod s).presented = s.presented ++ new ∧
        ∀ size value, .options size value ∈ new → value = s.volume := by
  have hpresent : ∀ (m : GameScene) (destination : Size → Destination), m.volume = s.volume →
      m.presented = s.presented →
      (∀ view size value, destination view = .options size value → value = s.volume) →
      (m.present destination).volume = s.volume ∧
        ∃ new, (m.present destination).presented = s.presented ++ new ∧
          ∀ size value, .options size value ∈ new → value = s.volume := by
    intro m destination hvolume hpresented hvalue
    obtain ⟨hkept, hsame | ⟨view, hnew⟩⟩ := present_eq destination m
    · exact ⟨hkept.trans hvolume, [], by rw [hsame, hpresented, List.append_nil], by simp⟩
    · refine ⟨hkept.trans hvolume, [destination (doubled view)], by rw [hnew, hpresented], ?_⟩
      intro size value hmem
      exact hvalue _ size value (List.mem_singleton.mp hmem).symm
  unfold processItemTouch
  split_ifs
  · exact hpresent _ _ rfl rfl (by simp)
  · exact hpresent _ _ rfl rfl (by simp)
  · exact hpresent _ _ rfl rfl (by simp)
  · refine hpresent _ _ rfl rfl ?_
    rintro view size value ⟨⟩
    rfl
  · exact hpresent _ _ rfl rfl (by simp)
  · exact ⟨rfl, [], (List.append_nil _).symm, by simp⟩

theorem audible_getD {volume : Option ℚ} (h : ∀ v ∈ volume, Audible v) :
    Audible ((volume.map float).getD 1) := by
  cases volume with
  | none => exact ⟨zero_le_one, le_refl 1⟩
  | some v => exact float_mem_unit (h v rfl).1 (h v rfl).2

/-- The options are asked for at an audible volume. -/
def Destination.Tuned : Destination → Prop
  | .options _ value => Audible value
  | _ => True

namespace Scene

/-- The volume that a scene plays at or shows is audible. -/
def Sounds : Scene → Prop
  | .menu s => Audible s.volume
  | .options s => s.slider.OnTrack
  | _ => True

def Tuned (device : Device) (scene : Scene) : Prop :=
  scene.Sounds ∧ ∀ destination ∈ scene.requested device, destination.Tuned

variable {device : Device}

/-- A game asks for no options. -/
theorem tuned_play (s : PlayScene) : (play s).Tuned device := by
  refine ⟨trivial, ?_⟩
  intro destination hmem
  obtain ⟨scene, -, rfl⟩ := List.mem_map.mp hmem
  cases scene with
  | gameScene | leaderboardsScene => trivial

theorem tuned_didMove {draws : Draws} {now : ℚ} {app : App} {destination : Destination}
    {new : Scene} (hstore : ∀ v ∈ app.musicVolume, Audible v) (hdestination : destination.Tuned)
    (h : didMove device draws now app destination = .ok new) : new.Tuned device := by
  cases destination with
  | menu size =>
    obtain ⟨s, hs, h⟩ := bind_eq_ok.mp h
    cases h
    obtain ⟨hpresented, hvolume⟩ := GameScene.volume_didMove hs
    refine ⟨?_, by simp [requested, hpresented]⟩
    change Audible s.volume
    rw [hvolume]
    split
    · exact audible_getD hstore
    · exact ⟨by norm_num, by norm_num⟩
  | play size difficulty =>
    obtain ⟨s, -, h⟩ := bind_eq_ok.mp h
    cases h
    exact tuned_play s
  | options size value =>
    obtain ⟨s, hs, h⟩ := bind_eq_ok.mp h
    cases h
    obtain ⟨hpresented, position, hslider⟩ := OptionsScene.slider_didMove hs
    refine ⟨?_, by simp [requested, hpresented]⟩
    change s.slider.OnTrack
    rw [hslider]
    exact (Slider.onTrack_new _ _ hdestination.1 hdestination.2).moved position
  | leaderboards size =>
    obtain ⟨s, hs, h⟩ := bind_eq_ok.mp h
    cases h
    have hpresented : s.presented = [] := by
      cases hs
      rfl
    exact ⟨trivial, by simp [requested, hpresented]⟩

theorem options_not_requested (s : PlayScene) (size : Size) (value : ℚ) :
    .options size value ∉ (play s).requested device := by
  intro h
  obtain ⟨scene, -, h⟩ := List.mem_map.mp h
  cases scene with
  | gameScene | leaderboardsScene => cases h

/-- The options that `after` asks for and `before` has not asked for are at such a volume. -/
def NewOptions (P : ℚ → Prop) (before after : List Destination) : Prop :=
  ∃ new, after = before ++ new ∧ ∀ size value, .options size value ∈ new → P value

theorem newOptions_refl (P : ℚ → Prop) (before : List Destination) : NewOptions P before before :=
  ⟨[], (List.append_nil _).symm, by simp⟩

/-- A game asks for no options, a menu for some at its own volume, and no other scene for any. -/
theorem newOptions_acts {app : App} {scene after : Scene} {signal : Signal}
    (h : scene.Acts app signal after) :
    (∃ s, after = .play s) ∨
      (∃ m, scene = .menu m ∧
        NewOptions (· = m.volume) (scene.requested device) (after.requested device)) ∨
      NewOptions (fun _ => False) (scene.requested device) (after.requested device) := by
  cases h with
  | menu s p nod => exact .inr (.inl ⟨s, rfl, (GameScene.touch_volume nod s).2⟩)
  | menuLeaves s => exact .inr (.inl ⟨s, rfl, newOptions_refl _ _⟩)
  | play => exact .inl ⟨_, rfl⟩
  | options s p nod =>
    obtain ⟨-, -, new, hnew, hmenu⟩ :=
      OptionsScene.touch_volume nod { s with musicVolume := app.musicVolume }
    exact .inr (.inr ⟨new, hnew, fun size value hmem => nomatch hmenu _ hmem⟩)
  | leaderboards s p nod =>
    obtain ⟨new, hnew, hmenu⟩ := LeaderboardsScene.touch_presented nod s
    exact .inr (.inr ⟨new, hnew, fun size value hmem => nomatch hmenu _ hmem⟩)
  | slider | optionsLeave | leaderboardsLeave => exact .inr (.inr (newOptions_refl _ _))
  | idle scene x hoptions =>
    cases scene with
    | menu s | play s | options s | leaderboards s => exact .inr (.inr (newOptions_refl _ _))

/-- A scene keeps its volume, if it is not the options, and only these store theirs. -/
theorem sounds_acts {app : App} {scene after : Scene} {signal : Signal} (hsounds : scene.Sounds)
    (h : scene.Acts app signal after) :
    after.Sounds ∧ ((after.save app).musicVolume = app.musicVolume ∨
      ∃ o, after = .options o ∧ (after.save app).musicVolume = some o.slider.value) := by
  cases h with
  | menu s p nod =>
    refine ⟨?_, .inl rfl⟩
    change Audible (GameScene.processItemTouch nod s).volume
    rw [(GameScene.touch_volume nod s).1]
    exact hsounds
  | options s p nod =>
    obtain ⟨hslider, hvolume, -⟩ :=
      OptionsScene.touch_volume nod { s with musicVolume := app.musicVolume }
    refine ⟨?_, .inl hvolume⟩
    change (OptionsScene.processItemTouch nod _).slider.OnTrack
    rw [hslider]
    exact hsounds
  | slider s x => exact ⟨Slider.OnTrack.touchesMoved hsounds x, .inr ⟨_, rfl, rfl⟩⟩
  | menuLeaves | optionsLeave => exact ⟨hsounds, .inl rfl⟩
  | play | leaderboards | leaderboardsLeave => exact ⟨trivial, .inl rfl⟩
  | idle scene x hoptions =>
    cases scene with
    | options s => exact absurd rfl (hoptions s)
    | menu s | play s | leaderboards s => exact ⟨hsounds, .inl rfl⟩

theorem tuned_acts {app : App} {scene after : Scene} {signal : Signal}
    (hstore : ∀ v ∈ app.musicVolume, Audible v) (htuned : scene.Tuned device)
    (h : scene.Acts app signal after) :
    after.Tuned device ∧ ∀ v ∈ (after.save app).musicVolume, Audible v := by
  obtain ⟨hsounds, hrequested⟩ := htuned
  obtain ⟨hafter, hsaved⟩ := sounds_acts hsounds h
  have hnew : ∀ P : ℚ → Prop, (∀ v, P v → Audible v) →
      NewOptions P (scene.requested device) (after.requested device) →
        ∀ destination ∈ after.requested device, destination.Tuned := by
    rintro P haudible ⟨new, hnew, hvalue⟩ destination hmem
    rw [hnew] at hmem
    obtain hmem | hmem := List.mem_append.mp hmem
    · exact hrequested destination hmem
    · cases destination with
      | options size value => exact haudible value (hvalue size value hmem)
      | menu size | play size difficulty | leaderboards size => trivial
  refine ⟨⟨hafter, ?_⟩, ?_⟩
  · obtain ⟨s, rfl⟩ | ⟨m, rfl, hmenu⟩ | hother := newOptions_acts h
    · exact (tuned_play s).2
    · refine hnew _ ?_ hmenu
      rintro v rfl
      exact hsounds
    · exact hnew _ (fun v => False.elim) hother
  · obtain hsame | ⟨o, rfl, hvolume⟩ := hsaved
    · rwa [hsame]
    · rw [hvolume]
      rintro v ⟨⟩
      exact ⟨hafter.lower, hafter.upper⟩

end Scene

namespace App

variable {device : Device} {s t u : App} {e : AppEvent} {es : List AppEvent}

theorem kept_volume (device : Device) :
    Kept device (fun app => ∀ v ∈ app.musicVolume, Audible v) (Scene.Tuned device) where
  stores := fun _ _ h => h
  launched := by
    intro app menu hstore h
    have htuned : (Destination.menu (doubled device.view)).Tuned := trivial
    exact Scene.tuned_didMove hstore htuned h
  acts := fun _ _ _ _ hstore htuned h => Scene.tuned_acts hstore htuned h
  presented := fun _ _ _ _ destination _ hstore htuned hdestination h =>
    Scene.tuned_didMove hstore (htuned.2 destination hdestination) h

/-- The volumes that an event sets. -/
def slid (_ : App) (e : AppEvent) (t : App) : List ℚ :=
  match e with
  | .signal index (.touchesMoved _) _ _ =>
    match t.scenes[index]? with
    | some (.options o) => [o.slider.value]
    | _ => []
  | _ => []

/-- The volumes that are set in a run, in order. -/
def slides (device : Device) (s : App) (es : List AppEvent) : List ℚ :=
  Trace.trace (step device) slid s es

theorem foldl_last (vs : List ℚ) (volume : Option ℚ) :
    vs.foldl (fun _ v => some v) volume = vs.getLast?.or volume := by
  induction vs using List.reverseRecOn with
  | nil => rfl
  | append_singleton vs v _ => simp

/-- Only the slider of the options is stored. -/
theorem Outcome.slid (ho : Outcome device s e t) :
    t.musicVolume = (slid s e t).foldl (fun _ v => some v) s.musicVolume := by
  cases ho with
  | launch => rfl
  | @signal index signal draws now scene after presented hscene hacts hpresented =>
    have hacted : (s.scenes.set index after ++ presented)[index]? = some after :=
      acted_getElem? hscene after
    cases hacts with
    | slider o x =>
      simp only [App.slid, hacted]
      rfl
    | options o p nod =>
      exact (OptionsScene.touch_volume nod { o with musicVolume := s.musicVolume }).2.1
    | idle scene x hoptions =>
      simp only [App.slid, hacted]
      cases scene with
      | options o => exact absurd rfl (hoptions o)
      | menu m | play game | leaderboards l => rfl
    | @play game game' signal event hm hs =>
      cases signal with
      | touchesMoved x =>
        simp only [App.slid, hacted]
        rfl
      | touchesEnded p | event e => rfl
    | menu | menuLeaves | optionsLeave | leaderboards | leaderboardsLeave => rfl

theorem musicVolume_of_run (hrun : Run (step device) Receives s es t) :
    t.musicVolume = (slides device s es).getLast?.or s.musicVolume := by
  have hstep : ∀ (s : App) e t, True → s.Receives e → s.step device e = .ok t →
      True ∧ t.musicVolume = (slid s e t).foldl (fun _ v => some v) s.musicVolume :=
    fun s e t _ hm hs => ⟨trivial, (outcome_of_step hm hs).slid⟩
  exact (Trace.trace_folds (I := fun _ => True) (f := App.musicVolume) hstep trivial hrun).trans
    (foldl_last _ _)

/-- The last move of a slider is what is stored, over launches too; the volume of every menu
is audible, and the knob of all options is on the track, at their value. -/
theorem volume_of_run (hclosed : s.scenes = []) (hrun : Run (step device) Receives s es t)
    (hstore : ∀ v ∈ s.musicVolume, Audible v) :
    t.musicVolume = (slides device s es).getLast?.or s.musicVolume ∧
      (∀ v ∈ t.musicVolume, Audible v) ∧ (∀ m, .menu m ∈ t.scenes → Audible m.volume) ∧
      ∀ o, .options o ∈ t.scenes → o.slider.OnTrack := by
  have hholds := (kept_volume device).run hstore hclosed hrun
  exact ⟨musicVolume_of_run hrun, hholds.stores, fun m hm => (hholds.scenes _ hm).1,
    fun o ho => (hholds.scenes _ ho).1⟩

theorem menu_of_didMove {draws : Draws} {now : ℚ} {destination : Destination} {m : GameScene}
    (h : Scene.didMove device draws now s destination = .ok (.menu m)) :
    m.volume = if device.playable then (s.musicVolume.map float).getD 1 else 1 / 2 := by
  cases destination with
  | menu size =>
    obtain ⟨m', hm, h⟩ := bind_eq_ok.mp h
    cases h
    exact (GameScene.volume_didMove hm).2
  | play size difficulty | options size value | leaderboards size =>
    obtain ⟨s, -, h⟩ := bind_eq_ok.mp h
    cases h

theorem options_of_didMove {draws : Draws} {now : ℚ} {destination : Destination} {o : OptionsScene}
    (h : Scene.didMove device draws now s destination = .ok (.options o)) :
    ∃ size value, destination = .options size value ∧ o.slider.value = value ∧
      o.slider.slider.position.x = o.slider.background.position.x + 300 * value := by
  cases destination with
  | options size value =>
    obtain ⟨o', ho, h⟩ := bind_eq_ok.mp h
    cases h
    obtain ⟨-, position, hslider⟩ := OptionsScene.slider_didMove ho
    refine ⟨size, value, rfl, ?_, ?_⟩
    · rw [hslider]
      rfl
    · rw [hslider, mul_comm]
      rfl
  | menu size | play size difficulty | leaderboards size =>
    obtain ⟨s, -, h⟩ := bind_eq_ok.mp h
    cases h

/-- A launch, the touch of `Options`, and two moves of the slider. -/
def twoMoves : List AppEvent :=
  [.launch, .signal 0 (.touchesEnded ⟨375, 517⟩) .first 0, .signal 1 (.touchesMoved 160) .first 0,
    .signal 1 (.touchesMoved 310) .first 0]

theorem volume_of_run_small : ∃ t, replay (step Device.small) Receives installed twoMoves = some t ∧
    slides Device.small installed twoMoves = [1 / 4, 3 / 4] ∧
    t.musicVolume = (slides Device.small installed twoMoves).getLast?.or none := by
  have hreplay : (replay (step Device.small) Receives installed twoMoves).map App.musicVolume =
      some (some (3 / 4)) := by decide +kernel
  obtain ⟨t, ht, hrun, -⟩ := Runs.run_of_map hreplay
  exact ⟨t, ht, by decide +kernel, (volume_of_run rfl hrun (by nofun)).1⟩

/-- The volume a menu plays at, when a music can be played, is the last one set before it is
presented, as a `Float`; options are presented with the knob at the volume of the menu that
asks for them. -/
theorem volume_presented (hrun : Run (step device) Receives s es t) (hm : t.Receives e)
    (hs : t.step device e = .ok u) {index : Nat} (hnew : e = .launch ∨ t.scenes.length ≤ index) :
    (∀ m, u.scenes[index]? = some (.menu m) → m.volume =
      if device.playable then
        (((slides device s (es ++ [e])).getLast?.or s.musicVolume).map float).getD 1
      else 1 / 2) ∧
    ∀ o, u.scenes[index]? = some (.options o) → ∃ i signal draws now m,
      e = .signal i signal draws now ∧ t.scenes[i]? = some (.menu m) ∧
      o.slider.value = m.volume ∧
      o.slider.slider.position.x = o.slider.background.position.x + 300 * m.volume := by
  have ho := outcome_of_step hm hs
  refine ⟨?_, ?_⟩
  · intro m hmenu
    rw [← musicVolume_of_run (hrun.append (.single hm hs))]
    obtain ⟨rfl, hmade⟩ | ⟨_, _, _, _, _, _, app, destination, -, -, -, -, -, happ, hmade⟩ :=
      ho.new hnew hmenu
    · have hlaunched : u.musicVolume = t.musicVolume := ho.slid
      rw [menu_of_didMove hmade, hlaunched]
    · rw [menu_of_didMove hmade, happ]
  · intro o hoptions
    obtain ⟨-, hmade⟩ | ⟨i, acting, after, signal, draws, now, app, destination, hsignal, hacting,
      hacts, hdestination, -, -, hmade⟩ := ho.new hnew hoptions
    · obtain ⟨size, value, hmenu, -⟩ := options_of_didMove hmade
      cases hmenu
    · obtain ⟨size, value, rfl, hvalue, hknob⟩ := options_of_didMove hmade
      obtain ⟨game, rfl⟩ | ⟨m, rfl, new, hnew, hvolume⟩ | ⟨new, hnew, hnone⟩ :=
        Scene.newOptions_acts hacts
      · exact absurd (List.mem_of_mem_drop hdestination)
          (Scene.options_not_requested game size value)
      · rw [hnew, List.drop_left] at hdestination
        cases hvolume size value hdestination
        exact ⟨i, signal, draws, now, m, hsignal, hacting, hvalue, hknob⟩
      · rw [hnew, List.drop_left] at hdestination
        exact (hnone size value hdestination).elim

/-- The touch of the button that leads back to the menu. -/
def goBack : AppEvent := .signal 1 (.touchesEnded ⟨45, 45⟩) .first 0

/-- The touch of `Options` in the menu that this presents. -/
def askOptions : AppEvent := .signal 2 (.touchesEnded ⟨375, 517⟩) .first 0

theorem volume_presented_small : ∃ t u v,
    replay (step Device.small) Receives installed twoMoves = some t ∧
    t.step Device.small goBack = .ok u ∧ u.step Device.small askOptions = .ok v ∧
    ∃ m o, u.scenes[2]? = some (.menu m) ∧ m.volume = 3 / 4 ∧
      v.scenes[3]? = some (.options o) ∧ o.slider.value = 3 / 4 := by
  have hreplay : (replay (step Device.small) Receives installed twoMoves).map (fun t =>
      decide (t.scenes.length ≤ 2 ∧ t.Receives goBack ∧
        (t.step Device.small goBack).toOption.any fun u =>
          decide (u.scenes.length ≤ 3 ∧ (u.menuAt 2).isSome ∧ u.Receives askOptions ∧
            (u.step Device.small askOptions).toOption.any fun v =>
              (v.scenes[3]?.bind Scene.options?).isSome))) =
      some true := by decide +kernel
  have hvolume : (((slides Device.small installed (twoMoves ++ [goBack])).getLast?.or none).map
      float).getD 1 = 3 / 4 := by decide +kernel
  obtain ⟨t, ht, hrun, hstate⟩ := Runs.run_of_map hreplay
  obtain ⟨hlength, hm, hback⟩ := of_decide_eq_true hstate
  cases hu : t.step Device.small goBack with
  | error trap => simp [hu, Except.toOption] at hback
  | ok u =>
    rw [hu] at hback
    obtain ⟨hlength', hmenu, hm', hask⟩ := of_decide_eq_true hback
    obtain ⟨m, hmenu⟩ := Option.isSome_iff_exists.mp hmenu
    have hscene := menuAt_eq_some.mp hmenu
    have hplays := (volume_presented hrun hm hu (.inr hlength)).1 m hscene
    cases hv : u.step Device.small askOptions with
    | error trap => simp [hv, Except.toOption] at hask
    | ok v =>
      rw [hv] at hask
      obtain ⟨o, ho⟩ := Option.isSome_iff_exists.mp hask
      obtain ⟨scene, hoptions, hkind⟩ := Option.bind_eq_some_iff.mp ho
      rw [Scene.options?_eq_some.mp hkind] at hoptions
      obtain ⟨i, signal, draws, now, m', heq, hm'', hvalue, -⟩ :=
        (volume_presented (hrun.append (.single hm hu)) hm' hv (.inr hlength')).2 o hoptions
      cases heq
      cases hscene.symm.trans hm''
      have hvolume' : m.volume = 3 / 4 := hplays.trans hvolume
      exact ⟨t, u, v, ht, hu, hv, m, o, hscene, hvolume', hoptions, hvalue.trans hvolume'⟩

end App
end CardsGame
