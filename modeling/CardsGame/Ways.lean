import CardsGame.Views

/-!
# Ways through the app

With the images of the asset catalogue every button of a menu, and the button that leads
back to one, is in front at its own centre. So there is no dead end: whatever has happened
in a session, from the scene that is shown every other one is at most three events away.
-/
namespace CardsGame

open Swift SpriteKit
open Runs (Run replay)
open Shuffle (Draws)

/-- The images that are shown at their own size, or at a part of it. -/
def catalogue : List (String × Size) :=
  [("title", ⟨440, 110⟩), ("easy", ⟨220, 110⟩), ("medium", ⟨220, 110⟩), ("hard", ⟨220, 110⟩),
    ("options", ⟨220, 110⟩), ("ranking", ⟨220, 110⟩), ("back", ⟨180, 180⟩)]

/-- The images have the sizes that they have in the asset catalogue. -/
def Catalogued (assets : Assets) : Prop :=
  ∀ image ∈ catalogue, assets.imageSize image.1 = image.2

instance (assets : Assets) : Decidable (Catalogued assets) :=
  inferInstanceAs (Decidable (∀ image ∈ catalogue, assets.imageSize image.1 = image.2))

section Buttons

variable {assets : Assets} (hcatalogue : Catalogued assets)

include hcatalogue

theorem imageSize_eq {image : String} {size : Size} (h : (image, size) ∈ catalogue) :
    assets.imageSize image = size :=
  hcatalogue (image, size) h

/-- A button of the menu is `220` by `110` large. -/
theorem button_hit_iff {image name : String} (h : (image, ⟨220, 110⟩) ∈ catalogue) (p q : Point) :
    Hit assets p (GameScene.button assets image name q) ↔
      q.x - 110 ≤ p.x ∧ p.x < q.x + 110 ∧ q.y - 55 ≤ p.y ∧ p.y < q.y + 55 := by
  have hsize := imageSize_eq hcatalogue h
  simp only [Hit, GameScene.button, frame, anchored, Rect.Contains, hsize, true_and]
  constructor
  · rintro ⟨h1, h2, h3, h4⟩
    refine ⟨?_, ?_, ?_, ?_⟩ <;> linarith
  · rintro ⟨h1, h2, h3, h4⟩
    refine ⟨?_, ?_, ?_, ?_⟩ <;> linarith

theorem button_hit {image name : String} (h : (image, ⟨220, 110⟩) ∈ catalogue) (q : Point) :
    Hit assets q (GameScene.button assets image name q) := by
  rw [button_hit_iff hcatalogue h]
  refine ⟨?_, ?_, ?_, ?_⟩ <;> linarith

/-- The names of the buttons of a menu that lead on. -/
def GameScene.exits : List String := ["Easy", "Medium", "Hard", "Options", "LeaderBoard"]

/-- A button is in front at its centre, if none that is drawn later covers this. -/
theorem laid_front {view : Size} {image name : String} {p : Point}
    (himage : (image, ⟨220, 110⟩) ∈ catalogue) (below above : List Node)
    (hlaid : GameScene.laid assets view = below ++ GameScene.button assets image name p :: above)
    (hbelow : ∀ m ∈ below, m.zPosition ≤ 10) (habove : ∀ m ∈ above, ¬ Hit assets p m) :
    ∃ p n, atPoint id assets (GameScene.laid assets view) p = some n ∧ n.name = some name := by
  refine ⟨p, GameScene.button assets image name p, ?_, rfl⟩
  rw [hlaid]
  exact atPoint_front id assets p (button_hit hcatalogue himage p) hbelow habove

/-- No button covers the centre of another. -/
theorem menu_front (view : Size) : ∀ name ∈ GameScene.exits, ∃ p n,
    atPoint id assets (GameScene.laid assets view) p = some n ∧ n.name = some name := by
  have heasy : ("easy", ⟨220, 110⟩) ∈ catalogue := by simp [catalogue]
  have hmedium : ("medium", ⟨220, 110⟩) ∈ catalogue := by simp [catalogue]
  have hhard : ("hard", ⟨220, 110⟩) ∈ catalogue := by simp [catalogue]
  have hoptions : ("options", ⟨220, 110⟩) ∈ catalogue := by simp [catalogue]
  have hranking : ("ranking", ⟨220, 110⟩) ∈ catalogue := by simp [catalogue]
  intro name hname
  simp only [GameScene.exits, List.mem_cons, List.not_mem_nil, or_false] at hname
  obtain rfl | rfl | rfl | rfl | rfl := hname
  · refine laid_front hcatalogue heasy [_, _] _ rfl (by simp [GameScene.button, menuBackground]) ?_
    simp only [List.forall_mem_cons, button_hit_iff hcatalogue hmedium,
      button_hit_iff hcatalogue hhard, button_hit_iff hcatalogue hoptions,
      button_hit_iff hcatalogue hranking]
    refine ⟨?_, ?_, ?_, ?_, by simp⟩ <;> rintro ⟨h1, h2, h3, h4⟩ <;> linarith
  · refine laid_front hcatalogue hmedium [_, _, _] _ rfl
      (by simp [GameScene.button, menuBackground]) ?_
    simp only [List.forall_mem_cons, button_hit_iff hcatalogue hhard,
      button_hit_iff hcatalogue hoptions, button_hit_iff hcatalogue hranking]
    refine ⟨?_, ?_, ?_, by simp⟩ <;> rintro ⟨h1, h2, h3, h4⟩ <;> linarith
  · refine laid_front hcatalogue hhard [_, _, _, _] _ rfl
      (by simp [GameScene.button, menuBackground]) ?_
    simp only [List.forall_mem_cons, button_hit_iff hcatalogue hoptions,
      button_hit_iff hcatalogue hranking]
    refine ⟨?_, ?_, by simp⟩ <;> rintro ⟨h1, h2, h3, h4⟩ <;> linarith
  · refine laid_front hcatalogue hoptions [_, _, _, _, _] _ rfl
      (by simp [GameScene.button, menuBackground]) ?_
    simp only [List.forall_mem_cons, button_hit_iff hcatalogue hranking]
    refine ⟨?_, by simp⟩
    rintro ⟨h1, h2, h3, h4⟩
    linarith
  · exact laid_front hcatalogue hranking [_, _, _, _, _, _] [] rfl
      (by simp [GameScene.button, menuBackground]) (by simp)

/-- The centre of the button that leads back to the menu. -/
def backCentre : Point := ⟨135 / 2, 45⟩

theorem menuBack_hit_centre : Hit assets backCentre (menuBack assets) := by
  have hback : ("back", ⟨180, 180⟩) ∈ catalogue := by simp [catalogue]
  have hsize := imageSize_eq hcatalogue hback
  rw [menuBack_hit]
  simp only [frame, menuBack, anchored, Rect.Contains, hsize, backCentre]
  norm_num

end Buttons

namespace Scene

variable {device : Device}

/-- In the options and in the ranking the button is in front at its centre. -/
theorem front_back (hcatalogue : Catalogued device.assets) {scene : Scene}
    (hfurnished : scene.Furnished device)
    (hkind : (∃ o, scene = .options o) ∨ ∃ l, scene = .leaderboards l) :
    scene.front device.assets backCentre = some (menuBack device.assets) := by
  have hit := menuBack_hit_centre hcatalogue
  obtain ⟨o, rfl⟩ | ⟨l, rfl⟩ := hkind
  · have hdrawn := OptionsScene.Laid.drawn hfurnished
    have hheights := And.intro hfurnished.label.zPosition
      (And.intro hfurnished.track.zPosition hfurnished.knob.zPosition)
    rw [front, hdrawn]
    refine @atPoint_front _ id device.assets backCentre [_, _, _, _, _] [] _ hit ?_ (by simp)
    simp [menuBackground, menuBack, hheights]
  · obtain ⟨lines, hchildren, hlines⟩ := hfurnished
    rw [front, hchildren]
    refine @atPoint_front _ id device.assets backCentre _ [] _ hit ?_ (by simp)
    intro m hm
    rw [List.mem_append, List.mem_singleton] at hm
    obtain rfl | hm := hm
    · simp [menuBackground, menuBack]
    · simp [hlines m hm, menuBack]

/-- The touch of that button asks for a menu. -/
theorem handle_back (hcatalogue : Catalogued device.assets) (app : App) {scene : Scene}
    (hfurnished : scene.Furnished device) (hview : scene.view = some device.view)
    (hkind : (∃ o, scene = .options o) ∨ ∃ l, scene = .leaderboards l) :
    ∃ after, (scene.load app).handle device.assets (.touchesEnded backCentre) = .ok after ∧
      after.requested device = scene.requested device ++ [.menu (doubled device.view)] := by
  have hfront := front_back hcatalogue hfurnished hkind
  obtain ⟨o, rfl⟩ | ⟨l, rfl⟩ := hkind
  · have hcast : asSprite id (atPoint id device.assets ({ o with musicVolume := app.musicVolume }
      : OptionsScene).drawn backCentre) = .ok (menuBack device.assets) :=
      (asSprite_eq_ok id).mpr ⟨hfront, rfl⟩
    have hview : o.view = some device.view := hview
    refine ⟨.options ({ o with musicVolume := app.musicVolume }.processItemTouch
      (menuBack device.assets)), ?_, ?_⟩
    · simp only [load, handle, OptionsScene.touchesEnded, hcast, ok_bind]
    · simp [requested, OptionsScene.processItemTouch, OptionsScene.goMenu, menuBack, hview]
  · have hcast : asSprite id (atPoint id device.assets l.children backCentre) =
        .ok (menuBack device.assets) := (asSprite_eq_ok id).mpr ⟨hfront, rfl⟩
    have hview : l.view = some device.view := hview
    refine ⟨.leaderboards (l.processItemTouch (menuBack device.assets)), ?_, ?_⟩
    · simp only [load, handle, LeaderboardsScene.touchesEnded, hcast, ok_bind]
    · simp [requested, LeaderboardsScene.processItemTouch, LeaderboardsScene.goMenu, menuBack,
        hview]

/-- What the buttons of a menu ask for. -/
def exit (device : Device) (m : GameScene) : String → Option Destination
  | "Easy" => some (.play (doubled device.view) (some 0))
  | "Medium" => some (.play (doubled device.view) (some 1))
  | "Hard" => some (.play (doubled device.view) (some 2))
  | "Options" => some (.options (doubled device.view) m.volume)
  | "LeaderBoard" => some (.leaderboards (doubled device.view))
  | _ => none

theorem handle_exit (hcatalogue : Catalogued device.assets) (app : App) {m : GameScene}
    (hfurnished : (Scene.menu m).Furnished device) (hview : m.view = some device.view)
    {name : String} (hname : name ∈ GameScene.exits) :
    ∃ p after destination,
      ((Scene.menu m).load app).handle device.assets (.touchesEnded p) = .ok after ∧
      exit device m name = some destination ∧
      after.requested device = (Scene.menu m).requested device ++ [destination] := by
  obtain ⟨p, n, hfront, hn⟩ := menu_front hcatalogue device.view name hname
  have hchildren : m.children = GameScene.laid device.assets device.view := hfurnished
  have hkind := GameScene.sprite_laid (atPoint_eq_some id device.assets p hfront).1
  rw [← hchildren] at hfront
  have hcast : asSprite id (atPoint id device.assets m.children p) = .ok n :=
    (asSprite_eq_ok id).mpr ⟨hfront, hkind⟩
  have hhandle : ((Scene.menu m).load app).handle device.assets (.touchesEnded p) =
      .ok (.menu (m.processItemTouch n)) := by
    simp only [load, handle, GameScene.touchesEnded, hcast, ok_bind]
  simp only [GameScene.exits, List.mem_cons, List.not_mem_nil, or_false] at hname
  obtain rfl | rfl | rfl | rfl | rfl := hname
  all_goals
    refine ⟨p, _, _, hhandle, rfl, ?_⟩
    simp [requested, GameScene.processItemTouch, hn, GameScene.playGame, GameScene.goOptions,
      GameScene.goLeaderBoard, GameScene.present, hview]

end Scene

/-- The handler of a sample at rest asks for nothing, and remembers it. -/
theorem PlayScene.accelerometer_rest (s : PlayScene) :
    (s.accelerometerHandler (some ⟨0, 0⟩)).presented = s.presented ∧
      (s.accelerometerHandler (some ⟨0, 0⟩)).lastZ = 0 := by
  have htilt : ¬ (s.lastZ < 1 / 2 ∧ (0 : ℚ) > 1 / 2) := fun h => absurd h.2 (by norm_num)
  unfold accelerometerHandler
  dsimp only
  rw [if_neg htilt]
  exact ⟨rfl, rfl⟩

/-- A tilt of a scene that rests and has a view asks for the menu. -/
theorem PlayScene.accelerometer_tilt {s : PlayScene} {view : Size} (hrest : s.lastZ = 0)
    (hview : s.view = some view) :
    (s.accelerometerHandler (some ⟨1, 0⟩)).presented = s.presented ++ [.gameScene] := by
  have htilt : s.lastZ < 1 / 2 ∧ (1 : ℚ) > 1 / 2 := by
    rw [hrest]
    norm_num
  unfold accelerometerHandler
  dsimp only
  rw [if_pos htilt]
  simp only [goMenu, present, emit, hview]

namespace App

variable {device : Device} {s t u : App} {es : List AppEvent}

/-- In at most `k` events of the session the app presents such a scene. -/
def Leads (device : Device) (k : Nat) (t : App) (P : Scene → Prop) : Prop :=
  ∃ es u new, es.length ≤ k ∧ (∀ e ∈ es, e ≠ .launch) ∧ Run (step device) Receives t es u ∧
    u.scenes.getLast? = some new ∧ P new

theorem Leads.trans {j k : Nat} {P Q : Scene → Prop} (h : Leads device j t P)
    (h' : ∀ es u new, Run (step device) Receives t es u → u.scenes.getLast? = some new → P new →
      Leads device k u Q) : Leads device (j + k) t Q := by
  obtain ⟨es, u, new, hlength, hsession, hrun, hlast, hp⟩ := h
  obtain ⟨fs, v, new', hlength', hsession', hrun', hlast', hq⟩ := h' es u new hrun hlast hp
  refine ⟨es ++ fs, v, new', ?_, ?_, hrun.append hrun', hlast', hq⟩
  · rw [List.length_append]
    omega
  · intro e he
    exact (List.mem_append.mp he).elim (hsession e) (hsession' e)

theorem Leads.mono {j k : Nat} {P : Scene → Prop} (h : Leads device j t P) (hle : j ≤ k) :
    Leads device k t P := by
  obtain ⟨es, u, new, hlength, hrest⟩ := h
  exact ⟨es, u, new, hlength.trans hle, hrest⟩

theorem Leads.weaken {k : Nat} {P Q : Scene → Prop} (h : Leads device k t P)
    (hle : ∀ new, P new → Q new) : Leads device k t Q := by
  obtain ⟨es, u, new, hlength, hsession, hrun, hlast, hp⟩ := h
  exact ⟨es, u, new, hlength, hsession, hrun, hlast, hle new hp⟩

/-- A menu, as opposed to the other scenes. -/
def IsMenu (scene : Scene) : Prop := ∃ m, scene = .menu m

theorem isMenu_of_made {draws : Draws} {now : ℚ} {size : Size} (new : Scene)
    (h : ∃ app, Scene.didMove device draws now app (.menu size) = .ok new) : IsMenu new := by
  obtain ⟨app, h⟩ := h
  obtain ⟨m, -, h⟩ := bind_eq_ok.mp h
  cases h
  exact ⟨m, rfl⟩

/-- The scene that a signal asks for is presented. -/
theorem leads_presented (hsettled : ∀ scene ∈ t.scenes, Settled device scene) {index : Nat}
    {scene after : Scene} (signal : Signal) (destination : Destination)
    (hscene : t.scenes[index]? = some scene) (hreceives : scene.Receives signal)
    (hafter : (scene.load t).handle device.assets signal = .ok after)
    (hrequested : after.requested device = scene.requested device ++ [destination]) (draws : Draws)
    (now : ℚ) : Leads device 1 t fun new =>
      ∃ app, Scene.didMove device draws now app destination = .ok new := by
  have hasks : after.Asks device := Scene.asks_acts
    (hsettled scene (List.mem_of_getElem? hscene)).1.1 (Scene.acts_of_handle hreceives hafter)
  have hvalid : destination.Valid device := hasks.requested destination (by simp [hrequested])
  obtain ⟨new, hnew⟩ := Scene.didMove_completes hvalid draws now
    { after.save t with scenes := t.scenes.set index after }
  have hstep : t.step device (.signal index signal draws now) =
      .ok { after.save t with scenes := t.scenes.set index after ++ [new] } := by
    simp only [step, hscene, hafter, ok_bind, hrequested, List.drop_left, List.mapM_cons,
      List.mapM_nil, hnew]
    rfl
  exact ⟨[.signal index signal draws now], _, new, Nat.le_refl 1, by simp,
    .single ⟨scene, hscene, hreceives⟩ hstep, List.getLast?_concat, _, hnew⟩

/-- After a signal that makes the last scene ask for nothing, it is the last one still. -/
theorem leads_silent {scene after : Scene} (signal : Signal)
    (hlast : t.scenes.getLast? = some scene) (hreceives : scene.Receives signal)
    (hafter : (scene.load t).handle device.assets signal = .ok after)
    (hrequested : after.requested device = scene.requested device) :
    Leads device 1 t fun new => new = after := by
  have hscene := List.getLast?_eq_getElem?.symm.trans hlast
  have hlt := (List.getElem?_eq_some_iff.mp hscene).1
  have hstep : t.step device (.signal (t.scenes.length - 1) signal .first 0) =
      .ok { after.save t with scenes := t.scenes.set (t.scenes.length - 1) after ++ [] } := by
    simp only [step, hscene, hafter, ok_bind, hrequested, List.drop_length, List.mapM_nil]
    rfl
  refine ⟨[.signal (t.scenes.length - 1) signal .first 0], _, after, Nat.le_refl 1, by simp,
    .single ⟨scene, hscene, hreceives⟩ hstep, ?_, rfl⟩
  rw [List.append_nil, List.getLast?_eq_getElem?, List.length_set, List.getElem?_set_self hlt]

/-- A game is left by a tilt after a rest, also when it is paused. -/
theorem leads_tilted (hclosed : s.scenes = []) (hrun : Run (step device) Receives s es t)
    {game : PlayScene} (hlast : t.scenes.getLast? = some (.play game)) :
    Leads device 2 t IsMenu := by
  have hrest := (game.stored t.defaults).accelerometer_rest
  have hresting : Leads device 1 t fun new => ∃ game, new = .play game ∧ game.lastZ = 0 := by
    obtain ⟨fs, u, new, hlength, hsession, hrun₁, hnew, rfl⟩ :=
      leads_silent (.event (.accelerometer (some ⟨0, 0⟩))) hlast
        ⟨⟨⟨trivial, trivial⟩, trivial⟩, trivial⟩ rfl (congrArg (List.map _) hrest.1)
    exact ⟨fs, u, _, hlength, hsession, hrun₁, hnew, _, rfl, hrest.2⟩
  refine Leads.trans (j := 1) (k := 1) hresting ?_
  rintro fs u _ hrun₁ hlast₁ ⟨game₁, rfl, hzero⟩
  have hrun₂ := hrun.append hrun₁
  have hview : (game₁.stored u.defaults).view = some device.view :=
    (lastShown_of_run hclosed hrun₂ _ hlast₁).1
  have htilt := PlayScene.accelerometer_tilt (s := game₁.stored u.defaults) hzero hview
  exact (leads_presented (settled_of_run hclosed hrun₂) (.event (.accelerometer (some ⟨1, 0⟩)))
    (.menu (doubled device.view)) (List.getLast?_eq_getElem?.symm.trans hlast₁)
    ⟨⟨⟨trivial, trivial⟩, trivial⟩, trivial⟩ rfl
    ((congrArg (List.map _) htilt).trans List.map_append) .first 0).weaken isMenu_of_made

/-- From the scene that is shown, whatever it is, the menu is at most two events away. -/
theorem leads_menu (hcatalogue : Catalogued device.assets) (hclosed : s.scenes = [])
    (hrun : Run (step device) Receives s es t) (hopen : t.scenes ≠ []) :
    Leads device 2 t IsMenu := by
  obtain ⟨last, hlast⟩ : ∃ last, t.scenes.getLast? = some last :=
    ⟨_, List.getLast?_eq_some_getLast hopen⟩
  have hsettled := settled_of_run hclosed hrun
  obtain ⟨hview, -⟩ := lastShown_of_run hclosed hrun last hlast
  have hback : ((∃ o, last = .options o) ∨ ∃ l, last = .leaderboards l) →
      Leads device 2 t IsMenu := by
    intro hkind
    obtain ⟨after, hafter, hrequested⟩ := Scene.handle_back hcatalogue t
      (hsettled last (List.mem_of_getLast? hlast)).2 hview hkind
    have hreceives : last.Receives (.touchesEnded backCentre) := by
      simp [Scene.Receives, hview]
    exact ((leads_presented hsettled _ _ (List.getLast?_eq_getElem?.symm.trans hlast) hreceives
      hafter hrequested .first 0).weaken isMenu_of_made).mono (Nat.le_succ 1)
  cases last with
  | menu m => exact ⟨[], t, _, Nat.zero_le 2, by simp, .nil t, hlast, m, rfl⟩
  | play game => exact leads_tilted hclosed hrun hlast
  | options o => exact hback (.inl ⟨o, rfl⟩)
  | leaderboards l => exact hback (.inr ⟨l, rfl⟩)

/-- A new scene of the kind that a button of the menu asks for. -/
theorem leads_exit (hcatalogue : Catalogued device.assets) (hclosed : s.scenes = [])
    (hrun : Run (step device) Receives s es t) (hopen : t.scenes ≠ []) (name : String)
    (hname : name ∈ GameScene.exits) (draws : Draws) (now : ℚ) :
    Leads device 3 t fun new => ∃ m app destination, Scene.exit device m name = some destination ∧
      Scene.didMove device draws now app destination = .ok new := by
  refine Leads.trans (j := 2) (k := 1) (leads_menu hcatalogue hclosed hrun hopen) ?_
  rintro fs u _ hrun₁ hlast ⟨m, rfl⟩
  have hrun₂ := hrun.append hrun₁
  have hsettled := settled_of_run hclosed hrun₂
  have hview : m.view = some device.view := (lastShown_of_run hclosed hrun₂ _ hlast).1
  obtain ⟨p, after, destination, hafter, hexit, hrequested⟩ := Scene.handle_exit hcatalogue u
    (hsettled _ (List.mem_of_getLast? hlast)).2 hview hname
  have hreceives : (Scene.menu m).Receives (.touchesEnded p) := by
    simp [Scene.Receives, Scene.view, hview]
  refine (leads_presented hsettled _ _ (List.getLast?_eq_getElem?.symm.trans hlast) hreceives hafter
    hrequested draws now).weaken ?_
  rintro new ⟨app, hmade⟩
  exact ⟨m, app, destination, hexit, hmade⟩

/-- A new game of each difficulty of the menu, with any deal. -/
theorem leads_game (hcatalogue : Catalogued device.assets) (hclosed : s.scenes = [])
    (hrun : Run (step device) Receives s es t) (hopen : t.scenes ≠ []) {difficulty : Int}
    (hoffered : Offered difficulty) (draws : Draws) (now : ℚ) :
    Leads device 3 t fun new => ∃ game defaults,
      new = .play game ∧ (device.game difficulty draws now defaults).start = .ok game := by
  obtain ⟨name, hname, hexits⟩ : ∃ name ∈ GameScene.exits, ∀ m,
      Scene.exit device m name = some (.play (doubled device.view) (some difficulty)) := by
    obtain rfl | rfl | rfl := hoffered
    · exact ⟨"Easy", by simp [GameScene.exits], fun _ => rfl⟩
    · exact ⟨"Medium", by simp [GameScene.exits], fun _ => rfl⟩
    · exact ⟨"Hard", by simp [GameScene.exits], fun _ => rfl⟩
  refine (leads_exit hcatalogue hclosed hrun hopen name hname draws now).weaken ?_
  rintro new ⟨m, app, destination, hexit, hmade⟩
  cases (hexits m).symm.trans hexit
  obtain ⟨game, hgame, hmade⟩ := bind_eq_ok.mp hmade
  cases hmade
  rw [didMove_game device hoffered] at hgame
  exact ⟨game, app.defaults, rfl, hgame⟩

/-- There is no dead end: in every state of every run, once the app is launched, the session
can go on from the scene that is shown to a menu, to the options, to the ranking, and to the
start of a game at any difficulty of the menu with any deal, in three events at most. -/
theorem no_dead_end (hcatalogue : Catalogued device.assets) (hclosed : s.scenes = [])
    (hrun : Run (step device) Receives s es t) (hopen : t.scenes ≠ []) (draws : Draws) (now : ℚ) :
    Leads device 2 t (fun new => ∃ m, new = .menu m) ∧
      Leads device 3 t (fun new => ∃ o, new = .options o) ∧
      Leads device 3 t (fun new => ∃ l, new = .leaderboards l) ∧
      ∀ difficulty, Offered difficulty → Leads device 3 t fun new => ∃ game defaults,
        new = .play game ∧ (device.game difficulty draws now defaults).start = .ok game := by
  refine ⟨leads_menu hcatalogue hclosed hrun hopen, ?_, ?_, ?_⟩
  · refine (leads_exit hcatalogue hclosed hrun hopen "Options" (by simp [GameScene.exits])
      draws now).weaken ?_
    rintro new ⟨m, app, destination, hexit, hmade⟩
    cases hexit
    obtain ⟨o, -, hmade⟩ := bind_eq_ok.mp hmade
    cases hmade
    exact ⟨o, rfl⟩
  · refine (leads_exit hcatalogue hclosed hrun hopen "LeaderBoard"
      (by simp [GameScene.exits]) draws now).weaken ?_
    rintro new ⟨m, app, destination, hexit, hmade⟩
    cases hexit
    obtain ⟨l, -, hmade⟩ := bind_eq_ok.mp hmade
    cases hmade
    exact ⟨l, rfl⟩
  · intro difficulty hoffered
    exact leads_game hcatalogue hclosed hrun hopen hoffered draws now

/-- A phone with the images of the catalogue. -/
def Device.phone : Device :=
  { Device.small with
    assets := { Device.small.assets with
      imageSize := fun image => (catalogue.lookup image).getD ⟨600, 600⟩ } }

theorem no_dead_end_phone : ∃ t,
    replay (step Device.phone) Receives installed
      [.launch, .signal 0 (.touchesEnded ⟨175, 667⟩) .first 0] = some t ∧
      Leads Device.phone 3 t fun new => ∃ l, new = .leaderboards l := by
  have hreplay : (replay (step Device.phone) Receives installed
      [.launch, .signal 0 (.touchesEnded ⟨175, 667⟩) .first 0]).map (·.scenes.length) = some 2 := by
    decide +kernel
  obtain ⟨t, ht, hrun, hlength⟩ := Runs.run_of_map hreplay
  have hcatalogue : Catalogued Device.phone.assets := by decide +kernel
  have hopen : t.scenes ≠ [] := List.ne_nil_of_length_pos (by rw [hlength]; decide)
  exact ⟨t, ht, (no_dead_end hcatalogue rfl hrun hopen .first 0).2.2.1⟩

end App
end CardsGame
