import StyleModules.Proofs.Files.Contents
import StyleModules.Proofs.Project.SecondScan

/-!
# A sync depends on two files

What a sync tells and writes is determined by what is found at the component and at its stylesheet
(`syncPlan`, `syncComponent_performs`). So it gives the same result in worlds that agree on the
places of the two and keeps them in agreement (`Runner.sync_agrees`), and it leaves all other places
alone (`Runner.sync_agrees_elsewhere`). So does a sync of several components, whatever comes of it
(`Runner.syncAll_agrees_elsewhere`).
-/

namespace StyleModules

section Plan

variable {style : Style} {generate : Bool} {component sheet : Path} {world : World}
  {outcome : Except Fault SyncResult} {writes : List (Path × Text)}

/-- What a sync tells and writes, by what it finds at the component and at its stylesheet. -/
def syncPlan (style : Style) (generate : Bool) (component sheet : Path) :
    Finding → Finding → Except Fault SyncResult × List (Path × Text)
  | .text source, .text css =>
    (.ok ⟨component, some sheet, false, staleSheet style source css,
        staleImport generate sheet source⟩,
      importWrites generate component sheet source ++ sheetWrites style sheet source css)
  | .text source, .nothing =>
    if generate && !(extractClasses source).isEmpty && isPascalCase component.stem then
      (.ok ⟨component, some sheet, true, staleSheet style source generatedText,
          staleImport generate sheet source⟩,
        (sheet, generatedText) :: (importWrites generate component sheet source ++
          sheetWrites style sheet source generatedText))
    else (.ok { component := component }, [])
  | .text _, .directory => (.ok { component := component, sheet := some sheet }, [])
  | .text _, .undecodable => (.error .undecodable, [])
  | .undecodable, _ => (.error .undecodable, [])
  | .directory, _ => (.ok { component := component }, [])
  | .nothing, _ => (.ok { component := component }, [])

/-- Every run of a sync goes by the plan. -/
theorem SyncRun.eq_plan (h : SyncRun style generate component world outcome writes)
    (hsheet : component.moduleSheet = .ok sheet) :
    (outcome, writes) = syncPlan style generate component sheet (world.finding component)
      (world.finding sheet) := by
  have heq : ∀ {other : Path}, component.moduleSheet = .ok other → other = sheet :=
    fun hother => Except.ok.inj (hother.symm.trans hsheet)
  cases h with
  | unreachable hread =>
    rw [World.finding_of_unreadable hread]
    split <;> rfl
  | undecodable hread hdecode =>
    rw [World.finding_of_undecodable hread hdecode]
    rfl
  | sheetless hholds hother hmissing hnone =>
    obtain rfl := heq hother
    rw [World.finding_of_holds hholds, World.finding_of_missing hmissing, syncPlan, if_neg]
    intro hmade
    simp only [Bool.and_eq_true, Bool.not_eq_true'] at hmade
    rcases hnone hmade.1.1 with hused | hname
    · rw [hused] at hmade
      cases hmade.1.2
    · rw [hname] at hmade
      cases hmade.2
  | unreachableSheet hholds hother hexists hread =>
    obtain rfl := heq hother
    rw [World.finding_of_holds hholds, World.finding_of_unreadable hread, hexists]
    rfl
  | undecodableSheet hholds hother hread hdecode =>
    obtain rfl := heq hother
    rw [World.finding_of_holds hholds, World.finding_of_undecodable hread hdecode]
    rfl
  | synced hholds hother hcss =>
    obtain rfl := heq hother
    rw [World.finding_of_holds hholds, World.finding_of_holds hcss]
    rfl
  | generated hholds hother hmissing hgenerate hused hname =>
    obtain rfl := heq hother
    rw [World.finding_of_holds hholds, World.finding_of_missing hmissing, syncPlan, if_pos]
    simp [hgenerate, hname, hused]

/-- A sync does what the plan says. -/
theorem syncComponent_performs (hworld : world.Regular)
    (hsheet : component.moduleSheet = .ok sheet) :
    ∃ after, (syncComponent style generate component).Performs world
      (syncPlan style generate component sheet (world.finding component)
        (world.finding sheet)).1
      (syncPlan style generate component sheet (world.finding component)
        (world.finding sheet)).2 after := by
  obtain ⟨outcome, writes, after, hperforms, hrun⟩ :=
    @syncComponent_runs style generate component world hworld
  rw [← hrun.eq_plan hsheet]
  exact ⟨after, hperforms⟩

end Plan

/-- A file with a suffix of components has a stylesheet. -/
theorem Path.exists_moduleSheet {component : Path} (h : component.isComponent = true) :
    ∃ sheet, component.moduleSheet = .ok sheet := by
  cases hsheet : component.moduleSheet with
  | ok sheet => exact ⟨sheet, rfl⟩
  | error fault =>
    obtain ⟨hnames, -⟩ := (Path.moduleSheet_eq_error_iff component fault).mp hsheet
    rw [Path.isComponent, Path.suffix, Path.name, hnames] at h
    exact absurd h (by decide +kernel)

/-- A path of the component leads to the location: its own or that of its stylesheet. -/
def World.Touches (world : World) (component : Path) (location : Location) : Prop :=
  ∃ path, component.Owns path ∧ world.locate path = .ok location

/-- In worlds that agree a component touches the same places. -/
theorem World.Agrees.touches_iff {places : Location → Prop} {world other : World}
    (h : World.Agrees places world other) {component : Path} {location : Location} :
    other.Touches component location ↔ world.Touches component location := by
  simp only [World.Touches, h.locate_eq_ok_iff]

/-- The component or its stylesheet is a file that is no text. -/
def World.Garbled (world : World) (component : Path) : Prop :=
  ∃ path, component.Owns path ∧ world.finding path = .undecodable

/-- A component is not garbled if neither it nor its stylesheet is undecodable. -/
theorem World.not_garbled_iff {world : World} {component sheet : Path}
    (hsheet : component.moduleSheet = .ok sheet) :
    ¬ world.Garbled component ↔
      world.finding component ≠ .undecodable ∧ world.finding sheet ≠ .undecodable := by
  constructor
  · exact fun h => ⟨fun hc => h ⟨_, Or.inl rfl, hc⟩, fun hs => h ⟨_, Or.inr hsheet, hs⟩⟩
  · rintro ⟨hc, hs⟩ ⟨path, rfl | hpath, hgarbled⟩
    · exact hc hgarbled
    · obtain rfl := Except.ok.inj (hpath.symm.trans hsheet)
      exact hs hgarbled

namespace Runner

open World

variable {runner : Runner} {world other after : World} {component : Path}
  {places : Location → Prop}

/-- A sync writes to the component's own files only. -/
theorem sync_performs (runner : Runner) (hworld : world.Regular) (component : Path) :
    ∃ outcome writes after, (runner.sync component).Performs world outcome writes after ∧
      ∀ write ∈ writes, component.Owns write.1 := by
  obtain ⟨outcome, writes, after, hperforms, hrun⟩ :=
    @syncComponent_runs runner.style runner.config.modes.generate component world hworld
  exact ⟨outcome, writes, after, hperforms, fun write hw => hrun.path_of_mem hw⟩

/-- A sync leaves all places alone to which no path of the component leads. -/
theorem sync_agrees_elsewhere (hworld : world.Regular) :
    ((runner.sync component).exec world).2.Regular ∧
      Agrees (¬ world.Touches component ·) world ((runner.sync component).exec world).2 := by
  obtain ⟨outcome, writes, after, hperforms, howns⟩ := runner.sync_performs hworld component
  rw [hperforms.ends]
  refine ⟨hperforms.regular hworld, hperforms.agrees_elsewhere.mono fun location hl write hw => ?_⟩
  exact fun hle => hl ⟨write.1, howns write hw, hle⟩

/-- In worlds that agree on the places of a component a sync gives the same result, and they agree
afterwards. -/
theorem sync_agrees (hcomponent : component.isComponent = true) (hworld : world.Regular)
    (hother : other.Regular) (h : Agrees places world other)
    (hplaces : ∀ location, world.Touches component location → places location) :
    ((runner.sync component).exec other).1 = ((runner.sync component).exec world).1 ∧
      Agrees places ((runner.sync component).exec world).2
        ((runner.sync component).exec other).2 := by
  obtain ⟨sheet, hsheet⟩ := Path.exists_moduleSheet hcomponent
  have hfinding : ∀ {path : Path}, component.Owns path →
      other.finding path = world.finding path :=
    fun howns => h.finding fun location hl => hplaces location ⟨_, howns, hl⟩
  obtain ⟨after, hperforms⟩ := @syncComponent_performs runner.style runner.config.modes.generate
    component sheet world hworld hsheet
  obtain ⟨later, hperforms'⟩ := @syncComponent_performs runner.style runner.config.modes.generate
    component sheet other hother hsheet
  rw [hfinding (Or.inl rfl), hfinding (Or.inr hsheet)] at hperforms'
  have hends := hperforms.ends
  have hends' := hperforms'.ends
  rw [sync, hends, hends']
  exact ⟨rfl, hperforms.agrees hperforms' h⟩

/-- A sync gives a result unless it comes to a file that is no text. -/
theorem sync_returns (hcomponent : component.isComponent = true) (hworld : world.Regular)
    (hclean : ¬ world.Garbled component) :
    ∃ result, ((runner.sync component).exec world).1 = .ok result := by
  obtain ⟨sheet, hsheet⟩ := Path.exists_moduleSheet hcomponent
  obtain ⟨after, hperforms⟩ := @syncComponent_performs runner.style runner.config.modes.generate
    component sheet world hworld hsheet
  obtain ⟨hsource, hcss⟩ := (not_garbled_iff hsheet).mp hclean
  rw [sync, hperforms.ends]
  unfold syncPlan
  split
  · exact ⟨_, rfl⟩
  · split <;> exact ⟨_, rfl⟩
  · exact ⟨_, rfl⟩
  · contradiction
  · contradiction
  · exact ⟨_, rfl⟩
  · exact ⟨_, rfl⟩

/-- A sync of texts leaves a stale stylesheet in line. -/
theorem content_sync (hworld : world.Regular) {sheet : Path} {source css : Text}
    (hsheet : component.moduleSheet = .ok sheet) (hsource : world.Holds component source)
    (hcss : world.Holds sheet css) (hstale : staleSheet runner.style source css = true) :
    ((runner.sync component).exec world).2.content sheet =
      some (.file (encodeText (syncText runner.style (extractClasses source) css)) 0) := by
  obtain ⟨after, hperforms⟩ := @syncComponent_performs runner.style runner.config.modes.generate
    component sheet world hworld hsheet
  rw [finding_of_holds hsource, finding_of_holds hcss] at hperforms
  obtain ⟨bytes, hread, -⟩ := hcss
  obtain ⟨location, -, hl, -⟩ := exists_of_readBytes hread
  have hwrote := hperforms.wrote
  simp only [syncPlan, sheetWrites, hstale, if_true] at hwrote
  have hwritten : after.readBytes sheet =
      .ok (encodeText (syncText runner.style (extractClasses source) css)) :=
    @readBytes_writeAll world.muted after.muted sheet location _ [] _ hwrote hl (by simp)
  rw [sync, hperforms.ends, content_of_readBytes hwritten]

/-- What follows a sync that gives a result goes on from its world. -/
theorem exec_syncAll_cons_snd {result : SyncResult} {mid : World} (rest : List Path)
    (h : (runner.sync component).exec world = (.ok result, mid)) :
    ((runner.syncAll (component :: rest)).exec world).2 = ((runner.syncAll rest).exec mid).2 := by
  rw [syncAll, Session.exec_bind h]
  cases hrest : (runner.syncAll rest).exec mid with
  | mk outcome after =>
    cases outcome with
    | error fault => rw [Session.exec_bind_error hrest]
    | ok results =>
      rw [Session.exec_bind hrest]
      rfl

/-- Syncing components leaves all places alone to which no path of any of them leads. -/
theorem syncAll_agrees_elsewhere (hworld : world.Regular) (components : List Path) :
    ((runner.syncAll components).exec world).2.Regular ∧
      Agrees (fun location => ∀ component ∈ components, ¬ world.Touches component location) world
        ((runner.syncAll components).exec world).2 := by
  induction components generalizing world with
  | nil => exact ⟨hworld, .refl _ world⟩
  | cons component rest ih =>
    obtain ⟨hregular, hagrees⟩ := @sync_agrees_elsewhere runner world component hworld
    cases hfirst : (runner.sync component).exec world with
    | mk outcome mid =>
      rw [hfirst] at hregular hagrees
      have hmid := hagrees.mono fun location
        (hl : ∀ other ∈ component :: rest, ¬ world.Touches other location) =>
          hl component List.mem_cons_self
      cases outcome with
      | error fault =>
        rw [syncAll, Session.exec_bind_error hfirst]
        exact ⟨hregular, hmid⟩
      | ok result =>
        rw [exec_syncAll_cons_snd rest hfirst]
        obtain ⟨hlast, hrest⟩ := ih hregular
        refine ⟨hlast, hmid.trans (hrest.mono fun location hl other ho => ?_)⟩
        rw [hagrees.touches_iff]
        exact hl other (List.mem_cons_of_mem _ ho)

end Runner

end StyleModules
