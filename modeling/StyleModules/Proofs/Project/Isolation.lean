import StyleModules.Proofs.Project.SyncOrder

/-!
# Bad files and the rest of a scan

Files and directories that cannot be read do a scan no harm. A file that is no text ends it: the
components before that file's are synced as each of them would be alone, those behind it are left as
they were (`Runner.scan_isolates`). Which files are no text does not change while a scan goes on,
because a sync that gives a result only writes to places where it has found a text or nothing
(`World.Reads`).
-/

namespace StyleModules

/-- A file was found. -/
def Finding.isFile : Finding → Bool
  | undecodable => true
  | text _ => true
  | _ => false

namespace World

variable {world mid after : World} {path other : Path} {t : Text}

/-- A file is found where one is. -/
theorem isFile_finding (world : World) (path : Path) :
    (world.finding path).isFile = world.isFile path := by
  cases hl : world.locate path with
  | error error =>
    rw [isFile, entry_of_locate_error hl]
    simp only [finding, content, hl, Finding.ofEntry, Finding.isFile]
  | ok location =>
    rw [isFile_of_locate hl, finding, content_of_locate hl, Store.contents]
    cases world.store.find? location with
    | none => rfl
    | some entry =>
      cases entry with
      | file bytes stamp =>
        simp only [Option.map_some, Entry.unstamped, Finding.ofEntry]
        cases decodeText? bytes <;> rfl
      | _ => rfl

/-- Files stay files, and no others than those before are no texts. -/
structure Reads (world after : World) : Prop where
  files : ∀ path, (world.finding path).isFile = true → (after.finding path).isFile = true
  undecodable : ∀ path, after.finding path = .undecodable ↔ world.finding path = .undecodable

/-- A component is garbled in a world that reads alike if it is garbled in the other. -/
theorem Reads.garbled_iff (h : world.Reads after) {component : Path} :
    after.Garbled component ↔ world.Garbled component := by
  simp only [Garbled, h.undecodable]

/-- Reading alike goes on. -/
theorem Reads.trans (h : world.Reads mid) (h' : mid.Reads after) : world.Reads after :=
  ⟨fun path hp => h'.files path (h.files path hp),
    fun path => (h'.undecodable path).trans (h.undecodable path)⟩

/-- Writing a text where no other bytes stand. -/
theorem reads_writeBytes (h : world.writeBytes path (encodeText t) = .ok after)
    (hpath : world.finding path ≠ .undecodable) : world.Reads after := by
  obtain ⟨location, hl, -⟩ := writeBytes_eq_ok_iff.mp h
  have hwrote := wrote_of_writeBytes h hl
  have hagrees : Agrees (· ≠ location) world after :=
    ⟨hwrote.here, hwrote.directories, fun place hp => by rw [hwrote.contents, if_neg hp]⟩
  have hsame : ∀ other, world.locate other = .ok location →
      after.finding other = .text (universalNewlines t) ∧ world.finding other ≠ .undecodable := by
    intro other ho
    refine ⟨finding_of_holds ⟨_, readBytes_writeBytes_same h hl ho, decodeText?_encodeText t⟩, ?_⟩
    rwa [finding, content_of_locate ho, ← content_of_locate hl]
  have hother : ∀ other, world.locate other ≠ .ok location →
      after.finding other = world.finding other := by
    intro other ho
    refine hagrees.finding fun place hp => ?_
    rintro rfl
    exact ho hp
  constructor
  · intro other hfile
    by_cases ho : world.locate other = .ok location
    · rw [(hsame other ho).1]
      rfl
    · rwa [hother other ho]
  · intro other
    by_cases ho : world.locate other = .ok location
    · obtain ⟨htext, hclean⟩ := hsame other ho
      rw [htext]
      exact iff_of_false Finding.noConfusion hclean
    · rw [hother other ho]

/-- Writing texts in place of texts leaves what is garbled as it is. -/
theorem reads_writeAll {writes : List (Path × Text)} (h : world.writeAll writes = .ok after)
    (hwrites : ∀ write ∈ writes, world.finding write.1 ≠ .undecodable) : world.Reads after := by
  induction writes generalizing world with
  | nil =>
    obtain rfl := Except.ok.inj h
    exact ⟨fun _ hp => hp, fun _ => Iff.rfl⟩
  | cons write writes ih =>
    obtain ⟨path, t⟩ := write
    obtain ⟨next, hnext, hrest⟩ := exists_of_writeAll_cons h
    have hfirst := reads_writeBytes hnext (hwrites _ List.mem_cons_self)
    refine hfirst.trans (ih hrest fun write hw => ?_)
    rw [ne_eq, hfirst.undecodable]
    exact hwrites write (List.mem_cons_of_mem _ hw)

end World

namespace Runner

open World

variable {runner : Runner} {world mid after : World} {component : Path}
  {components front back : List Path}

/-- A sync of a component that is a file ends with a fault if it or its stylesheet is no text. -/
theorem sync_fails (hcomponent : component.isComponent = true) (hworld : world.Regular)
    (hfile : (world.finding component).isFile = true) (hgarbled : world.Garbled component) :
    ((runner.sync component).exec world).1 = .error .undecodable := by
  obtain ⟨sheet, hsheet⟩ := Path.exists_moduleSheet hcomponent
  obtain ⟨after, hperforms⟩ := @syncComponent_performs runner.style runner.config.modes.generate
    component sheet world hworld hsheet
  rw [sync, hperforms.ends]
  obtain ⟨path, rfl | hpath, hfinding⟩ := hgarbled
  · rw [hfinding]
    rfl
  · obtain rfl := Except.ok.inj (hpath.symm.trans hsheet)
    rw [hfinding]
    cases hfound : world.finding component with
    | text source => rfl
    | undecodable => rfl
    | nothing =>
      rw [hfound] at hfile
      cases hfile
    | directory =>
      rw [hfound] at hfile
      cases hfile

/-- A sync that comes to texts only gives a result, and the same files are texts afterwards. -/
theorem sync_reads (hcomponent : component.isComponent = true) (hworld : world.Regular)
    (hclean : ¬ world.Garbled component) :
    ∃ result after, (runner.sync component).exec world = (.ok result, after) ∧ after.Regular ∧
      world.Reads after := by
  obtain ⟨outcome, writes, after, hperforms, howns⟩ := runner.sync_performs hworld component
  obtain ⟨result, hresult⟩ := @sync_returns runner world component hcomponent hworld hclean
  rw [hperforms.ends] at hresult
  obtain rfl : outcome = .ok result := hresult
  have hreads : world.muted.Reads after.muted := reads_writeAll hperforms.wrote fun write hw hw' =>
    hclean ⟨write.1, howns write hw, hw'⟩
  exact ⟨result, after, hperforms.ends, hperforms.regular hworld, hreads.files, hreads.undecodable⟩

/-- Syncing components that are files gives results if all of them and their stylesheets are texts,
and else ends with a fault. -/
theorem syncAll_outcome (hworld : world.Regular)
    (hcomponents : ∀ component ∈ components, component.isComponent = true ∧
      (world.finding component).isFile = true) :
    ((∀ component ∈ components, ¬ world.Garbled component) →
      ∃ results after, (runner.syncAll components).exec world = (.ok results, after)) ∧
    ((∃ component ∈ components, world.Garbled component) →
      ∃ after, (runner.syncAll components).exec world = (.error .undecodable, after)) := by
  induction components generalizing world with
  | nil =>
    refine ⟨fun _ => ⟨[], world, Session.exec_pure [] world⟩, ?_⟩
    rintro ⟨component, hc, -⟩
    exact absurd hc List.not_mem_nil
  | cons first rest ih =>
    obtain ⟨hfirst, hfile⟩ := hcomponents first List.mem_cons_self
    by_cases hgarbled : world.Garbled first
    · refine ⟨fun hclean => absurd hgarbled (hclean first List.mem_cons_self), fun _ => ?_⟩
      have hfault := @sync_fails runner world first hfirst hworld hfile hgarbled
      exact ⟨_, Session.exec_bind_error (Prod.ext hfault rfl) _⟩
    · obtain ⟨result, mid, hexec, hmid, hreads⟩ :=
        @sync_reads runner world first hfirst hworld hgarbled
      obtain ⟨hreturns, hfails⟩ := ih hmid fun component hc =>
        ⟨(hcomponents component (List.mem_cons_of_mem _ hc)).1,
          hreads.files component (hcomponents component (List.mem_cons_of_mem _ hc)).2⟩
      constructor
      · intro hclean
        obtain ⟨results, after, hrest⟩ := hreturns fun component hc => by
          rw [hreads.garbled_iff]
          exact hclean component (List.mem_cons_of_mem _ hc)
        exact ⟨result :: results, after, exec_syncAll_cons hexec hrest⟩
      · rintro ⟨component, hc, hg⟩
        have hc : component ∈ rest := by
          rcases List.mem_cons.mp hc with rfl | hc
          · exact absurd hg hgarbled
          · exact hc
        obtain ⟨after, hrest⟩ := hfails ⟨component, hc, hreads.garbled_iff.mpr hg⟩
        refine ⟨after, ?_⟩
        rw [syncAll, Session.exec_bind hexec, Session.exec_bind_error hrest]

/-- A sync of components in a row goes on behind the first ones. -/
theorem exec_syncAll_append_snd {results : List SyncResult}
    (h : (runner.syncAll front).exec world = (.ok results, mid)) (back : List Path) :
    ((runner.syncAll (front ++ back)).exec world).2 = ((runner.syncAll back).exec mid).2 := by
  induction front generalizing world results with
  | nil =>
    obtain ⟨-, rfl⟩ := Prod.mk.inj h
    rfl
  | cons first rest ih =>
    rw [syncAll] at h
    obtain ⟨result, next, hfirst, hthen⟩ := Session.exists_of_exec_bind h
    obtain ⟨later, last, hrest, hpure⟩ := Session.exists_of_exec_bind hthen
    obtain ⟨-, rfl⟩ := Prod.mk.inj hpure
    rw [List.cons_append, exec_syncAll_cons_snd _ hfirst, ih hrest]

/-- A sync of components in a row ends where the first ones fail. -/
theorem exec_syncAll_append_error {fault : Fault}
    (h : (runner.syncAll front).exec world = (.error fault, mid)) (back : List Path) :
    (runner.syncAll (front ++ back)).exec world = (.error fault, mid) := by
  induction front generalizing world with
  | nil => cases h
  | cons first rest ih =>
    rw [List.cons_append, syncAll]
    rw [syncAll] at h
    cases hfirst : (runner.sync first).exec world with
    | mk outcome next =>
      cases outcome with
      | error other =>
        rw [Session.exec_bind_error hfirst] at h ⊢
        exact h
      | ok result =>
        rw [Session.exec_bind hfirst] at h ⊢
        cases hrest : (runner.syncAll rest).exec next with
        | mk outcome last =>
          cases outcome with
          | error other =>
            rw [Session.exec_bind_error hrest] at h
            exact Session.exec_bind_error (ih (hrest.trans h)) _
          | ok results =>
            rw [Session.exec_bind hrest] at h
            cases h

/-- A component that has no place in common with the others is synced as if it were alone, or, if a
fault has ended the syncs before its turn, is left as it was. -/
theorem syncAll_isolates (hworld : world.Regular)
    (hfront : ∀ other ∈ front, other.isComponent = true ∧ (world.finding other).isFile = true)
    (hcomponent : component.isComponent = true)
    (hapart : ∀ other ∈ front ++ back, ∀ location, world.Touches component location →
      ¬ world.Touches other location) :
    ((∀ other ∈ front, ¬ world.Garbled other) →
      Agrees (world.Touches component) ((runner.sync component).exec world).2
        ((runner.syncAll (front ++ component :: back)).exec world).2) ∧
    ((∃ other ∈ front, world.Garbled other) →
      Agrees (world.Touches component) world
        ((runner.syncAll (front ++ component :: back)).exec world).2) := by
  obtain ⟨hreturns, hfails⟩ := @syncAll_outcome runner world front hworld hfront
  obtain ⟨hmid, hkept⟩ := @syncAll_agrees_elsewhere runner world hworld front
  replace hkept := hkept.mono fun location (ht : world.Touches component location) other ho =>
    hapart other (List.mem_append_left _ ho) location ht
  constructor
  · intro hclean
    obtain ⟨results, mid, hexec⟩ := hreturns hclean
    rw [hexec] at hmid hkept
    rw [exec_syncAll_append_snd hexec]
    obtain ⟨-, hsynced⟩ := @sync_agrees runner world mid component _ hcomponent hworld hmid hkept
      fun _ ht => ht
    obtain ⟨hnext, helsewhere⟩ := @sync_agrees_elsewhere runner mid component hmid
    cases hsync : (runner.sync component).exec mid with
    | mk outcome next =>
      rw [hsync] at hsynced hnext helsewhere
      cases outcome with
      | error fault =>
        rw [syncAll, Session.exec_bind_error hsync]
        exact hsynced
      | ok result =>
        rw [exec_syncAll_cons_snd back hsync]
        refine hsynced.trans ((@syncAll_agrees_elsewhere runner next hnext back).2.mono
          fun location ht other ho => ?_)
        rw [helsewhere.touches_iff, hkept.touches_iff]
        exact hapart other (List.mem_append_right _ ho) location ht
  · intro hgarbled
    obtain ⟨mid, hexec⟩ := hfails hgarbled
    rw [hexec] at hkept
    rwa [exec_syncAll_append_error hexec]

section Scan

/-- Components are found in a directory only. -/
theorem isDirectory_of_mem_components (h : component ∈ runner.components world) :
    world.isDirectory runner.config.target = true := by
  cases hd : world.isDirectory runner.config.target with
  | true => rfl
  | false =>
    have hbelow := (mem_components_iff.mp h).1
    simp only [World.descendants, hd, List.not_mem_nil] at hbelow

/-- A scan ends as the syncs of all components end. -/
theorem exec_scan_eq (h : world.isDirectory runner.config.target = true) :
    runner.scan.exec world =
      (((runner.syncAll (runner.components world)).exec world).1.map
          (List.filter SyncResult.changed),
        ((runner.syncAll (runner.components world)).exec world).2) := by
  cases hall : (runner.syncAll (runner.components world)).exec world with
  | mk outcome after =>
    cases outcome with
    | ok results => exact exec_scan h hall
    | error fault =>
      rw [scan, Session.exec_bind (Session.exec_look _ world), if_pos h,
        Session.exec_bind (Session.exec_look _ world), Session.exec_bind_error hall]
      rfl

/-- The components of a scan are files. -/
theorem isFile_of_mem_components (h : component ∈ runner.components world) :
    component.isComponent = true ∧ (world.finding component).isFile = true := by
  obtain ⟨-, hfile, hcomponent, -⟩ := mem_components_iff.mp h
  exact ⟨hcomponent, (isFile_finding world component).trans hfile⟩

/-- A scan returns if all components and their stylesheets are texts. -/
theorem scan_returns (hworld : world.IsTree)
    (hclean : ∀ component ∈ runner.components world, ¬ world.Garbled component) :
    ∃ results after, runner.scan.exec world = (.ok results, after) := by
  cases hd : world.isDirectory runner.config.target with
  | false =>
    obtain ⟨notice, hexec⟩ := exec_scan_of_not_directory hd
    exact ⟨[], _, hexec⟩
  | true =>
    obtain ⟨results, after, hexec⟩ := (@syncAll_outcome runner world _ hworld.toRegular
      fun component hc => isFile_of_mem_components hc).1 hclean
    exact ⟨_, after, exec_scan hd hexec⟩

/-- A scan ends with a fault if some component or its stylesheet is no text. -/
theorem scan_fails (hworld : world.IsTree) (hc : component ∈ runner.components world)
    (hgarbled : world.Garbled component) :
    ∃ after, runner.scan.exec world = (.error .undecodable, after) := by
  have hd := isDirectory_of_mem_components hc
  obtain ⟨after, hexec⟩ := (@syncAll_outcome runner world _ hworld.toRegular
    fun other ho => isFile_of_mem_components ho).2 ⟨component, hc, hgarbled⟩
  exact ⟨after, by rw [exec_scan_eq hd, hexec]; rfl⟩

/-- Below one directory, components with different stylesheets have no place in common. -/
theorem apart_of_mem_components (hworld : world.IsTree) {other : Path}
    (hc : component ∈ runner.components world) (ho : other ∈ runner.components world)
    (hother : other.moduleSheet ≠ component.moduleSheet) : world.Apart component other := by
  intro sheet twin location hsheet htwin hl hl'
  have hleads := hworld.leadsTo (mem_components_iff.mp hc).1
  have hleads' := hworld.leadsTo (mem_components_iff.mp ho).1
  have hsame := eq_of_locate_eq (hleads.of_owns (Or.inr hsheet)) (hleads'.of_owns (Or.inr htwin))
    hl hl'
  rw [htwin, hsheet, hsame] at hother
  exact hother rfl

/-- What a scan leaves of a component with a stylesheet of its own: as a sync of it alone would
leave it, or as it was if a file before its turn is no text. -/
theorem content_scan (hworld : world.IsTree)
    (hall : runner.components world = front ++ component :: back)
    (hunshared : ∀ other ∈ front ++ back, other.moduleSheet ≠ component.moduleSheet) {path : Path}
    (howns : component.Owns path) :
    ((∀ other ∈ front, ¬ world.Garbled other) →
      (runner.scan.exec world).2.content path =
        ((runner.sync component).exec world).2.content path) ∧
    ((∃ other ∈ front, world.Garbled other) →
      (runner.scan.exec world).2.content path = world.content path) := by
  have hmem : ∀ other ∈ front ++ back, other ∈ runner.components world := by
    intro other ho
    rw [hall]
    rcases List.mem_append.mp ho with ho | ho
    · exact List.mem_append_left _ ho
    · exact List.mem_append_right _ (List.mem_cons_of_mem _ ho)
  have hc : component ∈ runner.components world := by
    rw [hall]
    exact List.mem_append_right _ List.mem_cons_self
  have hcomponent := (isFile_of_mem_components hc).1
  have hd := isDirectory_of_mem_components hc
  have hapart : ∀ other ∈ front ++ back, ∀ location, world.Touches component location →
      ¬ world.Touches other location := fun other ho location ht =>
    (apart_of_mem_components hworld hc (hmem other ho) (hunshared other ho)).not_touches hcomponent
      (isFile_of_mem_components (hmem other ho)).1 ht
  obtain ⟨halone, hleft⟩ := @syncAll_isolates runner world component front back hworld.toRegular
    (fun other ho => isFile_of_mem_components (hmem other (List.mem_append_left _ ho))) hcomponent
    hapart
  have hplace : ∀ location, world.locate path = .ok location → world.Touches component location :=
    fun location hl => ⟨path, howns, hl⟩
  rw [exec_scan_eq hd, hall]
  constructor
  · intro hclean
    have hsynced := @sync_agrees_elsewhere runner world component hworld.toRegular
    exact (halone hclean).content fun location hl =>
      hplace location (hsynced.2.locate_eq_ok_iff.mp hl)
  · intro hgarbled
    exact (hleft hgarbled).content hplace

/-- The exact isolation of a scan. It returns if and only if every component and its stylesheet are
texts, or directories or nothing in place of the stylesheet, and ends with a fault if one of these
files is no text. A component whose stylesheet no other component has ends as a sync of it alone
would leave it if no component before it is spoilt so, and is left as it was if one is. -/
theorem scan_isolates (hworld : world.IsTree) :
    ((∃ results after, runner.scan.exec world = (.ok results, after)) ↔
      ∀ component ∈ runner.components world, ¬ world.Garbled component) ∧
    (∀ component ∈ runner.components world, world.Garbled component →
      ∃ after, runner.scan.exec world = (.error .undecodable, after)) ∧
    ∀ front component back, runner.components world = front ++ component :: back →
      (∀ other ∈ front ++ back, other.moduleSheet ≠ component.moduleSheet) →
      ∀ path, component.Owns path →
        ((∀ other ∈ front, ¬ world.Garbled other) →
          (runner.scan.exec world).2.content path =
            ((runner.sync component).exec world).2.content path) ∧
        ((∃ other ∈ front, world.Garbled other) →
          (runner.scan.exec world).2.content path = world.content path) := by
  refine ⟨⟨?_, scan_returns hworld⟩, fun component hc => scan_fails hworld hc,
    fun front component back hall hunshared path howns =>
      content_scan hworld hall hunshared howns⟩
  rintro ⟨results, after, hexec⟩ component hc hgarbled
  obtain ⟨last, hfault⟩ := scan_fails hworld hc hgarbled
  rw [hexec] at hfault
  cases hfault

end Scan

section Spoilt

/-- Three components of which the second is no text. -/
def spoiltWorld : World where
  store :=
    { entries :=
        [(["A.jsx".toList], .file (encodeText "styles.a".toList) 1),
          (["A.module.css".toList], .file (encodeText []) 1),
          (["B.jsx".toList], .file ⟨#[0xff]⟩ 1),
          (["C.jsx".toList], .file (encodeText "styles.c".toList) 1),
          (["C.module.css".toList], .file (encodeText []) 1)]
      clock := 2 }

/-- The names of the components in order. -/
def spoiltNames : List Text := ["A.jsx".toList, "B.jsx".toList, "C.jsx".toList]

/-- The files stand in their directories. -/
theorem isTree_spoiltWorld : spoiltWorld.IsTree := by
  have hentries : ∀ e ∈ spoiltWorld.store.entries,
      (∃ name ∈ "A.module.css".toList :: "C.module.css".toList :: spoiltNames, e.1 = [name]) ∧
        e.2 ≠ .dangling := by
    simp [spoiltWorld, spoiltNames]
  have hnames : ∀ name ∈ "A.module.css".toList :: "C.module.css".toList :: spoiltNames,
      World.isEntryName name = true := by decide +kernel
  refine ⟨World.Regular.of_entries (fun e he => (hentries e he).2) rfl,
    Store.IsTree.of_entries fun e he => ?_⟩
  obtain ⟨⟨name, hname, hplace⟩, -⟩ := hentries e he
  rw [hplace]
  exact ⟨rfl, by simpa using hnames name hname⟩

/-- The components of the spoilt world are its three sources. -/
theorem components_spoiltWorld :
    pairRunner.components spoiltWorld = spoiltNames.map herePath := by
  have hkept : (spoiltWorld.descendants pairRunner.config.target).filter (fun path =>
      spoiltWorld.isFile path && path.isComponent && !path.isSkipped) =
        spoiltNames.map herePath := by decide +kernel
  have hsorted : (spoiltNames.map herePath).Pairwise fun a b => a.le b := by decide +kernel
  rw [components, hkept]
  exact List.mergeSort_of_pairwise hsorted

/-- Each of the three sources is a component. -/
theorem mem_components_spoiltWorld {name : Text} (h : name ∈ spoiltNames) :
    herePath name ∈ pairRunner.components spoiltWorld := by
  rw [components_spoiltWorld]
  exact List.mem_map_of_mem h

/-- Each of the components has a stylesheet of its own. -/
theorem eq_of_moduleSheet_spoilt {component other : Path}
    (hc : component ∈ spoiltNames.map herePath) (ho : other ∈ spoiltNames.map herePath)
    (h : other.moduleSheet = component.moduleSheet) : other = component := by
  have hnames : ∀ a ∈ spoiltNames, ∀ b ∈ spoiltNames,
      herePath ((Path.splitName b).1 ++ sheetEnding) =
        herePath ((Path.splitName a).1 ++ sheetEnding) → b = a := by decide +kernel
  obtain ⟨a, ha, rfl⟩ := List.mem_map.mp hc
  obtain ⟨b, hb, rfl⟩ := List.mem_map.mp ho
  rw [hnames a ha b hb (Except.ok.inj h)]

/-- The component that is no text, and those that are. -/
theorem garbled_spoiltWorld :
    spoiltWorld.Garbled (herePath "B.jsx".toList) ∧
      ¬ spoiltWorld.Garbled (herePath "A.jsx".toList) ∧
      ¬ spoiltWorld.Garbled (herePath "C.jsx".toList) := by
  refine ⟨⟨_, Or.inl rfl, finding_of_undecodable rfl (by decide +kernel)⟩, ?_, ?_⟩
  · exact (not_garbled_iff rfl).mpr ⟨finding_ne_undecodable rfl, finding_ne_undecodable rfl⟩
  · exact (not_garbled_iff rfl).mpr ⟨finding_ne_undecodable rfl, finding_ne_undecodable rfl⟩

/-- The scan ends with a fault. The first component is synced as it would be alone, and the third is
left as it was. -/
theorem scan_isolates_spoilt :
    (∃ after, pairRunner.scan.exec spoiltWorld = (.error .undecodable, after)) ∧
      (pairRunner.scan.exec spoiltWorld).2.content (herePath "A.module.css".toList) =
        ((pairRunner.sync (herePath "A.jsx".toList)).exec spoiltWorld).2.content
          (herePath "A.module.css".toList) ∧
      (pairRunner.scan.exec spoiltWorld).2.content (herePath "C.module.css".toList) =
        spoiltWorld.content (herePath "C.module.css".toList) := by
  obtain ⟨hbad, hfirst, -⟩ := garbled_spoiltWorld
  have hall := components_spoiltWorld
  obtain ⟨-, hfails, hcontent⟩ := @scan_isolates pairRunner spoiltWorld isTree_spoiltWorld
  refine ⟨hfails _ (mem_components_spoiltWorld (by simp [spoiltNames])) hbad, ?_, ?_⟩
  · refine (hcontent [] _ _ hall (fun other ho he => ?_) _ (Or.inr rfl)).1
      fun other ho => absurd ho List.not_mem_nil
    have hsame := eq_of_moduleSheet_spoilt (by decide +kernel) (List.mem_cons_of_mem _ ho) he
    exact absurd (hsame ▸ ho) (by decide +kernel)
  · refine (hcontent [herePath "A.jsx".toList, herePath "B.jsx".toList] _ [] hall
      (fun other ho he => ?_) _ (Or.inr rfl)).2
      ⟨_, List.mem_cons_of_mem _ List.mem_cons_self, hbad⟩
    have hsame := eq_of_moduleSheet_spoilt (by decide +kernel)
      (List.mem_append_left [herePath "C.jsx".toList] ho) he
    exact absurd (hsame ▸ ho) (by decide +kernel)

/-- A bad file ends the scan, and a component behind it that is a text, and whose stylesheet is a
text that no other component has, is not synced, though it would be alone. -/
theorem scan_aborts :
    spoiltWorld.IsTree ∧ herePath "C.jsx".toList ∈ pairRunner.components spoiltWorld ∧
      ¬ spoiltWorld.Garbled (herePath "C.jsx".toList) ∧
      (∀ other ∈ pairRunner.components spoiltWorld,
        other.moduleSheet = (herePath "C.jsx".toList).moduleSheet →
        other = herePath "C.jsx".toList) ∧
      (∃ after, pairRunner.scan.exec spoiltWorld = (.error .undecodable, after)) ∧
      (pairRunner.scan.exec spoiltWorld).2.content (herePath "C.module.css".toList) ≠
        ((pairRunner.sync (herePath "C.jsx".toList)).exec spoiltWorld).2.content
          (herePath "C.module.css".toList) := by
  obtain ⟨hbad, -, hgood⟩ := garbled_spoiltWorld
  have hall := components_spoiltWorld
  have hmem : herePath "C.jsx".toList ∈ pairRunner.components spoiltWorld :=
    mem_components_spoiltWorld (by simp [spoiltNames])
  have hunshared : ∀ other ∈ pairRunner.components spoiltWorld,
      other.moduleSheet = (herePath "C.jsx".toList).moduleSheet →
      other = herePath "C.jsx".toList := by
    intro other ho
    rw [hall] at hmem ho
    exact eq_of_moduleSheet_spoilt hmem ho
  have hleft := (@content_scan pairRunner spoiltWorld _
    [herePath "A.jsx".toList, herePath "B.jsx".toList] [] isTree_spoiltWorld hall
    (fun other ho he => by
      have hsame := hunshared other (by rw [hall]; exact List.mem_append_left _ ho) he
      exact absurd (hsame ▸ ho) (by decide +kernel))
    (herePath "C.module.css".toList) (Or.inr rfl)).2
    ⟨_, List.mem_cons_of_mem _ List.mem_cons_self, hbad⟩
  refine ⟨isTree_spoiltWorld, hmem, hgood, hunshared, scan_fails isTree_spoiltWorld
    (mem_components_spoiltWorld (by simp [spoiltNames])) hbad, ?_⟩
  rw [hleft]
  -- Alone, the component has its stylesheet written.
  have hsource : spoiltWorld.Holds (herePath "C.jsx".toList) "styles.c".toList :=
    ⟨_, rfl, by rw [decodeText?_encodeText, universalNewlines_of_no_return (by decide +kernel)]⟩
  have hcss : spoiltWorld.Holds (herePath "C.module.css".toList) [] :=
    ⟨_, rfl, decodeText?_encodeText []⟩
  rw [content_sync isTree_spoiltWorld.toRegular rfl hsource hcss (by decide +kernel),
    content_of_readBytes (show spoiltWorld.readBytes _ = .ok (encodeText []) from rfl)]
  intro he
  simp only [Option.some.injEq, Entry.file.injEq, and_true] at he
  have hdecoded := congrArg decodeText? he
  rw [decodeText?_encodeText, decodeText?_encodeText] at hdecoded
  exact absurd (Option.some.inj hdecoded) (by decide +kernel)

end Spoilt

end Runner

end StyleModules
