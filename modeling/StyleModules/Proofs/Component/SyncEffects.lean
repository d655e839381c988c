import StyleModules.Proofs.Component.SyncRun
import StyleModules.Proofs.Text.Replacement

/-!
# A sync tells exactly what it did

A sync touches the component and its stylesheet and nothing else. When it ends with a result, the
component was changed exactly if the result says so, and the stylesheet was made or changed exactly
if the result says so: a text that differs from the one that was read is written as other bytes,
because no carriage return is ever written. When it ends with a fault, nothing has been written
(`syncComponent_accounts`).
-/

namespace StyleModules

section NoReturn

/-- Setting the import puts no carriage return into the component. -/
theorem return_not_mem_setImport {source name : Text} (hsource : '\r' ∉ source)
    (hname : '\r' ∉ name) : '\r' ∉ setImport source name := by
  have hbare : '\r' ∉ replaceOccurrences recogniseImport source := by
    intro hm
    rcases mem_of_mem_readFrom_fill hm with hm | ⟨previous, rest, length, value, hr, hm⟩
    · exact hsource hm
    · rw [recogniseImport] at hr
      split at hr
      · obtain ⟨after, _, he⟩ := Option.map_eq_some_iff.mp hr
        rw [← (Prod.mk.inj he).2] at hm
        cases hm
      · cases hr
  have hend : ∀ t : Text, '\r' ∉ t → '\r' ∉ endLine t := by
    intro t ht
    unfold endLine
    split
    · exact ht
    · simpa using ht
  have hline : '\r' ∉ importLine name := by
    have hstart : '\r' ∉ "import styles from \"./".toList := by decide +kernel
    have hstop : '\r' ∉ "\";".toList := by decide +kernel
    intro hm
    rcases List.mem_append.mp hm with hm | hm
    · rcases List.mem_append.mp hm with hm | hm
      · exact hstart hm
      · exact hname hm
    · exact hstop hm
  simp only [setImport, List.mem_append, not_or]
  exact ⟨⟨⟨hend _ fun hm => hbare (List.mem_of_mem_take hm), hline⟩, by decide⟩,
    fun hm => hbare (List.mem_of_mem_drop hm)⟩

/-- The name of a stylesheet has no carriage return if the component's has none. -/
theorem return_not_mem_sheet_name {component sheet : Path}
    (hsheet : component.moduleSheet = .ok sheet) (h : '\r' ∉ component.name) :
    '\r' ∉ sheet.name := by
  obtain ⟨front, name, hnames, rfl⟩ := Path.exists_of_moduleSheet hsheet
  rw [Path.name, hnames, List.getLast?_concat, Option.getD_some, ← Path.splitName_append name,
    List.mem_append, not_or] at h
  rw [Path.name, List.getLast?_concat, Option.getD_some, List.mem_append, not_or]
  exact ⟨h.1, by decide⟩

end NoReturn

section Account

variable {style : Style} {generate : Bool} {component sheet : Path} {world after : World}
  {outcome : Except Fault SyncResult} {result : SyncResult} {writes : List (Path × Text)}

/-- The component is written with its import set, if that is stale. -/
theorem mem_importWrites {source t : Text} {path : Path} :
    (path, t) ∈ importWrites generate component sheet source ↔
      path = component ∧ t = setImport source sheet.name ∧
        staleImport generate sheet source = true := by
  rw [importWrites]
  split <;> simp_all

/-- The stylesheet is written as its component has it, if it is stale. -/
theorem mem_sheetWrites {source css t : Text} {path : Path} :
    (path, t) ∈ sheetWrites style sheet source css ↔
      path = sheet ∧ t = syncText style (extractClasses source) css ∧
        staleSheet style source css = true := by
  rw [sheetWrites]
  split <;> simp_all

/-- A stylesheet is not its component. -/
theorem Path.moduleSheet_ne (component : Path) : component.moduleSheet ≠ .ok component := by
  intro h
  obtain ⟨front, name, hnames, he⟩ := Path.exists_of_moduleSheet h
  rw [he] at hnames
  exact Path.stem_append_sheetEnding_ne name
    (List.singleton_inj.mp (List.append_cancel_left hnames))

/-- The result of a run tells of the component, and of its stylesheet if it tells of one. -/
theorem SyncRun.result_eq (h : SyncRun style generate component world (.ok result) writes) :
    result.component = component ∧
      ((result.created || result.sheetChanged) = true →
        ∃ sheet, result.sheet = some sheet ∧ component.moduleSheet = .ok sheet) := by
  cases h with
  | synced _ hsheet _ => exact ⟨rfl, fun _ => ⟨_, rfl, hsheet⟩⟩
  | generated _ hsheet => exact ⟨rfl, fun _ => ⟨_, rfl, hsheet⟩⟩
  | _ => exact ⟨rfl, by simp⟩

/-- The component was written exactly if the result says so. -/
theorem SyncRun.importChanged_iff
    (h : SyncRun style generate component world (.ok result) writes) :
    result.importChanged = true ↔ ∃ t, (component, t) ∈ writes := by
  have hother : ∀ {sheet : Path}, component.moduleSheet = .ok sheet → component ≠ sheet :=
    fun hsheet he => component.moduleSheet_ne (he ▸ hsheet)
  cases h with
  | synced _ hsheet _ =>
    simp [mem_importWrites, mem_sheetWrites, hother hsheet]
  | generated _ hsheet =>
    simp [mem_importWrites, mem_sheetWrites, hother hsheet]
  | _ => simp

/-- The stylesheet was written exactly if the result says so. -/
theorem SyncRun.sheetChanged_iff
    (h : SyncRun style generate component world (.ok result) writes)
    (hmodule : component.moduleSheet = .ok sheet) :
    (result.created || result.sheetChanged) = true ↔ ∃ t, (sheet, t) ∈ writes := by
  have hother : sheet ≠ component := fun he => component.moduleSheet_ne (he ▸ hmodule)
  cases h with
  | synced _ hsheet _ =>
    obtain rfl : _ = sheet := Except.ok.inj (hsheet.symm.trans hmodule)
    simp [mem_importWrites, mem_sheetWrites, hother]
  | generated _ hsheet =>
    obtain rfl : _ = sheet := Except.ok.inj (hsheet.symm.trans hmodule)
    simp
  | _ => simp

/-- What a sync writes has no carriage return and is new to the file. -/
theorem SyncRun.new_of_mem (h : SyncRun style generate component world outcome writes)
    (hname : '\r' ∉ component.name) (hspec : ∀ name ∈ style.spec.names, '\r' ∉ name)
    {path : Path} {t : Text} (hw : (path, t) ∈ writes) : '\r' ∉ t ∧ ¬ world.Holds path t := by
  have hsync : ∀ {source css : Text}, '\r' ∉ css →
      '\r' ∉ syncText style (extractClasses source) css := fun hcss =>
    return_not_mem_syncText hspec (fun name hn => isNameChar_of_mem_extractClasses hn) hcss
  have himport : ∀ {source : Text} {sheet : Path}, world.Holds component source →
      component.moduleSheet = .ok sheet → staleImport generate sheet source = true →
      '\r' ∉ setImport source sheet.name ∧
        ¬ world.Holds component (setImport source sheet.name) := by
    intro source sheet hsource hsheet hstale
    simp only [staleImport, Bool.and_eq_true, bne_iff_ne] at hstale
    exact ⟨return_not_mem_setImport hsource.no_return (return_not_mem_sheet_name hsheet hname),
      fun hh => hstale.2 (hh.eq hsource)⟩
  cases h with
  | @synced source css sheet hsource hsheet hcss =>
    rcases List.mem_append.mp hw with hw | hw
    · obtain ⟨rfl, rfl, hstale⟩ := mem_importWrites.mp hw
      exact himport hsource hsheet hstale
    · obtain ⟨rfl, rfl, hstale⟩ := mem_sheetWrites.mp hw
      rw [staleSheet, bne_iff_ne] at hstale
      exact ⟨hsync hcss.no_return, fun hh => hstale (hh.eq hcss)⟩
  | @generated source sheet hsource hsheet hmissing =>
    have hnone : ∀ u, ¬ world.Holds sheet u := by
      intro u hu
      rw [World.pathExists_of_holds hu] at hmissing
      cases hmissing
    have hgenerated : '\r' ∉ generatedText := by decide +kernel
    rcases List.mem_cons.mp hw with he | hw
    · obtain ⟨rfl, rfl⟩ := Prod.mk.inj he
      exact ⟨hgenerated, hnone _⟩
    · rcases List.mem_append.mp hw with hw | hw
      · obtain ⟨rfl, rfl, hstale⟩ := mem_importWrites.mp hw
        exact himport hsource hsheet hstale
      · obtain ⟨rfl, rfl, _⟩ := mem_sheetWrites.mp hw
        exact ⟨hsync hgenerated, hnone _⟩
  | _ => cases hw

/-- Where a sync writes, both its files have a place, and not the same. -/
theorem SyncRun.exists_places (hworld : world.Regular)
    (h : SyncRun style generate component world outcome writes) (hw : writes ≠ []) :
    ∃ sheet place sheetPlace, component.moduleSheet = .ok sheet ∧
      world.locate component = .ok place ∧ world.locate sheet = .ok sheetPlace ∧
      place ≠ sheetPlace := by
  have key : ∀ {source : Text}, world.Holds component source →
      ∃ sheet place sheetPlace, component.moduleSheet = .ok sheet ∧
        world.locate component = .ok place ∧ world.locate sheet = .ok sheetPlace ∧
        place ≠ sheetPlace := by
    rintro source ⟨bytes, hread, _⟩
    obtain ⟨sheet, sheetPlace, hsheet, hs⟩ := exists_sheet_of_readBytes hworld hread
    obtain ⟨place, _, hl, _⟩ := World.exists_of_readBytes hread
    refine ⟨sheet, place, sheetPlace, hsheet, hl, hs, ?_⟩
    rintro rfl
    exact World.locate_moduleSheet_ne hsheet hs hl
  cases h with
  | synced hsource => exact key hsource
  | generated hsource => exact key hsource
  | _ => exact absurd rfl hw

/-- What is true, after a sync, of what it tells. -/
structure SyncAccount (component : Path) (world : World) (outcome : Except Fault SyncResult)
    (after : World) : Prop where
  /-- The working directory stays. -/
  here : after.here = world.here
  /-- Nothing is made or changed but the component and its stylesheet. -/
  elsewhere : ∀ location, world.locate component ≠ .ok location →
    (∀ sheet, component.moduleSheet = .ok sheet → world.locate sheet ≠ .ok location) →
    after.store.seen location = world.store.seen location
  /-- The component has other bytes exactly if the result tells of a changed import. -/
  import_iff : ∀ result, outcome = .ok result →
    (after.readBytes component ≠ world.readBytes component ↔ result.importChanged = true)
  /-- The stylesheet is new or has other bytes exactly if the result tells so. -/
  sheet_iff : ∀ result sheet, outcome = .ok result → component.moduleSheet = .ok sheet →
    (after.readBytes sheet ≠ world.readBytes sheet ↔
      (result.created || result.sheetChanged) = true)
  /-- The files told as written are the changed ones of the two. -/
  written_iff : ∀ result path, outcome = .ok result →
    (path ∈ result.written ↔ (path = component ∨ component.moduleSheet = .ok path) ∧
      after.readBytes path ≠ world.readBytes path)
  /-- A fault comes from a file that is no text, and leaves all files as they were. -/
  of_fault : ∀ fault, outcome = .error fault →
    fault = .undecodable ∧ after.store = world.store ∧
      ∃ path bytes, (path = component ∨ component.moduleSheet = .ok path) ∧
        world.readBytes path = .ok bytes ∧ decodeText? bytes = none

/-- Of its two files a sync changes exactly those it writes to. -/
theorem SyncRun.readBytes_ne_iff (hworld : world.Regular)
    (h : SyncRun style generate component world outcome writes)
    (hwrote : world.muted.writeAll writes = .ok after.muted) (hname : '\r' ∉ component.name)
    (hspec : ∀ name ∈ style.spec.names, '\r' ∉ name) {path : Path}
    (hpath : path = component ∨ component.moduleSheet = .ok path) :
    after.readBytes path ≠ world.readBytes path ↔ ∃ t, (path, t) ∈ writes := by
  show after.muted.readBytes path ≠ world.muted.readBytes path ↔ _
  by_cases hnone : writes = []
  · subst hnone
    rw [← Except.ok.inj hwrote]
    simp
  · obtain ⟨sheet, place, sheetPlace, hsheet, hl, hs, hne⟩ := h.exists_places hworld hnone
    have hnew : ∀ t, (path, t) ∈ writes → '\r' ∉ t ∧ ¬ world.muted.Holds path t :=
      fun t => h.new_of_mem hname hspec
    have hpaths : ∀ write ∈ writes, write.1 = component ∨ write.1 = sheet := fun write hw =>
      (h.path_of_mem hw).imp_right fun hm => Except.ok.inj (hm.symm.trans hsheet)
    rcases hpath with rfl | hmodule
    · refine World.readBytes_ne_iff hwrote hl (fun write hw hle => ?_) hnew
      refine (hpaths write hw).resolve_right fun he => hne ?_
      exact Except.ok.inj (hle.symm.trans (he ▸ hs))
    · obtain rfl : sheet = path := Except.ok.inj (hsheet.symm.trans hmodule)
      refine World.readBytes_ne_iff hwrote hs (fun write hw hle => ?_) hnew
      refine (hpaths write hw).resolve_left fun he => hne ?_
      exact Except.ok.inj ((he ▸ hl).symm.trans hle)

/-- A sync touches its two files only, tells exactly which of them it changed, and changes none if
it ends with a fault. -/
theorem syncComponent_accounts (hworld : world.Regular) (hname : '\r' ∉ component.name)
    (hspec : ∀ name ∈ style.spec.names, '\r' ∉ name) :
    SyncAccount component world ((syncComponent style generate component).exec world).1
      ((syncComponent style generate component).exec world).2 := by
  obtain ⟨outcome, writes, after, hperforms, hrun⟩ :=
    @syncComponent_runs style generate component world hworld
  rw [hperforms.ends]
  have hwrote := World.wroteAll_of_writeAll hperforms.wrote
  have himport : ∀ result, outcome = .ok result →
      (after.readBytes component ≠ world.readBytes component ↔ result.importChanged = true) := by
    rintro result rfl
    rw [hrun.readBytes_ne_iff hworld hperforms.wrote hname hspec (Or.inl rfl),
      hrun.importChanged_iff]
  have hsheet : ∀ result sheet, outcome = .ok result → component.moduleSheet = .ok sheet →
      (after.readBytes sheet ≠ world.readBytes sheet ↔
        (result.created || result.sheetChanged) = true) := by
    rintro result sheet rfl hmodule
    rw [hrun.readBytes_ne_iff hworld hperforms.wrote hname hspec (Or.inr hmodule),
      hrun.sheetChanged_iff hmodule]
  refine ⟨hwrote.here, fun location hl hs => hwrote.seen location fun write hw => ?_, himport,
    hsheet, fun result path hr => ?_, fun fault hf => ?_⟩
  · rcases hrun.path_of_mem hw with he | hm
    · exact he ▸ hl
    · exact hs write.1 hm
  · subst hr
    obtain ⟨hcomponent, hmodule⟩ := hrun.result_eq
    rw [SyncResult.written, List.mem_append, hcomponent]
    constructor
    · rintro (hm | hm)
      · split at hm
        · next hchanged =>
          obtain rfl := List.mem_singleton.mp hm
          exact ⟨Or.inl rfl, (himport result rfl).mpr hchanged⟩
        · cases hm
      · split at hm
        · next hchanged =>
          obtain ⟨sheet, htold, hs⟩ := hmodule hchanged
          rw [htold, Option.toList_some, List.mem_singleton] at hm
          subst hm
          exact ⟨Or.inr hs, (hsheet result path rfl hs).mpr hchanged⟩
        · cases hm
    · rintro ⟨rfl | hs, hne⟩
      · rw [if_pos ((himport result rfl).mp hne)]
        exact Or.inl (List.mem_singleton_self _)
      · have hchanged := (hsheet result path rfl hs).mp hne
        obtain ⟨sheet, htold, hs'⟩ := hmodule hchanged
        obtain rfl : sheet = path := Except.ok.inj (hs'.symm.trans hs)
        rw [if_pos hchanged, htold]
        exact Or.inr (List.mem_singleton_self _)
  · subst hf
    cases hrun with
    | undecodable hread hdecode =>
      have hstore : after.muted.store = world.muted.store := by rw [hperforms.muted_eq]
      exact ⟨rfl, hstore, component, _, Or.inl rfl, hread, hdecode⟩
    | undecodableSheet _ hmodule hread hdecode =>
      have hstore : after.muted.store = world.muted.store := by rw [hperforms.muted_eq]
      exact ⟨rfl, hstore, _, _, Or.inr hmodule, hread, hdecode⟩

/-- A canonical stylesheet whose lines end in carriage return and line feed. -/
def returnsCss : Text := ".one \x7b\r\n\ttop: 0;\r\n\x7d\r\n".toList

/-- A component beside a stylesheet with such line ends. -/
def returnsWorld : World where
  store :=
    { entries :=
        [(["A.jsx".toList], .file (encodeText "styles.one".toList) 1),
          (["A.module.css".toList], .file (encodeText returnsCss) 2)]
      clock := 3 }

/-- The text of the stylesheet is canonical once its line ends are read as line feeds, so nothing is
written and nothing is told. -/
theorem syncComponent_accounts_returns :
    returnsWorld.Regular ∧ '\r' ∉ sampleComponent.name ∧
      (∀ name ∈ sampleStyle.spec.names, '\r' ∉ name) ∧ '\r' ∈ returnsCss ∧
      (syncComponent { sampleStyle with headers := false } false sampleComponent).exec returnsWorld =
        (.ok { component := sampleComponent, sheet := some sampleModule }, returnsWorld) ∧
      SyncAccount sampleComponent returnsWorld
        ((syncComponent { sampleStyle with headers := false } false sampleComponent).exec
          returnsWorld).1
        ((syncComponent { sampleStyle with headers := false } false sampleComponent).exec
          returnsWorld).2 :=
  have hworld : returnsWorld.Regular := by
    refine World.Regular.of_entries ?_ rfl
    intro e he
    simp only [returnsWorld, List.mem_cons, List.not_mem_nil, or_false] at he
    rcases he with rfl | rfl <;> simp
  have hname : '\r' ∉ sampleComponent.name := by decide +kernel
  have hspec : ∀ name ∈ sampleStyle.spec.names, '\r' ∉ name := by decide +kernel
  have hsource : returnsWorld.Holds sampleComponent "styles.one".toList :=
    ⟨_, rfl, by rw [decodeText?_encodeText]; decide +kernel⟩
  have hcss : returnsWorld.Holds sampleModule (universalNewlines returnsCss) :=
    ⟨_, rfl, decodeText?_encodeText returnsCss⟩
  have hsame : syncText { sampleStyle with headers := false }
      (extractClasses "styles.one".toList) (universalNewlines returnsCss) =
        universalNewlines returnsCss := by decide +kernel
  ⟨hworld, hname, hspec, by decide +kernel,
    exec_syncComponent hsource rfl hcss (exec_updateSheet_of_eq hsame),
    syncComponent_accounts hworld hname hspec⟩

end Account

end StyleModules
