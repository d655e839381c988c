import StyleModules.Component.Sync
import StyleModules.Proofs.Component.SecondSync
import StyleModules.Proofs.Files.Effect

/-!
# What a sync does

A sync ends in one of seven ways, each with the result and the writes that belong to it
(`SyncRun`). In a world of files and directories every sync is one of them (`syncComponent_runs`).
-/

namespace StyleModules

/-- The import of the component has to be written anew. -/
def staleImport (generate : Bool) (sheet : Path) (source : Text) : Bool :=
  generate && !(extractClasses source).isEmpty && setImport source sheet.name != source

/-- The stylesheet has to be written anew. -/
def staleSheet (style : Style) (source css : Text) : Bool :=
  syncText style (extractClasses source) css != css

/-- The write that makes the import canonical, if it is not. -/
def importWrites (generate : Bool) (component sheet : Path) (source : Text) :
    List (Path × Text) :=
  if staleImport generate sheet source then [(component, setImport source sheet.name)] else []

/-- The write that brings the stylesheet in line, if it is not. -/
def sheetWrites (style : Style) (sheet : Path) (source css : Text) : List (Path × Text) :=
  if staleSheet style source css then [(sheet, syncText style (extractClasses source) css)] else []

/-- The text of a stylesheet that has just been made. -/
def generatedText : Text := generatedMarker ++ ['\n']

/-- The ways in which a sync ends, with what it tells and what it writes. -/
inductive SyncRun (style : Style) (generate : Bool) (component : Path) (world : World) :
    Except Fault SyncResult → List (Path × Text) → Prop
  /-- The component cannot be reached. -/
  | unreachable {error : AccessError} (h : world.readBytes component = .error error) :
    SyncRun style generate component world (.ok { component := component }) []
  /-- The component is no text. -/
  | undecodable {bytes : ByteArray} (h : world.readBytes component = .ok bytes)
    (hd : decodeText? bytes = none) :
    SyncRun style generate component world (.error .undecodable) []
  /-- There is no stylesheet, and none is made. -/
  | sheetless {source : Text} {sheet : Path} (h : world.Holds component source)
    (hsheet : component.moduleSheet = .ok sheet) (hmissing : world.pathExists sheet = false)
    (hnone : generate = true → extractClasses source = [] ∨ isPascalCase component.stem = false) :
    SyncRun style generate component world (.ok { component := component }) []
  /-- The stylesheet cannot be read. -/
  | unreachableSheet {source : Text} {sheet : Path} {error : AccessError}
    (h : world.Holds component source) (hsheet : component.moduleSheet = .ok sheet)
    (hexists : world.pathExists sheet = true) (hread : world.readBytes sheet = .error error) :
    SyncRun style generate component world
      (.ok { component := component, sheet := some sheet }) []
  /-- The stylesheet is no text. -/
  | undecodableSheet {source : Text} {sheet : Path} {bytes : ByteArray}
    (h : world.Holds component source) (hsheet : component.moduleSheet = .ok sheet)
    (hread : world.readBytes sheet = .ok bytes) (hd : decodeText? bytes = none) :
    SyncRun style generate component world (.error .undecodable) []
  /-- The stylesheet is there and is brought in line. -/
  | synced {source css : Text} {sheet : Path} (h : world.Holds component source)
    (hsheet : component.moduleSheet = .ok sheet) (hcss : world.Holds sheet css) :
    SyncRun style generate component world
      (.ok ⟨component, some sheet, false, staleSheet style source css,
        staleImport generate sheet source⟩)
      (importWrites generate component sheet source ++ sheetWrites style sheet source css)
  /-- The stylesheet is made and brought in line. -/
  | generated {source : Text} {sheet : Path} (h : world.Holds component source)
    (hsheet : component.moduleSheet = .ok sheet) (hmissing : world.pathExists sheet = false)
    (hgenerate : generate = true) (hused : extractClasses source ≠ [])
    (hname : isPascalCase component.stem = true) :
    SyncRun style generate component world
      (.ok ⟨component, some sheet, true, staleSheet style source generatedText,
        staleImport generate sheet source⟩)
      ((sheet, generatedText) ::
        (importWrites generate component sheet source ++
          sheetWrites style sheet source generatedText))

section Path

variable {style : Style} {generate : Bool} {component : Path} {world : World}
  {outcome : Except Fault SyncResult} {writes : List (Path × Text)}

/-- A sync writes to the component and to its stylesheet only. -/
theorem SyncRun.path_of_mem (h : SyncRun style generate component world outcome writes)
    {write : Path × Text} (hw : write ∈ writes) :
    write.1 = component ∨ component.moduleSheet = .ok write.1 := by
  have himport : ∀ {sheet source}, write ∈ importWrites generate component sheet source →
      write.1 = component := by
    intro sheet source hm
    rw [importWrites] at hm
    split at hm
    · rw [List.mem_singleton.mp hm]
    · cases hm
  have hsheet : ∀ {sheet source css}, write ∈ sheetWrites style sheet source css →
      write.1 = sheet := by
    intro sheet source css hm
    rw [sheetWrites] at hm
    split at hm
    · rw [List.mem_singleton.mp hm]
    · cases hm
  cases h with
  | synced _ hmodule _ =>
    rcases List.mem_append.mp hw with hw | hw
    · exact Or.inl (himport hw)
    · exact Or.inr (hsheet hw ▸ hmodule)
  | generated _ hmodule =>
    rcases List.mem_cons.mp hw with rfl | hw
    · exact Or.inr hmodule
    · rcases List.mem_append.mp hw with hw | hw
      · exact Or.inl (himport hw)
      · exact Or.inr (hsheet hw ▸ hmodule)
  | _ => cases hw

end Path

namespace World

variable {world after : World} {path other : Path}

/-- What can be written can be written after other texts have been. -/
theorem Writable.of_writeAll {writes : List (Path × Text)} (h : world.Writable path)
    (hwrites : world.writeAll writes = .ok after) : after.Writable path := by
  induction writes generalizing world with
  | nil => exact Except.ok.inj hwrites ▸ h
  | cons write writes ih =>
    obtain ⟨target, t⟩ := write
    obtain ⟨next, hnext, hrest⟩ := exists_of_writeAll_cons hwrites
    exact ih (h.of_writeBytes hnext) hrest

/-- A text without carriage return is read back after it has been written. -/
theorem holds_of_writeBytes {t : Text} (ht : '\r' ∉ t)
    (h : world.writeBytes path (encodeText t) = .ok after) : after.Holds path t := by
  obtain ⟨location, hl, -⟩ := writeBytes_eq_ok_iff.mp h
  have hbytes := @readBytes_writeAll world after path location [] [] t (writeAll_cons h []) hl
    (by simp)
  refine ⟨encodeText t, hbytes, ?_⟩
  rw [decodeText?_encodeText, universalNewlines_of_no_return ht]

end World

/-- The name of a stylesheet is the name of an entry. -/
theorem isEntryName_sheet (name : Text) :
    World.isEntryName ((Path.splitName name).1 ++ sheetEnding) = true := by
  have hlength : sheetEnding.length = 11 := by decide
  refine World.isEntryName_of_length ?_
  rw [List.length_append]
  omega

namespace Session.Performs

/-- What can be written can be written after an operation. -/
theorem writable {α : Type} {action : Session α} {world after : World}
    {outcome : Except Fault α} {writes : List (Path × Text)}
    (h : action.Performs world outcome writes after) {path : Path} (hp : world.Writable path) :
    after.Writable path :=
  have hmuted : world.muted.Writable path := hp
  have hafter : after.muted.Writable path := hmuted.of_writeAll h.wrote
  hafter

end Session.Performs

section Steps

open Session

variable {style : Style} {generate : Bool} {component sheet : Path} {source css : Text}
  {world : World}

/-- The component's import is written if it is stale. -/
theorem updateImport_performs (h : world.Writable component) :
    ∃ after, (if generate && !(extractClasses source).isEmpty then
        updateImport component sheet source else pure false : Session Bool).Performs world
      (.ok (staleImport generate sheet source)) (importWrites generate component sheet source)
      after := by
  cases hneeded : generate && !(extractClasses source).isEmpty with
  | false =>
    rw [importWrites, staleImport, hneeded]
    exact ⟨world, Performs.pure false world⟩
  | true =>
    rw [importWrites, staleImport, hneeded, Bool.true_and, if_pos rfl, updateImport]
    by_cases hsame : setImport source sheet.name = source
    · rw [if_pos (by simpa using hsame), show (setImport source sheet.name != source) = false by
        simpa using hsame]
      exact ⟨world, Performs.pure false world⟩
    · obtain ⟨next, hnext⟩ := h.writeBytes (encodeText (setImport source sheet.name))
      rw [if_neg (by simpa using hsame), show (setImport source sheet.name != source) = true by
        simpa using hsame]
      exact ⟨_, (Performs.writeText hnext).bind ((Performs.log ..).bind (Performs.pure true _))⟩

/-- The stylesheet is written if it is stale. -/
theorem updateSheet_performs (h : world.Writable sheet) :
    ∃ after, (updateSheet style (extractClasses source) sheet css).Performs world
      (.ok (staleSheet style source css)) (sheetWrites style sheet source css) after := by
  rw [sheetWrites, staleSheet, updateSheet_text]
  by_cases hsame : syncText style (extractClasses source) css = css
  · rw [if_pos (by simpa using hsame),
      show (syncText style (extractClasses source) css != css) = false by simpa using hsame]
    exact ⟨world, Performs.pure false world⟩
  · obtain ⟨next, hnext⟩ := h.writeBytes (encodeText (syncText style (extractClasses source) css))
    rw [if_neg (by simpa using hsame),
      show (syncText style (extractClasses source) css != css) = true by simpa using hsame]
    exact ⟨_, (Performs.writeText hnext).bind ((Performs.log ..).bind (Performs.pure true _))⟩

/-- A sync with the stylesheet there writes the import and the stylesheet, each if it is stale. -/
theorem syncSheet_performs (hcomponent : world.Writable component) (hcss : world.Holds sheet css)
    (created : Bool) :
    ∃ after, (syncSheet style generate component source sheet created).Performs world
      (.ok ⟨component, some sheet, created, staleSheet style source css,
        staleImport generate sheet source⟩)
      (importWrites generate component sheet source ++ sheetWrites style sheet source css)
      after := by
  obtain ⟨mid, hmid⟩ := @updateImport_performs generate component sheet source world hcomponent
  obtain ⟨after, hafter⟩ := @updateSheet_performs style sheet source css mid
    (hmid.writable hcss.writable)
  refine ⟨after, (Performs.readText hcss).bind (hmid.ite_bind ?_)⟩
  exact hafter.map fun changed =>
    SyncResult.mk component (some sheet) created changed (staleImport generate sheet source)

/-- A file is reached through a directory, so its stylesheet has a place beside it. -/
theorem exists_place_of_readBytes {bytes : ByteArray} (h : world.readBytes component = .ok bytes)
    (hsheet : component.moduleSheet = .ok sheet) :
    ∃ location, world.locate sheet = .ok location := by
  obtain ⟨place, stamp, hl, -⟩ := World.exists_of_readBytes h
  obtain ⟨front, name, hnames, rfl⟩ := Path.exists_of_moduleSheet hsheet
  rw [World.locate, hnames] at hl
  obtain ⟨directory, hfront, hd⟩ := World.exists_of_walk_concat hl
  exact ⟨_, World.walk_concat hfront hd (isEntryName_sheet name)⟩

/-- A component that can be read has a stylesheet's path, which leads to a place. -/
theorem exists_sheet_of_readBytes {bytes : ByteArray} (hworld : world.Regular)
    (h : world.readBytes component = .ok bytes) :
    ∃ sheet location, component.moduleSheet = .ok sheet ∧ world.locate sheet = .ok location := by
  cases hsheet : component.moduleSheet with
  | error fault =>
    -- A path without names leads to the root or to the working directory.
    obtain ⟨place, stamp, hl, hf⟩ := World.exists_of_readBytes h
    obtain ⟨hnames, -⟩ := (Path.moduleSheet_eq_error_iff component fault).mp hsheet
    have hd : world.store.hasDirectory place = true := by
      rw [World.locate, hnames, World.walk, Except.ok.injEq] at hl
      rw [← hl, World.start]
      split
      · exact hworld.here
      · rfl
    rw [Store.hasDirectory, hf] at hd
    cases hd
  | ok sheet =>
    obtain ⟨location, hl⟩ := exists_place_of_readBytes h hsheet
    exact ⟨sheet, location, rfl, hl⟩

/-- A component that uses no class and has no stylesheet needs none. -/
theorem needsNone_performs (hsheet : component.moduleSheet = .ok sheet) (used : List Text) :
    (needsNone generate component used).Performs world
      (.ok (generate && used.isEmpty && !world.pathExists sheet)) [] world := by
  rw [needsNone]
  cases generate && used.isEmpty with
  | false => exact Performs.pure false world
  | true =>
    exact (Performs.lift_ok hsheet world).bind ((Performs.look (·.pathExists sheet) world).map (!·))

/-- A stylesheet that exists is found. -/
theorem resolveSheet_performs_of_exists (hsheet : component.moduleSheet = .ok sheet)
    (hexists : world.pathExists sheet = true) :
    (resolveSheet component generate).Performs world (.ok (some sheet, false)) [] world := by
  refine (Performs.lift_ok hsheet world).bind ((Performs.look (·.pathExists sheet) world).bind ?_)
  rw [if_pos hexists]
  exact Performs.pure _ world

/-- A missing stylesheet is not made if it may not be generated. -/
theorem resolveSheet_performs_of_missing (hsheet : component.moduleSheet = .ok sheet)
    (hmissing : world.pathExists sheet = false)
    (hnone : (generate && isPascalCase component.stem) = false) :
    (resolveSheet component generate).Performs world (.ok (none, false)) [] world := by
  refine (Performs.lift_ok hsheet world).bind ((Performs.look (·.pathExists sheet) world).bind ?_)
  rw [if_neg (by simp [hmissing]), if_neg (by simp [hnone])]
  exact Performs.pure _ world

/-- A missing stylesheet is made with the marker if it may be generated. -/
theorem resolveSheet_performs_of_generated (hsheet : component.moduleSheet = .ok sheet)
    (hmissing : world.pathExists sheet = false)
    (hmade : (generate && isPascalCase component.stem) = true) (hwritable : world.Writable sheet) :
    ∃ after, (resolveSheet component generate).Performs world (.ok (some sheet, true))
      [(sheet, generatedText)] after ∧ after.Holds sheet generatedText := by
  obtain ⟨next, hnext⟩ := hwritable.writeBytes (encodeText generatedText)
  have hholds : next.Holds sheet generatedText :=
    World.holds_of_writeBytes (by decide +kernel) hnext
  refine ⟨next.report (.logged .info ("Generated: ".toList ++ sheet.toText)),
    (Performs.lift_ok hsheet world).bind ((Performs.look (·.pathExists sheet) world).bind ?_),
    hholds⟩
  rw [if_neg (by simp [hmissing]), if_pos hmade]
  exact (Performs.writeText hnext).bind ((Performs.log ..).bind (Performs.pure _ _))

/-- A sync that finds or makes a stylesheet goes on with it. -/
theorem syncComponent_performs_of_sheet {mid after : World} {created : Bool}
    {writes more : List (Path × Text)} {outcome : Except Fault SyncResult}
    (hsource : world.Holds component source)
    (hneeds : (needsNone generate component (extractClasses source)).Performs world (.ok false) []
      world)
    (hresolve : (resolveSheet component generate).Performs world (.ok (some sheet, created)) writes
      mid)
    (hsync : (syncSheet style generate component source sheet created).Performs mid outcome more
      after) :
    (syncComponent style generate component).Performs world outcome (writes ++ more) after :=
  (Performs.readText hsource).bind (hneeds.bind (hresolve.bind hsync))

/-- A sync of a readable component whose stylesheet is there is one of the runs. -/
theorem syncComponent_runs_of_exists (hsource : world.Holds component source)
    (hsheet : component.moduleSheet = .ok sheet) (hexists : world.pathExists sheet = true) :
    ∃ outcome writes after,
      (syncComponent style generate component).Performs world outcome writes after ∧
        SyncRun style generate component world outcome writes := by
  have hneeds := @needsNone_performs generate component sheet world hsheet (extractClasses source)
  rw [hexists, Bool.not_true, Bool.and_false] at hneeds
  have hresolve := @resolveSheet_performs_of_exists generate component sheet world hsheet hexists
  cases hread : world.readBytes sheet with
  | error error =>
    have hsync : (syncSheet style generate component source sheet false).Performs world
        (.ok { component := component, sheet := some sheet }) [] _ :=
      (Performs.readText_unreachable hread).bind ((Performs.log ..).bind (Performs.pure _ _))
    exact ⟨_, _, _, syncComponent_performs_of_sheet hsource hneeds hresolve hsync,
      .unreachableSheet hsource hsheet hexists hread⟩
  | ok bytes =>
    cases hdecode : decodeText? bytes with
    | none =>
      have hsync : (syncSheet style generate component source sheet false).Performs world
          (.error .undecodable) [] world :=
        (Performs.readText_undecodable hread hdecode).bind_error
      exact ⟨_, _, _, syncComponent_performs_of_sheet hsource hneeds hresolve hsync,
        .undecodableSheet hsource hsheet hread hdecode⟩
    | some css =>
      have hcss : world.Holds sheet css := ⟨bytes, hread, hdecode⟩
      obtain ⟨after, hsync⟩ := @syncSheet_performs style generate component sheet source css world
        hsource.writable hcss false
      exact ⟨_, _, after, syncComponent_performs_of_sheet hsource hneeds hresolve hsync,
        .synced hsource hsheet hcss⟩

/-- A sync of a readable component whose stylesheet is missing is one of the runs. -/
theorem syncComponent_runs_of_missing (hsource : world.Holds component source)
    (hsheet : component.moduleSheet = .ok sheet) (hmissing : world.pathExists sheet = false)
    (hwritable : world.Writable sheet) :
    ∃ outcome writes after,
      (syncComponent style generate component).Performs world outcome writes after ∧
        SyncRun style generate component world outcome writes := by
  have hneeds := @needsNone_performs generate component sheet world hsheet (extractClasses source)
  rw [hmissing, Bool.not_false, Bool.and_true] at hneeds
  cases hnone : generate && (extractClasses source).isEmpty with
  | true =>
    rw [hnone] at hneeds
    refine ⟨_, _, _, (Performs.readText hsource).bind (hneeds.bind (Performs.pure _ world)),
      .sheetless hsource hsheet hmissing fun _ => Or.inl ?_⟩
    rw [Bool.and_eq_true, List.isEmpty_iff] at hnone
    exact hnone.2
  | false =>
    rw [hnone] at hneeds
    cases hmade : generate && isPascalCase component.stem with
    | false =>
      have hresolve := resolveSheet_performs_of_missing hsheet hmissing hmade
      refine ⟨_, _, _, (Performs.readText hsource).bind (hneeds.bind (hresolve.bind
        (Performs.pure _ world))), .sheetless hsource hsheet hmissing fun hg => Or.inr ?_⟩
      rwa [hg, Bool.true_and] at hmade
    | true =>
      obtain ⟨mid, hresolve, hmid⟩ := resolveSheet_performs_of_generated hsheet hmissing hmade
        hwritable
      obtain ⟨after, hsync⟩ := @syncSheet_performs style generate component sheet source
        generatedText mid (hresolve.writable hsource.writable) hmid true
      rw [Bool.and_eq_true] at hmade
      refine ⟨_, _, after, syncComponent_performs_of_sheet hsource hneeds hresolve hsync,
        .generated hsource hsheet hmissing hmade.1 (fun hused => ?_) hmade.2⟩
      rw [hmade.1, hused] at hnone
      cases hnone

/-- A component that cannot be reached is reported, and nothing is written. -/
theorem syncComponent_runs_of_unreachable {error : AccessError}
    (hread : world.readBytes component = .error error) :
    ∃ outcome writes after,
      (syncComponent style generate component).Performs world outcome writes after ∧
        SyncRun style generate component world outcome writes :=
  ⟨_, _, _, (Performs.readText_unreachable hread).bind
    ((Performs.log ..).bind (Performs.pure _ _)), .unreachable hread⟩

/-- Where there are no links, every sync of a path with a name is one of the runs. -/
theorem syncComponent_runs_of_unlinked (hworld : world.Unlinked)
    (hsheet : component.moduleSheet = .ok sheet) :
    ∃ outcome writes after,
      (syncComponent style generate component).Performs world outcome writes after ∧
        SyncRun style generate component world outcome writes := by
  cases hread : world.readBytes component with
  | error error => exact syncComponent_runs_of_unreachable hread
  | ok bytes =>
    cases hdecode : decodeText? bytes with
    | none =>
      exact ⟨_, _, _, (Performs.readText_undecodable hread hdecode).bind_error,
        .undecodable hread hdecode⟩
    | some source =>
      have hsource : world.Holds component source := ⟨bytes, hread, hdecode⟩
      obtain ⟨location, hl⟩ := exists_place_of_readBytes hread hsheet
      cases hexists : world.pathExists sheet with
      | true => exact syncComponent_runs_of_exists hsource hsheet hexists
      | false =>
        refine syncComponent_runs_of_missing hsource hsheet hexists ⟨location, hl, ?_,
          hworld location⟩
        rw [Store.hasDirectory, hworld.find?_eq_none hl hexists]
        rfl

/-- Every sync is one of the runs, and its writes are those of the run. -/
theorem syncComponent_runs (hworld : world.Regular) :
    ∃ outcome writes after,
      (syncComponent style generate component).Performs world outcome writes after ∧
        SyncRun style generate component world outcome writes := by
  cases hread : world.readBytes component with
  | error error => exact syncComponent_runs_of_unreachable hread
  | ok bytes =>
    obtain ⟨sheet, -, hsheet, -⟩ := exists_sheet_of_readBytes hworld hread
    exact syncComponent_runs_of_unlinked hworld.no_links hsheet

end Steps

end StyleModules
