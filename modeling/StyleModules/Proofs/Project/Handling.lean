import StyleModules.Proofs.Component.SyncEffects
import StyleModules.Proofs.Files.Evolution
import StyleModules.Proofs.Project.Snapshot

/-!
# Handling a file tells what it changed

Syncing a component, laying out a stylesheet and adopting an orphan each tell the paths of all files
that they make or change, and these are the file handled and its stylesheet (`Session.Tells`). So
does handling a file, and handling a list of files one after the other (`Runner.handleEach_tells`).
-/

namespace StyleModules

section Naming

/-- The last point of a text is that of its end, if there is one. -/
theorem Path.cutLastPoint_append {t front back : Text} (start : Text)
    (h : Path.cutLastPoint t = some (front, back)) :
    Path.cutLastPoint (start ++ t) = some (start ++ front, back) := by
  induction start with
  | nil => exact h
  | cons c start ih => rw [List.cons_append, Path.cutLastPoint, ih, List.cons_append]

/-- Names with the ending of a component's stylesheet have the suffix of stylesheets. -/
theorem Path.splitName_sheetEnding (start : Text) :
    (Path.splitName (start ++ sheetEnding)).2 = sheetSuffix := by
  have hcut : Path.cutLastPoint sheetEnding = some (".module".toList, sheetSuffix) := by
    decide +kernel
  have hlength : (sheetSuffix.length == 1) = false := by decide +kernel
  rw [Path.splitName, Path.cutLastPoint_append start hcut]
  simp only
  rw [if_neg]
  rw [hlength, Bool.or_false, List.isEmpty_iff, List.append_eq_nil_iff, not_and_or]
  exact Or.inr (by decide +kernel)

/-- The other path is that of the file itself or of its stylesheet. -/
def Path.Owns (path other : Path) : Prop := other = path ∨ path.moduleSheet = .ok other

end Naming

namespace World

variable {world : World} {directory path : Path}

/-- No directory has the suffix of a watched file. -/
def PlainDirectories (world : World) : Prop :=
  ∀ location name, world.store.hasDirectory (location ++ [name]) = true →
    (Path.splitName name).2 ∉ watchedSuffixes

/-- Directories stay plain while files change. -/
theorem PlainDirectories.of_evolves (h : world.PlainDirectories) {told : List Path} {after : World}
    (hevolves : world.Evolves told after) : after.PlainDirectories := fun location name hd =>
  h location name ((hevolves.directories _).symm.trans hd)

/-- In a tree whose directories are plain, an entry with a watched suffix is a file. -/
theorem IsTree.exists_file (hworld : world.IsTree) (hplain : world.PlainDirectories)
    {location : Location} {name : Text} (hname : (Path.splitName name).2 ∈ watchedSuffixes)
    (hseen : world.store.seen (location ++ [name]) ≠ none) :
    ∃ bytes stamp, world.store.seen (location ++ [name]) = some (.file bytes stamp) := by
  cases hentry : world.store.seen (location ++ [name]) with
  | none => exact absurd hentry hseen
  | some entry =>
    cases entry with
    | file bytes stamp => exact ⟨bytes, stamp, rfl⟩
    | dangling => exact absurd hentry (hworld.seen_ne_dangling _)
    | directory stamp =>
      refine absurd hname (hplain location name ?_)
      rw [Store.hasDirectory_eq, hentry]
      rfl

/-- What a directory lists are the entries seen in it. -/
theorem exists_of_mem_listing (h : path ∈ world.listing directory) :
    ∃ location name, world.locate directory = .ok location ∧
      world.store.hasDirectory location = true ∧
      world.store.seen (location ++ [name]) ≠ none ∧ path = directory.child name := by
  cases hl : world.locate directory with
  | error error => simp [listing, hl] at h
  | ok location =>
    rw [listing, isDirectory_of_locate hl, hl] at h
    cases hd : world.store.hasDirectory location with
    | false => simp [hd] at h
    | true =>
      simp only [hd, List.mem_map, Store.list, List.mem_filterMap] at h
      obtain ⟨name, ⟨⟨place, entry⟩, hmem, hlast⟩, rfl⟩ := h
      split at hlast
      · next hwithin =>
        simp only [Bool.and_eq_true, beq_iff_eq, Store.isWithin_iff] at hwithin
        obtain ⟨hlength, rest, rfl⟩ := hwithin
        rw [List.length_append, Nat.add_left_cancel_iff, List.length_eq_one_iff] at hlength
        obtain ⟨last, rfl⟩ := hlength
        rw [List.getLast?_concat, Option.some.injEq] at hlast
        subst hlast
        exact ⟨location, last, rfl, hd, (Store.seen_ne_none_iff (by simp)).mpr ⟨entry, hmem⟩, rfl⟩
      · cases hlast

/-- A name in a directory is reached through the directory. -/
theorem locate_child {location : Location} {name : Text}
    (hl : world.locate directory = .ok location) (hd : world.store.hasDirectory location = true)
    (hname : isEntryName name = true) :
    world.locate (directory.child name) = .ok (location ++ [name]) :=
  walk_concat hl hd hname

end World

namespace Session

variable {α β : Type} {world after : World}

/-- An operation that ends with a value has gone through its parts. -/
theorem exists_of_exec_bind {action : Session α} {next : α → Session β} {value : β}
    (h : (action >>= next).exec world = (.ok value, after)) :
    ∃ result mid, action.exec world = (.ok result, mid) ∧
      (next result).exec mid = (.ok value, after) := by
  obtain ⟨outcome, mid, hexec⟩ : ∃ outcome mid, action.exec world = (outcome, mid) := ⟨_, _, rfl⟩
  cases outcome with
  | error fault =>
    rw [exec_bind_error hexec] at h
    cases h
  | ok result =>
    rw [exec_bind hexec] at h
    exact ⟨result, mid, hexec, h⟩

/-- A path that can be moved is moved. -/
theorem exec_movePath {source target : Path} (h : world.movePath source target = .ok after) :
    (movePath source target).exec world = (.ok (), after) := by
  have hget : (get : Session World).exec world = (.ok world, world) := rfl
  rw [movePath, change, exec_bind hget]
  simp only [h]
  rfl

/-- The value of the operation tells all files that it makes or changes, and they are among those
allowed. In a world of texts the operation ends with a value. -/
structure Tells (action : Session α) (told : α → List Path) (allowed : Path → Prop)
    (world : World) : Prop where
  changes : ∀ value after, action.exec world = (.ok value, after) →
    world.Evolves (told value) after ∧ ∀ path ∈ told value, allowed path
  returns : world.Legible → ∃ value after, action.exec world = (.ok value, after)

namespace Tells

variable {action : Session α} {told : α → List Path} {allowed permitted : Path → Prop}

/-- An operation that ends with a value tells what it changed. -/
theorem of_ok {value : α} (h : action.exec world = (.ok value, after))
    (hevolves : world.Evolves (told value) after) (hallowed : ∀ path ∈ told value, allowed path) :
    action.Tells told allowed world where
  returns _ := ⟨value, after, h⟩
  changes result next hexec := by
    obtain ⟨hr, rfl⟩ := Prod.mk.inj (h.symm.trans hexec)
    obtain rfl := Except.ok.inj hr
    exact ⟨hevolves, hallowed⟩

/-- An operation may fail in a world that is not of texts. -/
theorem of_error {fault : Fault} (h : action.exec world = (.error fault, after))
    (hlegible : ¬ world.Legible) : action.Tells told allowed world where
  returns hl := absurd hl hlegible
  changes value next hexec := by
    rw [h] at hexec
    cases hexec

/-- More paths may be permitted than are told. -/
theorem mono (h : action.Tells told allowed world) (hsub : ∀ path, allowed path → permitted path) :
    action.Tells told permitted world where
  returns := h.returns
  changes value after hexec :=
    ⟨(h.changes value after hexec).1, fun path hp => hsub path ((h.changes value after hexec).2 path hp)⟩

/-- Two operations, one after the other, tell what each of them tells. -/
theorem append {second : Session β} {more : β → List Path}
    (h : action.Tells told allowed world)
    (hnext : ∀ value mid, world.Evolves (told value) mid → second.Tells more allowed mid) :
    (do
      let value ← action
      let result ← second
      return told value ++ more result : Session (List Path)).Tells id allowed world where
  changes paths after hexec := by
    obtain ⟨value, mid, hfirst, hrest⟩ := exists_of_exec_bind hexec
    obtain ⟨result, last, hsecond, hreturn⟩ := exists_of_exec_bind hrest
    obtain ⟨hp, rfl⟩ := Prod.mk.inj hreturn
    obtain rfl := Except.ok.inj hp
    obtain ⟨hevolves, hallowed⟩ := h.changes value mid hfirst
    obtain ⟨hlater, hmore⟩ := (hnext value mid hevolves).changes result last hsecond
    refine ⟨hevolves.trans hlater, fun path hpath => ?_⟩
    rcases List.mem_append.mp hpath with hpath | hpath
    · exact hallowed path hpath
    · exact hmore path hpath
  returns hlegible := by
    obtain ⟨value, mid, hfirst⟩ := h.returns hlegible
    obtain ⟨hevolves, -⟩ := h.changes value mid hfirst
    obtain ⟨result, last, hsecond⟩ :=
      (hnext value mid hevolves).returns (hevolves.legible hlegible)
    refine ⟨told value ++ more result, last, ?_⟩
    rw [exec_bind hfirst, exec_bind hsecond, exec_pure]

end Tells

end Session

section Operations

open Session

variable {world : World} {path sheet : Path}

/-- In a world of texts all bytes that are read are those of a text. -/
theorem World.not_legible {bytes : ByteArray} (hread : world.readBytes path = .ok bytes)
    (hdecode : decodeText? bytes = none) : ¬ world.Legible := by
  intro hlegible
  obtain ⟨location, stamp, -, hf⟩ := World.exists_of_readBytes hread
  obtain ⟨t, ht⟩ := hlegible location bytes stamp (Store.seen_eq_file_iff.mpr hf)
  rw [hdecode] at ht
  cases ht

/-- Every file that a sync writes is among those it tells. -/
theorem SyncRun.mem_written {style : Style} {generate : Bool} {result : SyncResult}
    {writes : List (Path × Text)} (h : SyncRun style generate path world (.ok result) writes)
    {other : Path} (hother : other ∈ writes.map (·.1)) : other ∈ result.written := by
  obtain ⟨⟨target, t⟩, hw, rfl⟩ := List.mem_map.mp hother
  obtain ⟨hcomponent, hmodule⟩ := h.result_eq
  rw [SyncResult.written, List.mem_append]
  rcases h.path_of_mem hw with he | hsheet
  · obtain rfl : target = path := he
    rw [if_pos (h.importChanged_iff.mpr ⟨t, hw⟩), hcomponent]
    exact Or.inl (List.mem_singleton_self _)
  · have hchanged := (h.sheetChanged_iff hsheet).mpr ⟨t, hw⟩
    obtain ⟨sheet, htold, hs⟩ := hmodule hchanged
    rw [if_pos hchanged, htold, Except.ok.inj (hs.symm.trans hsheet)]
    exact Or.inr (List.mem_singleton_self _)

/-- The files a sync tells are the component and its stylesheet. -/
theorem SyncRun.owns_of_mem_written {style : Style} {generate : Bool} {result : SyncResult}
    {writes : List (Path × Text)} (h : SyncRun style generate path world (.ok result) writes)
    {other : Path} (hother : other ∈ result.written) : path.Owns other := by
  obtain ⟨hcomponent, hmodule⟩ := h.result_eq
  rw [SyncResult.written, List.mem_append] at hother
  rcases hother with hother | hother
  · split at hother
    · exact Or.inl ((List.mem_singleton.mp hother).trans hcomponent)
    · cases hother
  · split at hother
    · next hchanged =>
      obtain ⟨sheet, htold, hs⟩ := hmodule hchanged
      rw [htold, Option.toList_some, List.mem_singleton] at hother
      exact Or.inr (hother ▸ hs)
    · cases hother

/-- A sync tells the files it wrote, the component's own. -/
theorem syncComponent_tells (hworld : world.IsTree) (style : Style) (generate : Bool) :
    (syncComponent style generate path).Tells SyncResult.written path.Owns world := by
  obtain ⟨outcome, writes, after, hperforms, hrun⟩ :=
    @syncComponent_runs style generate path world hworld.toRegular
  cases outcome with
  | ok result =>
    exact .of_ok hperforms.ends ((hperforms.evolves hworld).mono fun other => hrun.mem_written)
      fun other => hrun.owns_of_mem_written
  | error fault =>
    cases hrun with
    | undecodable hread hdecode => exact .of_error hperforms.ends (World.not_legible hread hdecode)
    | undecodableSheet _ _ hread hdecode =>
      exact .of_error hperforms.ends (World.not_legible hread hdecode)

/-- A stylesheet that is laid out is not written. -/
theorem formatFile_performs_of_eq {style : Style} {css : Text} (hcss : world.Holds path css)
    (hsame : formatText style css = css) :
    (formatFile style path).Performs world (.ok false) [] world := by
  rw [formatFile_text]
  refine (Performs.readText hcss).bind ?_
  dsimp only
  rw [if_pos (by simpa using hsame)]
  exact Performs.pure false world

/-- A stylesheet that is not laid out is written. -/
theorem formatFile_performs_of_ne {style : Style} {css : Text} {next : World}
    (hcss : world.Holds path css) (hother : formatText style css ≠ css)
    (hnext : world.writeBytes path (encodeText (formatText style css)) = .ok next) :
    (formatFile style path).Performs world (.ok true) [(path, formatText style css)]
      (next.report (.logged .info ("Formatted: ".toList ++ path.toText))) := by
  rw [formatFile_text]
  refine (Performs.readText hcss).bind ?_
  dsimp only
  rw [if_neg (by simpa using hother)]
  exact (Performs.writeText hnext).bind ((Performs.log ..).bind (Performs.pure true _))

/-- Laying a stylesheet out tells if it was written. -/
theorem formatFile_tells (hworld : world.IsTree) (style : Style) :
    (formatFile style path).Tells (fun changed => if changed then [path] else []) path.Owns
      world := by
  cases hread : world.readBytes path with
  | error error =>
    have hperforms : (formatFile style path).Performs world (.ok false) [] _ :=
      (Performs.readText_unreachable hread).bind ((Performs.log ..).bind (Performs.pure false _))
    exact .of_ok hperforms.ends (hperforms.evolves hworld) (by simp)
  | ok bytes =>
    cases hdecode : decodeText? bytes with
    | none =>
      have hperforms : (formatFile style path).Performs world (.error .undecodable) [] world :=
        (Performs.readText_undecodable hread hdecode).bind_error
      exact .of_error hperforms.ends (World.not_legible hread hdecode)
    | some css =>
      have hcss : world.Holds path css := ⟨bytes, hread, hdecode⟩
      by_cases hsame : formatText style css = css
      · have hperforms := formatFile_performs_of_eq hcss hsame
        exact .of_ok hperforms.ends (hperforms.evolves hworld) (by simp)
      · obtain ⟨next, hnext⟩ := hcss.writable.writeBytes (encodeText (formatText style css))
        have hperforms := formatFile_performs_of_ne hcss hsame hnext
        exact .of_ok hperforms.ends (hperforms.evolves hworld) (by simp [Path.Owns])

/-- The only orphan beside a component is a file, and moving it to the place of the component's
stylesheet, where nothing stands, is told by the path of that place. -/
theorem exists_adopted (hworld : world.IsTree) (hplain : world.PlainDirectories) {orphan : Path}
    (hsheet : path.moduleSheet = .ok sheet) (horphan : orphan ∈ world.orphans path.parent)
    (hmissing : world.pathExists sheet = false) :
    ∃ after, world.movePath orphan sheet = .ok after ∧ world.Evolves [sheet] after := by
  rw [World.orphans, List.mem_filter, List.mem_mergeSort, List.mem_filter] at horphan
  obtain ⟨⟨hlisted, hending⟩, -⟩ := horphan
  obtain ⟨location, name, hl, hd, hseen, rfl⟩ := World.exists_of_mem_listing hlisted
  obtain ⟨front, last, hnames, rfl⟩ := Path.exists_of_moduleSheet hsheet
  -- Names with the ending of a stylesheet are watched, so the orphan is no directory.
  obtain ⟨start, rfl⟩ : sheetEnding <:+ name := by
    simpa [Path.child, Path.name, List.getLast?_concat, List.isSuffixOf_iff_suffix] using hending
  have hwatched : (Path.splitName (start ++ sheetEnding)).2 ∈ watchedSuffixes := by
    rw [Path.splitName_sheetEnding]
    decide +kernel
  obtain ⟨bytes, stamp, hfile⟩ := hworld.exists_file hplain hwatched hseen
  have hsource := World.locate_child hl hd
    (hworld.tree.names _ hseen _ (List.mem_append_right _ (List.mem_singleton_self _)))
  have hfront : world.locate ⟨path.anchor, front⟩ = .ok location := by
    rwa [Path.parent, hnames, List.dropLast_concat] at hl
  have htarget := World.locate_child hfront hd (isEntryName_sheet last)
  have hempty : world.store.seen (location ++ [(Path.splitName last).1 ++ sheetEnding]) = none :=
    Store.seen_eq_none_iff.mpr (hworld.find?_eq_none htarget hmissing)
  obtain ⟨after, hmove⟩ : ∃ after, world.movePath (path.parent.child (start ++ sheetEnding))
      ⟨path.anchor, front ++ [(Path.splitName last).1 ++ sheetEnding]⟩ = .ok after :=
    ⟨_, World.movePath_eq_ok_iff.mpr ⟨_, _, hsource, htarget, rfl⟩⟩
  exact ⟨after, hmove, hworld.evolves_movePath hsource htarget hfile hempty hmove⟩

/-- An adoption tells the stylesheet that was moved, if one was. -/
theorem adoptOrphan_tells (hworld : world.IsTree) (hplain : world.PlainDirectories)
    (hsheet : path.moduleSheet = .ok sheet) :
    (adoptOrphan path).Tells Option.toList path.Owns world := by
  have hlook : (look (·.orphans path.parent)).exec world =
      (.ok (world.orphans path.parent), world) := exec_look _ world
  have hlift := (Performs.lift_ok hsheet world).ends
  have hexists : (look (·.pathExists sheet)).exec world = (.ok (world.pathExists sheet), world) :=
    exec_look _ world
  match horphans : world.orphans path.parent with
  | [] =>
    have hexec : (adoptOrphan path).exec world = (.ok none, world) := by
      rw [adoptOrphan, exec_bind hlook, horphans]
      rfl
    exact .of_ok hexec (.of_muted_eq hworld rfl) (by simp)
  | [orphan] =>
    cases hthere : world.pathExists sheet with
    | true =>
      have hexec : (adoptOrphan path).exec world = (.ok none, world) := by
        rw [adoptOrphan, exec_bind hlook, horphans]
        simp only
        rw [exec_bind hlift, exec_bind hexists, if_pos hthere]
        rfl
      exact .of_ok hexec (.of_muted_eq hworld rfl) (by simp)
    | false =>
      obtain ⟨after, hmove, hevolves⟩ := exists_adopted hworld hplain hsheet
        (by rw [horphans]; exact List.mem_singleton_self orphan) hthere
      obtain ⟨notice, hexec⟩ : ∃ notice,
          (adoptOrphan path).exec world = (.ok (some sheet), after.report notice) := by
        rw [adoptOrphan, exec_bind hlook, horphans]
        simp only
        rw [exec_bind hlift, exec_bind hexists, if_neg (by simp [hthere]),
          exec_bind (exec_movePath hmove), exec_bind (Performs.log ..).ends]
        exact ⟨_, exec_pure ..⟩
      refine .of_ok hexec ?_ (by simp [Path.Owns, hsheet])
      exact hevolves.trans (.of_muted_eq hevolves.tree rfl)
  | first :: second :: rest =>
    obtain ⟨notice, hexec⟩ : ∃ notice,
        (adoptOrphan path).exec world = (.ok none, world.report notice) := by
      rw [adoptOrphan, exec_bind hlook, horphans]
      dsimp only
      rw [exec_bind (Performs.log ..).ends]
      exact ⟨_, exec_pure ..⟩
    exact .of_ok hexec (.of_muted_eq hworld rfl) (by simp)

end Operations

namespace Runner

open Session

variable {runner : Runner} {world : World} {path sheet : Path}

/-- Handling a file tells what was written, files of its own. -/
theorem handle_tells (hworld : world.IsTree) (hplain : world.PlainDirectories)
    (hsheet : path.moduleSheet = .ok sheet) (isNew : Bool) :
    (runner.handle path isNew).Tells id path.Owns world := by
  have hsync : ∀ {mid : World} {told : List Path}, world.Evolves told mid →
      (runner.sync path).Tells SyncResult.written path.Owns mid :=
    fun hevolves => syncComponent_tells hevolves.tree _ _
  have hnone : (pure none : Session (Option Path)).Tells Option.toList path.Owns world :=
    .of_ok (exec_pure none world) (.of_muted_eq hworld rfl) (by simp)
  rw [handle]
  split
  · split
    · exact (adoptOrphan_tells hworld hplain hsheet).append fun _ _ => hsync
    · exact hnone.append fun _ _ => hsync
  · split
    · have hformat := @formatFile_tells world path hworld runner.style
      refine ⟨fun paths after hexec => ?_, fun hlegible => ?_⟩
      · obtain ⟨changed, mid, hfirst, hreturn⟩ := exists_of_exec_bind hexec
        obtain ⟨hp, rfl⟩ := Prod.mk.inj hreturn
        obtain rfl := Except.ok.inj hp
        exact hformat.changes changed mid hfirst
      · obtain ⟨changed, mid, hfirst⟩ := hformat.returns hlegible
        exact ⟨_, mid, exec_bind hfirst _⟩
    · exact .of_ok (exec_pure [] world) (.of_muted_eq hworld rfl) (by simp)

/-- Handle files one after the other, each new or not, and tell which files were written. -/
def handleEach (runner : Runner) : List (Path × Bool) → Session (List Path)
  | [] => return []
  | (path, isNew) :: rest => do
    let written ← runner.handle path isNew
    let later ← runner.handleEach rest
    return written ++ later

/-- What a poll handles is what is pending. -/
theorem handleAll_eq (runner : Runner) (previous current : Snapshot) :
    runner.handleAll previous current = runner.handleEach (previous.pending current) := by
  induction current with
  | nil => rfl
  | cons e rest ih =>
    obtain ⟨path, stamp⟩ := e
    rw [handleAll, Snapshot.pending_cons, ih]
    by_cases h : previous.stamp? path = some stamp
    · rw [if_pos (by simpa using h), if_pos h]
    · rw [if_neg (by simpa using h), if_neg h]
      rfl

/-- Handling files one after the other tells what was written, files of their own. -/
theorem handleEach_tells (hworld : world.IsTree) (hplain : world.PlainDirectories)
    {items : List (Path × Bool)} (hitems : ∀ item ∈ items, item.1.names ≠ []) :
    (runner.handleEach items).Tells id (fun path => ∃ item ∈ items, item.1.Owns path) world := by
  induction items generalizing world with
  | nil => exact .of_ok (exec_pure [] world) (.of_muted_eq hworld rfl) (by simp)
  | cons item rest ih =>
    obtain ⟨path, isNew⟩ := item
    have hnames := hitems _ List.mem_cons_self
    obtain ⟨sheet, hsheet⟩ : ∃ sheet, path.moduleSheet = .ok sheet := by
      cases h : path.moduleSheet with
      | ok sheet => exact ⟨sheet, rfl⟩
      | error fault => exact absurd ((Path.moduleSheet_eq_error_iff path fault).mp h).1 hnames
    refine ((handle_tells hworld hplain hsheet isNew).mono fun other ho =>
      ⟨_, List.mem_cons_self, ho⟩).append fun written mid hevolves => ?_
    refine (ih hevolves.tree (hplain.of_evolves hevolves) fun other ho =>
      hitems other (List.mem_cons_of_mem _ ho)).mono ?_
    rintro other ⟨item, hi, ho⟩
    exact ⟨item, List.mem_cons_of_mem _ hi, ho⟩

end Runner

end StyleModules
