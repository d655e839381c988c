import StyleModules.Proofs.Project.Action
import StyleModules.Proofs.Project.SecondScan

/-!
# A runner stays inside its territory

A turn of a runner has duties: a scan syncs the components below the target directory, a poll
handles the watched files there that are new or changed. For each of its duties the runner may make
certain changes (`Runner.MayChange`), and whatever comes of a turn, it makes no others
(`Runner.scan_reaches`, `Runner.poll_reaches`). All paths of these changes lead down from the target
directory and through no directory that is left alone (`Runner.MayChange.inside`). The changes keep
files and directories in a tree, also where a directory is adopted in place of a stylesheet; so this
holds in every turn of every course of turns and edits (`Runner.Course.stays_inside`).
-/

namespace StyleModules

section Naming

variable {target path sheet : Path} {name : Text}

/-- Beside a file below the target directory all names are below it. -/
theorem Path.LeadsTo.sibling (h : target.LeadsTo path) (hname : World.isEntryName name = true) :
    target.LeadsTo (path.parent.child name) := by
  obtain ⟨names, hne, hentry, rfl⟩ := h
  refine ⟨names.dropLast ++ [name], by simp, fun other ho => ?_, ?_⟩
  · rcases List.mem_append.mp ho with ho | ho
    · exact hentry other (List.dropLast_subset _ ho)
    · rwa [List.mem_singleton.mp ho]
  · rw [Path.child, Path.parent, List.dropLast_append_of_ne_nil hne, List.append_assoc]

/-- A path is not skipped if no directory on it is. -/
theorem Path.isSkipped_eq_false_iff :
    path.isSkipped = false ↔ skippedName ∉ path.names := by
  have hanchor : ∀ anchor : Anchor, anchor.text ≠ skippedName := by
    intro anchor
    cases anchor <;> decide
  rw [Path.isSkipped, Path.parts]
  split
  · simp
  · simp [Ne.symm (hanchor path.anchor)]

/-- A sibling of a path that is not skipped is not skipped, unless its name says so. -/
theorem Path.isSkipped_sibling (h : path.isSkipped = false) (hname : name ≠ skippedName) :
    (path.parent.child name).isSkipped = false := by
  rw [Path.isSkipped_eq_false_iff] at h ⊢
  rw [Path.child, Path.parent, List.mem_append, List.mem_singleton, not_or]
  exact ⟨fun hs => h (List.dropLast_subset _ hs), Ne.symm hname⟩

/-- A name with the ending of a component's stylesheet is the name of an entry, and not that of a
directory that is left alone. -/
theorem sheetName_fits (start : Text) :
    World.isEntryName (start ++ sheetEnding) = true ∧ start ++ sheetEnding ≠ skippedName := by
  have hlength : sheetEnding.length = 11 := by decide
  refine ⟨World.isEntryName_of_length ?_, fun he => ?_⟩
  · rw [List.length_append]
    omega
  · have hend : sheetEnding <:+ skippedName := ⟨start, he⟩
    exact absurd hend (by decide)

/-- The stylesheet of a component is beside it. -/
theorem Path.eq_sibling_of_moduleSheet (h : path.moduleSheet = .ok sheet) :
    ∃ start, sheet = path.parent.child (start ++ sheetEnding) := by
  obtain ⟨front, name, hnames, rfl⟩ := Path.exists_of_moduleSheet h
  refine ⟨(Path.splitName name).1, ?_⟩
  rw [Path.child, Path.parent, hnames, List.dropLast_concat]

/-- A single orphan stands in a directory, under the name of a stylesheet. -/
theorem World.exists_of_orphans_eq {world : World} {directory orphan : Path}
    (h : world.orphans directory = [orphan]) :
    ∃ location start, world.locate directory = .ok location ∧
      world.store.hasDirectory location = true ∧
      orphan = directory.child (start ++ sheetEnding) := by
  have hmem : orphan ∈ world.orphans directory := by
    rw [h]
    exact List.mem_cons_self
  rw [World.orphans, List.mem_filter, List.mem_mergeSort, List.mem_filter] at hmem
  obtain ⟨⟨hlisted, hending⟩, -⟩ := hmem
  obtain ⟨location, name, hl, hd, -, rfl⟩ := World.exists_of_mem_listing hlisted
  obtain ⟨start, rfl⟩ : sheetEnding <:+ name := by
    simpa [Path.child, Path.name, List.getLast?_concat, List.isSuffixOf_iff_suffix] using hending
  exact ⟨location, start, hl, hd, rfl⟩

end Naming

section Operations

open Session

variable {allowed : World → Change → Prop} {component path sheet : Path}

/-- Laying a stylesheet out writes that one only. -/
theorem formatFile_keeps (style : Style) (h : ∀ world t, allowed world (.write path t)) :
    Keeps allowed (fun _ => True) (formatFile style path) fun _ _ => True := by
  rw [formatFile_text]
  refine (Keeps.readText path).bind fun read => ?_
  cases read with
  | error error => exact (Keeps.log ..).bind fun _ => .pure false fun _ _ => trivial
  | ok css =>
    dsimp only
    split
    · exact .pure false fun _ _ => trivial
    · exact .writeAndLog _ _ (fun world _ => h world _) fun _ => trivial

/-- Setting the import writes the component only. -/
theorem updateImport_keeps (source : Text) (h : ∀ world t, allowed world (.write component t)) :
    Keeps allowed (fun _ => True) (updateImport component sheet source) fun _ _ => True := by
  rw [updateImport]
  split
  · exact .pure false fun _ _ => trivial
  · exact .writeAndLog _ _ (fun world _ => h world _) fun _ => trivial

/-- Bringing a stylesheet in line writes that one only. -/
theorem updateSheet_keeps (style : Style) (used : List Text) (css : Text)
    (h : ∀ world t, allowed world (.write sheet t)) :
    Keeps allowed (fun _ => True) (updateSheet style used sheet css) fun _ _ => True := by
  rw [updateSheet_text]
  split
  · exact .pure false fun _ _ => trivial
  · exact .writeAndLog _ _ (fun world _ => h world _) fun _ => trivial

/-- The stylesheet that is found or made is the component's. -/
theorem resolveSheet_keeps (generate : Bool)
    (h : ∀ world sheet t, component.moduleSheet = .ok sheet → allowed world (.write sheet t)) :
    Keeps allowed (fun _ => True) (resolveSheet component generate) fun found _ =>
      ∀ sheet, found.1 = some sheet → component.moduleSheet = .ok sheet := by
  refine (Keeps.lift _).bind fun sheet => .of_fact fun hsheet => ?_
  have hfound : ∀ {created : Bool} (other : Path), (some sheet, created).1 = some other →
      component.moduleSheet = .ok other := fun other hother => Option.some.inj hother ▸ hsheet
  refine (Keeps.look _).bind fun there => ?_
  split
  · exact .pure _ fun _ _ => hfound
  · split
    · exact .writeAndLog _ _ (fun world _ => h world sheet _ hsheet) fun _ => hfound
    · exact .pure _ fun _ _ _ hnone => by cases hnone

/-- A sync with the stylesheet there writes the component and the stylesheet only. -/
theorem syncSheet_keeps (style : Style) (generate : Bool) (source : Text) (created : Bool)
    (hcomponent : ∀ world t, allowed world (.write component t))
    (hsheet : ∀ world t, allowed world (.write sheet t)) :
    Keeps allowed (fun _ => True) (syncSheet style generate component source sheet created)
      fun _ _ => True := by
  refine (Keeps.readText sheet).bind fun read => ?_
  cases read with
  | error error => exact (Keeps.log ..).bind fun _ => .pure _ fun _ _ => trivial
  | ok css =>
    have himport : Keeps allowed (fun _ => True)
        (if (generate && !(extractClasses source).isEmpty) = true then
          updateImport component sheet source else pure false : Session Bool)
          fun _ _ => True := by
      split
      · exact updateImport_keeps source hcomponent
      · exact .pure false fun _ _ => trivial
    refine himport.ite_bind fun importChanged => ?_
    exact (updateSheet_keeps style _ css hsheet).bind fun sheetChanged =>
      .pure _ fun _ _ => trivial

/-- To ask whether a stylesheet is needed changes nothing. -/
theorem needsNone_keeps (generate : Bool) (used : List Text) :
    Keeps allowed (fun _ => True) (needsNone generate component used) fun _ _ => True := by
  rw [needsNone]
  split
  · exact (Keeps.lift _).bind fun sheet => (Keeps.look _).bind fun _ =>
      .pure _ fun _ _ => trivial
  · exact .pure _ fun _ _ => trivial

/-- A sync writes to the component and to its stylesheet only. -/
theorem syncComponent_keeps (style : Style) (generate : Bool)
    (h : ∀ world path t, component.Owns path → allowed world (.write path t)) :
    Keeps allowed (fun _ => True) (syncComponent style generate component) fun _ _ => True := by
  refine (Keeps.readText component).bind fun read => ?_
  cases read with
  | error error => exact (Keeps.log ..).bind fun _ => .pure _ fun _ _ => trivial
  | ok source =>
    refine (needsNone_keeps ..).bind fun unneeded => ?_
    cases unneeded with
    | true => exact .pure _ fun _ _ => trivial
    | false =>
      refine (resolveSheet_keeps generate fun world sheet t hsheet =>
        h world sheet t (Or.inr hsheet)).bind fun found => ?_
      obtain ⟨sheet, created⟩ := found
      cases sheet with
      | none => exact .pure _ fun _ _ => trivial
      | some sheet =>
        refine Keeps.of_imp (.of_fact fun (hsheet : component.moduleSheet = .ok sheet) =>
          syncSheet_keeps style generate source created (fun world t => h world _ t (Or.inl rfl))
            fun world t => h world sheet t (Or.inr hsheet)) fun _ hfound => ⟨trivial, hfound sheet rfl⟩

/-- Adopting an orphan moves the only one there is to the place of the component's stylesheet, if
nothing stands there. -/
theorem adoptOrphan_keeps
    (h : ∀ world orphan sheet, world.orphans component.parent = [orphan] →
      component.moduleSheet = .ok sheet → world.pathExists sheet = false →
      allowed world (.move orphan sheet)) :
    Keeps allowed (fun _ => True) (adoptOrphan component) fun _ _ => True := by
  refine (Keeps.look _).bind fun orphans => ?_
  match orphans with
  | [] => exact .pure none fun _ _ => trivial
  | [orphan] =>
    refine (Keeps.lift _).bind fun sheet => .of_fact fun hsheet => (Keeps.look _).bind fun there => ?_
    cases there with
    | true => exact .pure none fun _ _ => trivial
    | false =>
      refine Keeps.bind (.movePath fun world hworld => ?_) fun _ =>
        (Keeps.log ..).bind fun _ => .pure (some sheet) fun _ _ => trivial
      exact h world orphan sheet hworld.1.2.symm hsheet hworld.2.symm
  | first :: second :: rest => exact (Keeps.log ..).bind fun _ => .pure none fun _ _ => trivial

end Operations

namespace World

variable {world next : World} {target path orphan sheet : Path} {location : Location}

/-- The way to a path below the target directory leads through the target directory. -/
theorem exists_of_leadsTo (h : target.LeadsTo path) (hl : world.locate path = .ok location) :
    ∃ base names, world.locate target = .ok base ∧ names ≠ [] ∧ location = base ++ names := by
  obtain ⟨names, hne, hentry, rfl⟩ := h
  have hstart : world.start { target with names := target.names ++ names } = world.start target :=
    rfl
  rw [locate, walk_append, hstart] at hl
  split at hl
  · cases hl
  · next base hbase => exact ⟨base, names, hbase, hne, eq_append_of_walk hentry hl⟩

/-- A single orphan and the stylesheet that it becomes have places in one directory. -/
theorem exists_of_adoption (horphan : world.orphans path.parent = [orphan])
    (hsheet : path.moduleSheet = .ok sheet) (hmove : world.movePath orphan sheet = .ok next) :
    ∃ directory a b, world.store.hasDirectory directory = true ∧ isEntryName b = true ∧
      world.locate orphan = .ok (directory ++ [a]) ∧ world.locate sheet = .ok (directory ++ [b]) ∧
      next.store = world.store.move (directory ++ [a]) (directory ++ [b]) := by
  obtain ⟨directory, start, hl, hd, rfl⟩ := exists_of_orphans_eq horphan
  obtain ⟨stem, rfl⟩ := Path.eq_sibling_of_moduleSheet hsheet
  have hsource := locate_child hl hd (sheetName_fits start).1
  have htarget := locate_child hl hd (sheetName_fits stem).1
  obtain ⟨source, target, hs, ht, rfl⟩ := movePath_eq_ok_iff.mp hmove
  obtain rfl := Except.ok.inj (hsource.symm.trans hs)
  obtain rfl := Except.ok.inj (htarget.symm.trans ht)
  exact ⟨directory, _, _, hd, (sheetName_fits stem).1, hsource, htarget, rfl⟩

end World

namespace Runner

open Session World

variable {runner : Runner} {duties : List (Path × Bool)} {world mid next : World} {path : Path}
  {isNew : Bool} {change : Change} {previous : Snapshot}

/-- The changes that a runner may make for a file that is new or not. -/
inductive MayChange (runner : Runner) (path : Path) (isNew : Bool) (world : World) : Change → Prop
  /-- Write to a component or to its stylesheet. -/
  | sync {other : Path} {t : Text} (hcomponent : path.isComponent = true)
    (howns : path.Owns other) : MayChange runner path isNew world (.write other t)
  /-- Write to a stylesheet, if declarations are sorted. -/
  | format {t : Text} (hsort : runner.config.modes.sort = true)
    (hsuffix : path.suffix = sheetSuffix) : MayChange runner path isNew world (.write path t)
  /-- Move the only orphan beside a new component to the place of the component's stylesheet, where
  nothing stands, if stylesheets are generated. -/
  | adopt {orphan sheet : Path} (hnew : isNew = true)
    (hgenerate : runner.config.modes.generate = true) (hcomponent : path.isComponent = true)
    (horphan : world.orphans path.parent = [orphan]) (hsheet : path.moduleSheet = .ok sheet)
    (hmissing : world.pathExists sheet = false) :
    MayChange runner path isNew world (.move orphan sheet)

/-- The changes that a runner may make for files of which each is new or not. -/
def MayChangeFor (runner : Runner) (duties : List (Path × Bool)) (world : World)
    (change : Change) : Prop :=
  ∃ duty ∈ duties, runner.MayChange duty.1 duty.2 world change

section Turns

/-- A sync makes the changes that handling its component may make. -/
theorem sync_keeps (hcomponent : path.isComponent = true) :
    Keeps (runner.MayChange path isNew) (fun _ => True) (runner.sync path) fun _ _ => True :=
  syncComponent_keeps _ _ fun _ _ _ howns => .sync hcomponent howns

/-- Handling a file makes no other changes than those that may be made for it. -/
theorem handle_keeps (runner : Runner) (path : Path) (isNew : Bool) :
    Keeps (runner.MayChange path isNew) (fun _ => True) (runner.handle path isNew)
      fun _ _ => True := by
  rw [handle]
  split
  · next hcomponent =>
    have hadopt : Keeps (runner.MayChange path isNew) (fun _ => True)
        (if (isNew && runner.config.modes.generate) = true then adoptOrphan path else pure none)
        fun _ _ => True := by
      split
      · next hnew =>
        obtain ⟨hnew, hgenerate⟩ := Bool.and_eq_true_iff.mp hnew
        exact adoptOrphan_keeps fun _ _ _ => .adopt hnew hgenerate hcomponent
      · exact .pure none fun _ _ => trivial
    refine hadopt.ite_bind fun adopted => ?_
    exact (sync_keeps hcomponent).bind fun result => .pure _ fun _ _ => trivial
  · split
    · next hsort =>
      obtain ⟨hsort, hsuffix⟩ := Bool.and_eq_true_iff.mp hsort
      exact (formatFile_keeps _ fun _ _ => .format hsort (beq_iff_eq.mp hsuffix)).bind
        fun changed => .pure _ fun _ _ => trivial
    · exact .pure [] fun _ _ => trivial

/-- The duties of a scan: the components that it syncs, none of them taken for new. -/
def scanDuties (runner : Runner) (world : World) : List (Path × Bool) :=
  (taken runner.sync (runner.components world) world).map (·, false)

/-- The duties of a poll: the watched files that it handles, which are new or changed. -/
def pollDuties (runner : Runner) (previous : Snapshot) (world : World) : List (Path × Bool) :=
  taken (fun duty => runner.handle duty.1 duty.2) (previous.pending (runner.snapshot world)) world

/-- A scan makes no other changes than those that may be made for its duties. -/
theorem scan_reaches (runner : Runner) (world : World) :
    Reaches (runner.MayChangeFor (runner.scanDuties world)) world (runner.scan.exec world).2 := by
  rw [scan, exec_bind (exec_look _ world)]
  split
  · rw [exec_bind (exec_look _ world), exec_bind_still fun _ _ => rfl]
    have hsync : ∀ component ∈ runner.components world,
        Keeps (runner.MayChange component false) (fun _ => True) (runner.sync component)
          fun _ _ => True := fun component hc => sync_keeps (mem_components_iff.mp hc).2.2.1
    refine (reaches_each runner.sync runner.syncAll List.cons rfl (fun _ _ => rfl) hsync
      world).mono ?_
    rintro mid change ⟨component, hc, hallowed⟩
    exact ⟨(component, false), List.mem_map_of_mem hc, hallowed⟩
  · rw [exec_bind_still fun _ _ => rfl]
    exact .single (.report _)

/-- A poll makes no other changes than those that may be made for its duties. -/
theorem poll_reaches (runner : Runner) (previous : Snapshot) (world : World) :
    Reaches (runner.MayChangeFor (runner.pollDuties previous world)) world
      ((runner.poll previous).exec world).2 := by
  rw [poll, exec_bind (exec_look _ world), handleAll_eq, exec_bind_still fun _ _ => rfl]
  have hhandle : ∀ duty ∈ previous.pending (runner.snapshot world),
      Keeps (runner.MayChange duty.1 duty.2) (fun _ => True) (runner.handle duty.1 duty.2)
        fun _ _ => True := fun duty _ => runner.handle_keeps duty.1 duty.2
  exact reaches_each (fun duty => runner.handle duty.1 duty.2) runner.handleEach (· ++ ·) rfl
    (fun _ _ => rfl) hhandle world

end Turns

section Inside

/-- The path leads down from the target directory, through no directory that is left alone. -/
structure Inside (runner : Runner) (path : Path) : Prop where
  below : runner.config.target.LeadsTo path
  kept : path.isSkipped = false

/-- The stylesheet of a name beside a path inside is inside. -/
theorem Inside.sibling (h : runner.Inside path) (start : Text) :
    runner.Inside (path.parent.child (start ++ sheetEnding)) where
  below := h.below.sibling (sheetName_fits start).1
  kept := Path.isSkipped_sibling h.kept (sheetName_fits start).2

/-- What a scan may sync is inside. -/
theorem inside_of_mem_scanDuties (htree : world.store.IsTree) {duty : Path × Bool}
    (h : duty ∈ runner.scanDuties world) : runner.Inside duty.1 := by
  obtain ⟨component, hc, rfl⟩ := List.mem_map.mp h
  obtain ⟨hbelow, -, -, hkept⟩ := mem_components_iff.mp (mem_of_mem_taken hc)
  exact ⟨leadsTo_of_mem_descendants htree hbelow, hkept⟩

/-- What a poll may handle is inside. -/
theorem inside_of_mem_pollDuties (htree : world.store.IsTree) {duty : Path × Bool}
    (h : duty ∈ runner.pollDuties previous world) : runner.Inside duty.1 := by
  obtain ⟨stamp, hmem, -⟩ := Snapshot.exists_of_mem_pending (mem_of_mem_taken h)
  have hwatched := (mem_snapshot_iff.mp hmem).1
  exact ⟨leadsTo_of_mem_descendants htree hwatched.below, hwatched.kept⟩

/-- What may be changed for a file inside is inside. -/
theorem MayChange.inside (h : runner.MayChange path isNew world change)
    (hpath : runner.Inside path) : ∀ other ∈ change.paths, runner.Inside other := by
  have hsibling : ∀ {sheet}, path.moduleSheet = .ok sheet → runner.Inside sheet := by
    intro sheet hsheet
    obtain ⟨start, rfl⟩ := Path.eq_sibling_of_moduleSheet hsheet
    exact hpath.sibling start
  cases h with
  | sync hcomponent howns =>
    intro other ho
    obtain rfl := List.mem_singleton.mp ho
    rcases howns with rfl | hsheet
    · exact hpath
    · exact hsibling hsheet
  | format hsort hsuffix =>
    intro other ho
    rwa [List.mem_singleton.mp ho]
  | adopt hnew hgenerate hcomponent horphan hsheet hmissing =>
    obtain ⟨-, start, -, -, rfl⟩ := exists_of_orphans_eq horphan
    simp only [Change.paths, List.mem_cons, List.not_mem_nil, or_false, forall_eq_or_imp, forall_eq]
    exact ⟨hpath.sibling start, hsibling hsheet⟩

/-- Writing a file inside keeps the tree. -/
theorem isTree_of_writeBytes {bytes : ByteArray} (htree : world.store.IsTree)
    (hpath : runner.Inside path) (hwrite : world.writeBytes path bytes = .ok next) :
    next.store.IsTree := by
  obtain ⟨location, hl, hd, -, rfl⟩ := writeBytes_eq_ok_iff.mp hwrite
  obtain ⟨names, hne, hentry, rfl⟩ := hpath.below
  rcases List.eq_nil_or_concat names with rfl | ⟨front, name, rfl⟩
  · exact absurd rfl hne
  · rw [List.concat_eq_append] at hl hentry
    rw [locate, ← List.append_assoc] at hl
    obtain ⟨directory, hfront, hdirectory⟩ := exists_of_walk_concat hl
    have hname := hentry name (List.mem_append_right _ List.mem_cons_self)
    obtain rfl := Except.ok.inj ((walk_concat hfront hdirectory hname).symm.trans hl)
    exact htree.writeFile hdirectory hname hd bytes

/-- A change that may be made inside keeps the tree. -/
theorem MayChange.isTree (h : runner.MayChange path isNew world change)
    (hpath : runner.Inside path) (hperform : world.perform change = .ok next)
    (htree : world.store.IsTree) : next.store.IsTree := by
  have hinside := h.inside hpath
  cases h with
  | sync hcomponent howns =>
    exact isTree_of_writeBytes htree (hinside _ List.mem_cons_self) hperform
  | format hsort hsuffix => exact isTree_of_writeBytes htree hpath hperform
  | adopt hnew hgenerate hcomponent horphan hsheet hmissing =>
    obtain ⟨directory, a, b, hd, hb, -, -, hstore⟩ := exists_of_adoption horphan hsheet hperform
    rw [hstore]
    exact htree.move_sibling hd a hb

/-- A change that may be made is seen where it is made only. -/
theorem MayChange.covers (h : runner.MayChange path isNew world change)
    (hperform : world.perform change = .ok next) {location : Location}
    (hne : next.store.seen location ≠ world.store.seen location) :
    world.Covers location change := by
  have hwrite : ∀ {other t}, world.writeBytes other (encodeText t) = .ok next →
      world.locate other = .ok location := by
    intro other t hwrite
    obtain ⟨place, hl, -⟩ := writeBytes_eq_ok_iff.mp hwrite
    have hseen := (wrote_of_writeBytes hwrite hl).seen location
    split at hseen
    · next he => rwa [he]
    · exact absurd hseen hne
  cases h with
  | sync hcomponent howns => exact hwrite hperform
  | format hsort hsuffix => exact hwrite hperform
  | adopt hnew hgenerate hcomponent horphan hsheet hmissing =>
    obtain ⟨directory, a, b, -, -, hsource, htarget, hstore⟩ :=
      exists_of_adoption horphan hsheet hperform
    rw [hstore] at hne
    by_cases hab : a = b
    · rw [hab, Store.move, if_pos (beq_self_eq_true _)] at hne
      exact absurd rfl hne
    by_cases hfrom : directory ++ [a] <+: location
    · exact ⟨_, hfrom, Or.inl hsource⟩
    by_cases hto : directory ++ [b] <+: location
    · exact ⟨_, hto, Or.inr htarget⟩
    exact absurd (Store.seen_move_elsewhere (Store.not_prefix_sibling hab)
      (Store.not_prefix_sibling (Ne.symm hab)) hfrom hto) hne

/-- A change of paths inside is seen below the target directory only. -/
theorem below_of_covers {location : Location} (h : world.Covers location change)
    (hinside : ∀ other ∈ change.paths, runner.Inside other) :
    ∃ base names, world.locate runner.config.target = .ok base ∧ names ≠ [] ∧
      location = base ++ names := by
  have hbelow : ∀ {other place}, other ∈ change.paths → world.locate other = .ok place →
      place <+: location → ∃ base names, world.locate runner.config.target = .ok base ∧
        names ≠ [] ∧ location = base ++ names := by
    rintro other place ho hl ⟨rest, rfl⟩
    obtain ⟨base, names, hbase, hne, rfl⟩ := exists_of_leadsTo (hinside other ho).below hl
    exact ⟨base, names ++ rest, hbase, by simp [hne], List.append_assoc ..⟩
  cases change with
  | write path t => exact hbelow List.mem_cons_self h List.prefix_rfl
  | move source target =>
    obtain ⟨place, hprefix, hl | hl⟩ := h
    · exact hbelow List.mem_cons_self hl hprefix
    · exact hbelow (List.mem_cons_of_mem _ List.mem_cons_self) hl hprefix

end Inside

section Courses

variable {after first : World} {initial snapshot : Snapshot}

/-- A turn with these duties has stayed inside: it has made no other changes than those that may be
made for its duties; all paths of such changes are inside; and what is seen otherwise afterwards has
come by such a change, and lies below the target directory. -/
structure StaysInside (runner : Runner) (duties : List (Path × Bool)) (world after : World) :
    Prop where
  reaches : Reaches (runner.MayChangeFor duties) world after
  inside : ∀ mid change, runner.MayChangeFor duties mid change →
    ∀ path ∈ change.paths, runner.Inside path
  elsewhere : ∀ location, after.store.seen location ≠ world.store.seen location →
    ∃ mid change next, Reaches (runner.MayChangeFor duties) world mid ∧
      runner.MayChangeFor duties mid change ∧ mid.perform change = .ok next ∧
      Reaches (runner.MayChangeFor duties) next after ∧ mid.Covers location change ∧
      ∃ base names, mid.locate runner.config.target = .ok base ∧ names ≠ [] ∧
        location = base ++ names

/-- What is reached by changes inside stays inside. -/
theorem StaysInside.of_reaches (h : Reaches (runner.MayChangeFor duties) world after)
    (hduties : ∀ duty ∈ duties, runner.Inside duty.1) : runner.StaysInside duties world after := by
  have hinside : ∀ mid change, runner.MayChangeFor duties mid change →
      ∀ path ∈ change.paths, runner.Inside path := by
    rintro mid change ⟨duty, hduty, hmay⟩
    exact hmay.inside (hduties duty hduty)
  refine ⟨h, hinside, fun location hne => ?_⟩
  obtain ⟨mid, change, next, hmid, hallowed, hperform, hnext, hcovers⟩ :=
    h.exists_of_seen_ne (fun _ _ _ ⟨_, _, hmay⟩ hperform => hmay.covers hperform) hne
  exact ⟨mid, change, next, hmid, hallowed, hperform, hnext, hcovers,
    below_of_covers hcovers (hinside mid change hallowed)⟩

/-- Changes for duties inside keep the tree. -/
theorem isTree_of_reaches (h : Reaches (runner.MayChangeFor duties) world after)
    (hduties : ∀ duty ∈ duties, runner.Inside duty.1) (htree : world.store.IsTree) :
    after.store.IsTree := by
  refine h.keeps (fun mid => mid.store.IsTree) (fun _ _ hmid => hmid) ?_ htree
  rintro mid change next ⟨duty, hduty, hmay⟩ hperform hmid
  exact hmay.isTree (hduties duty hduty) hperform hmid

/-- Scans and polls in any order, with any changes by others between them. A snapshot is remembered
for the next poll: the one that a poll returned, or a fresh one. -/
inductive Course (runner : Runner) (first : World) (initial : Snapshot) : World → Snapshot → Prop
  | start : Course runner first initial first initial
  | edit {world next : World} {snapshot : Snapshot} (h : Course runner first initial world snapshot)
    (htree : next.store.IsTree) : Course runner first initial next snapshot
  | look {world : World} {snapshot : Snapshot} (h : Course runner first initial world snapshot) :
    Course runner first initial world (runner.snapshot world)
  | scan {world : World} {snapshot : Snapshot} (h : Course runner first initial world snapshot) :
    Course runner first initial (runner.scan.exec world).2 snapshot
  | poll {world : World} {snapshot : Snapshot} (h : Course runner first initial world snapshot) :
    Course runner first initial ((runner.poll snapshot).exec world).2
      (((runner.poll snapshot).exec world).1.toOption.getD snapshot)

/-- A course keeps the tree. -/
theorem Course.isTree (h : runner.Course first initial world snapshot)
    (hfirst : first.store.IsTree) : world.store.IsTree := by
  induction h with
  | start => exact hfirst
  | edit _ htree _ => exact htree
  | look _ ih => exact ih
  | scan _ ih =>
    exact isTree_of_reaches (scan_reaches ..) (fun _ => inside_of_mem_scanDuties ih) ih
  | poll _ ih =>
    exact isTree_of_reaches (poll_reaches ..) (fun _ => inside_of_mem_pollDuties ih) ih

/-- In every course, a scan and a poll stay inside. -/
theorem Course.stays_inside (hfirst : first.store.IsTree)
    (h : runner.Course first initial world snapshot) :
    runner.StaysInside (runner.scanDuties world) world (runner.scan.exec world).2 ∧
      runner.StaysInside (runner.pollDuties snapshot world) world
        ((runner.poll snapshot).exec world).2 := by
  have htree := h.isTree hfirst
  exact ⟨.of_reaches (scan_reaches ..) fun _ => inside_of_mem_scanDuties htree,
    .of_reaches (poll_reaches ..) fun _ => inside_of_mem_pollDuties htree⟩

/-- From no snapshot at all, a poll may move the stylesheet that was left behind to the place of the
new component's. It stays inside, and so does a scan after it. -/
theorem Course.stays_inside_adoption :
    adoptionWorld.store.IsTree ∧
      adoptionRunner.MayChangeFor (adoptionRunner.pollDuties [] adoptionWorld) adoptionWorld
        (.move ⟨.relative, ["src".toList, "Old.module.css".toList]⟩
          ⟨.relative, ["src".toList, "New.module.css".toList]⟩) ∧
      adoptionRunner.StaysInside (adoptionRunner.pollDuties [] adoptionWorld) adoptionWorld
        ((adoptionRunner.poll []).exec adoptionWorld).2 ∧
      ∃ after, after = ((adoptionRunner.poll []).exec adoptionWorld).2 ∧
        adoptionRunner.StaysInside (adoptionRunner.scanDuties after) after
          (adoptionRunner.scan.exec after).2 := by
  have htree : adoptionWorld.store.IsTree := Store.IsTree.of_entries (by decide +kernel)
  have hpending : Snapshot.pending [] (adoptionRunner.snapshot adoptionWorld) =
      [(⟨.relative, ["src".toList, "New.jsx".toList]⟩, true),
        (⟨.relative, ["src".toList, "Old.module.css".toList]⟩, true)] := by
    have hsorted : ((adoptionWorld.descendants adoptionRunner.config.target).filter fun path =>
        watchedSuffixes.contains path.suffix && !path.isSkipped).Pairwise
          fun a b => Path.le a b = true := by decide +kernel
    rw [snapshot, List.mergeSort_of_pairwise hsorted]
    decide +kernel
  have horphans : adoptionWorld.orphans ⟨.relative, ["src".toList]⟩ =
      [⟨.relative, ["src".toList, "Old.module.css".toList]⟩] := by
    have hsheets : (adoptionWorld.listing ⟨.relative, ["src".toList]⟩).filter
        (sheetEnding.isSuffixOf ·.name) =
          [⟨.relative, ["src".toList, "Old.module.css".toList]⟩] := by decide +kernel
    rw [World.orphans, hsheets, List.mergeSort_singleton]
    decide +kernel
  refine ⟨htree, ⟨(⟨.relative, ["src".toList, "New.jsx".toList]⟩, true), ?_, ?_⟩,
    (stays_inside htree .start).2, _, rfl, (stays_inside htree (poll .start)).1⟩
  · rw [pollDuties, hpending]
    exact List.mem_cons_self
  · exact .adopt rfl rfl (by decide +kernel) horphans rfl (by decide +kernel)

end Courses

end Runner

end StyleModules
