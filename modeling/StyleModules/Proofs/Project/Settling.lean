import StyleModules.Proofs.Project.Handling

/-!
# A poll settles in one step

Every file below the target directory that a poll makes or changes is at the path of a handled file
or of its stylesheet, and these paths are told. A watched path leads to a place of its own, so a
file whose path is not told is as it was in the fresh snapshot. The snapshot that the poll returns
therefore holds the stamps of all watched files as they are afterwards, and the next poll has
nothing to do (`Runner.poll_settles`). In a world of texts every poll returns
(`Runner.poll_returns`).
-/

namespace StyleModules

/-- The other path leads down from this one by names of entries. -/
def Path.LeadsTo (path other : Path) : Prop :=
  ∃ names, names ≠ [] ∧ (∀ name ∈ names, World.isEntryName name = true) ∧
    other = { path with names := path.names ++ names }

/-- A path to which another leads has names. -/
theorem Path.LeadsTo.names_ne_nil {path other : Path} (h : path.LeadsTo other) :
    other.names ≠ [] := by
  obtain ⟨names, hne, -, rfl⟩ := h
  simp [hne]

/-- A stylesheet lies where its component lies. -/
theorem Path.LeadsTo.of_owns {target path other : Path} (h : target.LeadsTo path)
    (howns : path.Owns other) : target.LeadsTo other := by
  rcases howns with rfl | hsheet
  · exact h
  · obtain ⟨names, hne, hentry, rfl⟩ := h
    obtain ⟨front, name, hnames, rfl⟩ := Path.exists_of_moduleSheet hsheet
    rcases List.eq_nil_or_concat names with rfl | ⟨inner, last, rfl⟩
    · exact absurd rfl hne
    · rw [List.concat_eq_append] at hnames hentry
      simp only at hnames
      rw [← List.append_assoc] at hnames
      obtain ⟨rfl, -⟩ := List.append_inj' hnames rfl
      refine ⟨inner ++ [(Path.splitName name).1 ++ sheetEnding], by simp, fun other ho => ?_,
        by rw [List.append_assoc]⟩
      rcases List.mem_append.mp ho with ho | ho
      · exact hentry other (List.mem_append_left _ ho)
      · rw [List.mem_singleton.mp ho]
        exact isEntryName_sheet name

namespace World

variable {world : World} {target path other : Path} {location : Location}

/-- In a tree the way down to an entry leads through directories. -/
theorem walk_below {store : Store} (h : store.IsTree) {names : List Text}
    (hd : store.hasDirectory location = true) (hseen : store.seen (location ++ names) ≠ none) :
    walk store location names = .ok (location ++ names) := by
  induction names generalizing location with
  | nil => rw [walk, List.append_nil]
  | cons name rest ih =>
    have hname := h.names _ hseen name (List.mem_append_right _ List.mem_cons_self)
    rw [walk_cons_of_entryName hname hd]
    by_cases hrest : rest = []
    · rw [hrest, walk]
    · rw [List.append_cons] at hseen
      rw [List.append_cons location name rest]
      refine ih ?_ hseen
      cases hdir : store.hasDirectory (location ++ [name]) with
      | true => rfl
      | false => exact absurd (h.seen_eq_none hdir hrest) hseen

/-- A path below a directory leads to the place of an entry there. -/
theorem locate_below (htree : world.store.IsTree) (hl : world.locate target = .ok location)
    (hd : world.store.hasDirectory location = true) {names : List Text}
    (hseen : world.store.seen (location ++ names) ≠ none) :
    world.locate { target with names := target.names ++ names } = .ok (location ++ names) := by
  have hstart : world.start { target with names := target.names ++ names } = world.start target :=
    rfl
  rw [locate] at hl
  rw [locate, hstart, walk_append, hl]
  exact walk_below htree hd hseen

/-- Below a directory in a tree a path leads where its names say. -/
theorem IsTree.locate_below (hworld : world.IsTree) (hl : world.locate target = .ok location)
    (hd : world.store.hasDirectory location = true) {names : List Text}
    (hseen : world.store.seen (location ++ names) ≠ none) :
    world.locate { target with names := target.names ++ names } = .ok (location ++ names) :=
  World.locate_below hworld.tree hl hd hseen

/-- From a directory in a tree the paths of its descendants lead down. -/
theorem leadsTo_of_mem_descendants (htree : world.store.IsTree)
    (h : path ∈ world.descendants target) : target.LeadsTo path := by
  obtain ⟨location, names, -, -, hne, hseen, rfl⟩ := mem_descendants_iff.mp h
  exact ⟨names, hne, fun name hn => htree.names _ hseen name (List.mem_append_right _ hn), rfl⟩

/-- From a directory in a world that is a tree the paths of its descendants lead down. -/
theorem IsTree.leadsTo (hworld : world.IsTree) (h : path ∈ world.descendants target) :
    target.LeadsTo path := leadsTo_of_mem_descendants hworld.tree h

/-- Paths that lead down from one directory lead to places of their own. -/
theorem eq_of_locate_eq (h : target.LeadsTo path) (h' : target.LeadsTo other)
    (hl : world.locate path = .ok location) (hl' : world.locate other = .ok location) :
    path = other := by
  obtain ⟨names, -, hentry, rfl⟩ := h
  obtain ⟨more, -, hmore, rfl⟩ := h'
  rw [locate, walk_append] at hl hl'
  have hstart : ∀ names, world.start { target with names := target.names ++ names } =
      world.start target := fun _ => rfl
  rw [hstart] at hl hl'
  split at hl
  · cases hl
  · next base hbase =>
    rw [hbase] at hl'
    have hplace := (eq_append_of_walk hentry hl).symm.trans (eq_append_of_walk hmore hl')
    rw [List.append_cancel_left hplace]

end World

namespace Runner

open Session

variable {runner : Runner} {world after : World} {previous settled : Snapshot} {path : Path}

/-- A poll handles what is pending, and takes over the stamps of what is told. -/
theorem exec_poll_eq_ok_iff :
    (runner.poll previous).exec world = (.ok settled, after) ↔
      ∃ written, (runner.handleEach (previous.pending (runner.snapshot world))).exec world =
          (.ok written, after) ∧
        settled = absorb after (runner.snapshot world) written := by
  rw [poll, exec_bind (exec_look _ world), handleAll_eq]
  constructor
  · intro h
    obtain ⟨written, mid, hhandled, hlook⟩ := exists_of_exec_bind h
    obtain ⟨hs, rfl⟩ := Prod.mk.inj hlook
    exact ⟨written, hhandled, (Except.ok.inj hs).symm⟩
  · rintro ⟨written, hhandled, rfl⟩
    rw [exec_bind hhandled]
    rfl

/-- What is pending lies below the target directory. -/
theorem leadsTo_of_mem_pending (hworld : world.IsTree) {item : Path × Bool}
    (h : item ∈ previous.pending (runner.snapshot world)) :
    runner.config.target.LeadsTo item.1 := by
  obtain ⟨stamp, hmem, -⟩ := Snapshot.exists_of_mem_pending h
  exact hworld.leadsTo (mem_snapshot_iff.mp hmem).1.below

/-- What is pending in a tree is handled with all changes told. -/
theorem handlePending_tells (hworld : world.IsTree) (hplain : world.PlainDirectories)
    (previous : Snapshot) :
    (runner.handleEach (previous.pending (runner.snapshot world))).Tells id
      runner.config.target.LeadsTo world := by
  refine (handleEach_tells hworld hplain fun item hi =>
    (leadsTo_of_mem_pending hworld hi).names_ne_nil).mono ?_
  rintro path ⟨item, hi, howns⟩
  exact (leadsTo_of_mem_pending hworld hi).of_owns howns

/-- Every poll in a world of texts returns a snapshot. -/
theorem poll_returns (hworld : world.IsTree) (hplain : world.PlainDirectories)
    (hlegible : world.Legible) (previous : Snapshot) :
    ∃ settled after, (runner.poll previous).exec world = (.ok settled, after) := by
  obtain ⟨written, after, hexec⟩ := (handlePending_tells hworld hplain previous).returns hlegible
  exact ⟨_, after, exec_poll_eq_ok_iff.mpr ⟨written, hexec, rfl⟩⟩

/-- A watched file that is not told is as it was in the fresh snapshot. -/
theorem stamp?_of_not_told {written : List Path} (hevolves : world.Evolves written after)
    (hplain : world.PlainDirectories)
    (hleads : ∀ path ∈ written, runner.config.target.LeadsTo path)
    (hpath : runner.Watches after path) :
    ∃ stamp, after.stamp? path = some stamp ∧
      (path ∉ written → (runner.snapshot world).stamp? path = some stamp) := by
  obtain ⟨base, names, hbase, hd, hne, hseen, he⟩ := World.mem_descendants_iff.mp hpath.below
  have hafter := hevolves.tree
  have hl : after.locate path = .ok (base ++ names) := by
    rw [he]
    exact hafter.locate_below hbase hd hseen
  -- The last name has a watched suffix, so a file stands there.
  obtain ⟨bytes, stamp, hfile⟩ :
      ∃ bytes stamp, after.store.seen (base ++ names) = some (.file bytes stamp) := by
    rcases List.eq_nil_or_concat names with rfl | ⟨front, name, rfl⟩
    · exact absurd rfl hne
    · have hsuffix := hpath.suffix
      rw [he, Path.suffix, Path.name, List.concat_eq_append, ← List.append_assoc,
        List.getLast?_concat, Option.getD_some] at hsuffix
      rw [List.concat_eq_append, ← List.append_assoc] at hseen ⊢
      exact hafter.exists_file (hplain.of_evolves hevolves) hsuffix hseen
  have hstamp : ∀ {other : World}, other.locate path = .ok (base ++ names) →
      other.store.seen (base ++ names) = some (.file bytes stamp) →
      other.stamp? path = some stamp := by
    intro other hlocate hother
    rw [World.stamp?_of_locate hlocate, Store.seen_eq_file_iff.mp hother]
    rfl
  refine ⟨stamp, hstamp hl hfile, fun hnot => ?_⟩
  rcases hevolves.files _ _ _ hfile with hold | ⟨other, ho, hother⟩
  · have hwatched : runner.Watches world path := by
      refine ⟨World.mem_descendants_iff.mpr ⟨base, names, hevolves.locate_eq_ok_iff.mp hbase,
        (hevolves.directories base).symm.trans hd, hne, ?_, he⟩, hpath.suffix, hpath.kept⟩
      rw [hold]
      exact Option.some_ne_none _
    rw [stamp?_snapshot hwatched]
    exact hstamp (hevolves.locate_eq_ok_iff.mp hl) hold
  · -- A told path that leads to the same place is the same path.
    have hsame := World.eq_of_locate_eq (hafter.leadsTo hpath.below) (hleads other ho)
      (hevolves.locate_eq_ok_iff.mp hl) hother
    exact absurd (hsame ▸ ho) hnot

/-- The snapshot that a poll returns holds all watched files with their stamps, and polling again
does nothing and returns a fresh snapshot. -/
theorem poll_settles (hworld : world.IsTree) (hplain : world.PlainDirectories)
    (h : (runner.poll previous).exec world = (.ok settled, after)) :
    (∀ path ∈ after.descendants runner.config.target, path.suffix ∈ watchedSuffixes →
      path.isSkipped = false →
      ∃ stamp, after.stamp? path = some stamp ∧ settled.stamp? path = some stamp) ∧
    settled.pending (runner.snapshot after) = [] ∧
    (runner.poll settled).exec after = (.ok (runner.snapshot after), after) := by
  obtain ⟨written, hexec, rfl⟩ := exec_poll_eq_ok_iff.mp h
  obtain ⟨hevolves, hleads⟩ :=
    (handlePending_tells hworld hplain previous).changes written after hexec
  have hall : ∀ path ∈ after.descendants runner.config.target, path.suffix ∈ watchedSuffixes →
      path.isSkipped = false → ∃ stamp, after.stamp? path = some stamp ∧
        (absorb after (runner.snapshot world) written).stamp? path = some stamp := by
    intro path hbelow hsuffix hkept
    obtain ⟨stamp, hstamp, hold⟩ := stamp?_of_not_told hevolves hplain hleads
      ⟨hbelow, hsuffix, hkept⟩
    refine ⟨stamp, hstamp, ?_⟩
    rw [stamp?_absorb]
    split
    · exact hstamp
    · next hnot => exact hold hnot
  have hnone : (absorb after (runner.snapshot world) written).pending (runner.snapshot after) =
      [] := by
    refine Snapshot.pending_eq_nil_iff.mpr fun path stamp hmem => ?_
    obtain ⟨hwatched, hstamp⟩ := mem_snapshot_iff.mp hmem
    obtain ⟨mark, hmark, hsettled⟩ := hall path hwatched.below hwatched.suffix hwatched.kept
    rw [hsettled, ← hmark, hstamp]
  refine ⟨hall, hnone, exec_poll_eq_ok_iff.mpr ⟨[], ?_, rfl⟩⟩
  rw [hnone]
  rfl

/-- A new component beside the stylesheet that another one left behind. -/
def adoptionWorld : World where
  store :=
    { entries :=
        [(["src".toList], .directory 1),
          (["src".toList, "New.jsx".toList], .file (encodeText "styles.one".toList) 2),
          (["src".toList, "Old.module.css".toList], .file (encodeText ".one\x7btop:0\x7d".toList) 3)]
      clock := 4 }

/-- A runner that makes stylesheets and sorts declarations. -/
def adoptionRunner : Runner where
  config := { target := ⟨.relative, ["src".toList]⟩, modes := { generate := true, sort := true } }

/-- From no snapshot at all, a poll adopts the stylesheet, syncs it with the new component, and is
settled. -/
theorem poll_settles_adoption :
    adoptionWorld.IsTree ∧ adoptionWorld.PlainDirectories ∧
      ∃ settled after, (adoptionRunner.poll []).exec adoptionWorld = (.ok settled, after) ∧
        (∀ path ∈ after.descendants adoptionRunner.config.target, path.suffix ∈ watchedSuffixes →
          path.isSkipped = false →
          ∃ stamp, after.stamp? path = some stamp ∧ settled.stamp? path = some stamp) ∧
        settled.pending (adoptionRunner.snapshot after) = [] ∧
        (adoptionRunner.poll settled).exec after = (.ok (adoptionRunner.snapshot after), after) := by
  have hentries : ∀ e ∈ adoptionWorld.store.entries,
      e = (["src".toList], .directory 1) ∨
        (∃ name ∈ ["New.jsx".toList, "Old.module.css".toList], e.1 = ["src".toList, name]) ∧
          ∃ t stamp, e.2 = .file (encodeText t) stamp := by
    intro e he
    simp only [adoptionWorld, List.mem_cons, List.not_mem_nil, or_false] at he
    rcases he with rfl | rfl | rfl
    · exact Or.inl rfl
    · exact Or.inr ⟨⟨_, List.mem_cons_self, rfl⟩, _, _, rfl⟩
    · exact Or.inr ⟨⟨_, List.mem_cons_of_mem _ List.mem_cons_self, rfl⟩, _, _, rfl⟩
  have hworld : adoptionWorld.IsTree := by
    refine ⟨World.Regular.of_entries (fun e he => ?_) rfl, Store.IsTree.of_entries fun e he => ?_⟩
    · rcases hentries e he with rfl | ⟨-, t, stamp, hfile⟩
      · simp
      · simp [hfile]
    · rcases hentries e he with rfl | ⟨⟨name, hname, hplace⟩, -⟩
      · exact ⟨rfl, by decide +kernel⟩
      · rw [hplace]
        have hnames : ∀ name ∈ ["New.jsx".toList, "Old.module.css".toList],
            ∀ part ∈ ["src".toList, name], World.isEntryName part = true := by decide +kernel
        exact ⟨rfl, hnames name hname⟩
  have hplain : adoptionWorld.PlainDirectories := by
    intro location name hd
    obtain ⟨stamp, hf⟩ := Store.hasDirectory_iff.mp hd
    rcases hentries _ (Store.mem_entries_of_find? hf (by simp)) with he | ⟨-, t, mark, hfile⟩
    · have hname : name = "src".toList := by
        have hlast := congrArg List.getLast? (Prod.mk.inj he).1
        simpa using hlast
      rw [hname]
      decide +kernel
    · cases hfile
  have hlegible : adoptionWorld.Legible := by
    intro location bytes stamp hseen
    have hf := Store.seen_eq_file_iff.mp hseen
    have hne : location ≠ [] := by
      rintro rfl
      cases hf
    rcases hentries _ (Store.mem_entries_of_find? hf hne) with he | ⟨-, t, mark, hfile⟩
    · cases (Prod.mk.inj he).2
    · cases hfile
      exact ⟨_, decodeText?_encodeText t⟩
  obtain ⟨settled, after, hexec⟩ := poll_returns hworld hplain hlegible []
  exact ⟨hworld, hplain, settled, after, hexec, poll_settles hworld hplain hexec⟩

end Runner

end StyleModules
