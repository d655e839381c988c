import StyleModules.Proofs.Project.Territory

/-!
# Adopting a stylesheet that was left behind

A stylesheet in a directory is an orphan exactly if it is the stylesheet of no component there
(`World.Unlinked.mem_orphans_iff`): the name of a component is its stem with the suffix behind it,
so taking the ending off the name of the stylesheet and the suffix off the name of the component
comes to the same. A component adopts an orphan if it is the only one beside it and nothing stands
where the component's stylesheet belongs (`World.Adopts`). What stood at the orphan's name stands at
the component's name afterwards, with all below it, and nothing else has changed; no orphan is left
if the component is there (`adoptOrphan_renames`).
-/

namespace StyleModules

/-- What stood at a name in the directory has gone, with all below it, to another name there at
which nothing stood. Everything else is as it was. -/
structure Store.Renamed (store : Store) (directory : Location) (a b : Text) (after : Store) :
    Prop where
  /-- Something stood at the first name. -/
  there : store.seen (directory ++ [a]) ≠ none
  /-- Nothing stood at the second name. -/
  free : store.seen (directory ++ [b]) = none
  /-- What stood at and below the first name stands at and below the second. -/
  arrives : ∀ below, after.seen (directory ++ [b] ++ below) = store.seen (directory ++ [a] ++ below)
  /-- Nothing stands at or below the first name. -/
  leaves : ∀ below, after.seen (directory ++ [a] ++ below) = none
  /-- What stands elsewhere stands there as before. -/
  elsewhere : ∀ location, ¬ directory ++ [a] <+: location → ¬ directory ++ [b] <+: location →
    after.seen location = store.seen location

/-- Moving an entry to a free name in its directory renames it. -/
theorem Store.renamed_move {store : Store} {directory : Location} {a b : Text}
    (hthere : store.seen (directory ++ [a]) ≠ none) (hfree : store.seen (directory ++ [b]) = none) :
    store.Renamed directory a b (store.move (directory ++ [a]) (directory ++ [b])) := by
  have hab : a ≠ b := by
    rintro rfl
    exact hthere hfree
  have hst := @not_prefix_sibling directory a b hab
  have hts := @not_prefix_sibling directory b a (Ne.symm hab)
  refine ⟨hthere, hfree, seen_move_target hst hts, fun below => ?_, fun location =>
    seen_move_elsewhere hst hts⟩
  refine seen_move_source hst hts (List.prefix_append ..) ?_
  rw [List.append_assoc, List.prefix_append_right_inj, List.singleton_append, List.cons_prefix_cons]
  exact fun he => hab he.1.symm

section Renaming

variable {store after : Store} {directory : Location} {a b : Text}

/-- Other names in the directory are as they were. -/
theorem Store.Renamed.seen_sibling (h : store.Renamed directory a b after) {name : Text}
    (ha : name ≠ a) (hb : name ≠ b) :
    after.seen (directory ++ [name]) = store.seen (directory ++ [name]) :=
  h.elsewhere _ (not_prefix_sibling (Ne.symm ha)) (not_prefix_sibling (Ne.symm hb))

/-- What stands somewhere afterwards has stood somewhere. -/
theorem Store.Renamed.exists_seen (h : store.Renamed directory a b after) {location : Location}
    (hseen : after.seen location ≠ none) : ∃ place, after.seen location = store.seen place := by
  by_cases ha : directory ++ [a] <+: location
  · obtain ⟨below, rfl⟩ := ha
    exact absurd (h.leaves below) hseen
  · by_cases hb : directory ++ [b] <+: location
    · obtain ⟨below, rfl⟩ := hb
      exact ⟨_, h.arrives below⟩
    · exact ⟨location, h.elsewhere location ha hb⟩

end Renaming

namespace World

/-- What stood where one path leads stands where the other leads, in the same directory. -/
def Renamed (world : World) (source target : Path) (after : World) : Prop :=
  after.here = world.here ∧ ∃ directory a b, world.locate source = .ok (directory ++ [a]) ∧
    world.locate target = .ok (directory ++ [b]) ∧ world.store.Renamed directory a b after.store

/-- The component takes over the orphan as its stylesheet. -/
structure Adopts (world : World) (component orphan sheet : Path) : Prop where
  /-- There is no other orphan beside the component. -/
  only : world.orphans component.parent = [orphan]
  /-- The stylesheet is the component's. -/
  belongs : component.moduleSheet = .ok sheet
  /-- Nothing stands there. -/
  free : world.pathExists sheet = false

end World

section Naming

/-- A name with the suffix of components behind it has that suffix. -/
theorem Path.splitName_component {base suffix : Text} (hne : base ≠ [])
    (hsuffix : suffix ∈ componentSuffixes) : Path.splitName (base ++ suffix) = (base, suffix) := by
  have hcut : ∀ suffix ∈ componentSuffixes,
      Path.cutLastPoint suffix = some ([], suffix) ∧ (suffix.length == 1) = false := by
    decide +kernel
  obtain ⟨hpoint, hlength⟩ := hcut suffix hsuffix
  rw [Path.splitName, Path.cutLastPoint_append base hpoint, List.append_nil]
  simp [hlength, hne]

/-- The name of a component is not that of a stylesheet. -/
theorem component_ne_sheet {base stem suffix : Text} (hsuffix : suffix ∈ componentSuffixes) :
    base ++ suffix ≠ stem ++ sheetEnding := by
  have hlast : ∀ suffix ∈ componentSuffixes, suffix ≠ [] ∧
      suffix.getLast? ≠ sheetEnding.getLast? := by decide
  obtain ⟨hne, hlast⟩ := hlast suffix hsuffix
  intro he
  have hsame := congrArg List.getLast? he
  rw [List.getLast?_append_of_ne_nil _ hne, List.getLast?_append_of_ne_nil _ (by decide)] at hsame
  exact hlast hsame

/-- A component stands at no place of a stylesheet. -/
theorem component_place_ne_sheet {directory front : Location} {base stem suffix : Text}
    (hsuffix : suffix ∈ componentSuffixes) :
    directory ++ [base ++ suffix] ≠ front ++ [stem ++ sheetEnding] := fun he =>
  component_ne_sheet hsuffix (List.singleton_inj.mp (List.append_inj_right' he rfl))

/-- The name of a component can be that of an entry. -/
theorem isEntryName_component {base suffix : Text} (hsuffix : suffix ∈ componentSuffixes) :
    World.isEntryName (base ++ suffix) = true := by
  have hlength : ∀ suffix ∈ componentSuffixes, suffix.length = 4 := by decide
  refine World.isEntryName_of_length ?_
  rw [List.length_append, hlength suffix hsuffix]
  omega

/-- The component of a stylesheet is beside it and has its base name, with a suffix behind it. -/
theorem Path.exists_suffix_of_moduleSheet {component directory : Path} {stem : Text}
    (hcomponent : component.isComponent = true)
    (hsheet : component.moduleSheet = .ok (directory.child (stem ++ sheetEnding))) :
    ∃ suffix ∈ componentSuffixes, component = directory.child (stem ++ suffix) := by
  obtain ⟨front, name, hnames, he⟩ := Path.exists_of_moduleSheet hsheet
  obtain ⟨anchor, names⟩ := component
  obtain ⟨start, parts⟩ := directory
  obtain rfl : names = front ++ [name] := hnames
  obtain ⟨rfl, hparts⟩ := Path.mk.inj he
  obtain ⟨rfl, hname⟩ := List.append_inj' hparts rfl
  obtain rfl := List.append_cancel_right (List.singleton_inj.mp hname)
  refine ⟨(Path.splitName name).2, ?_, ?_⟩
  · rw [Path.isComponent, Path.suffix, Path.name, List.getLast?_concat] at hcomponent
    exact List.contains_iff_mem.mp hcomponent
  · rw [Path.splitName_append, Path.child]

/-- A component has a stem and a suffix, and its stylesheet is beside it. -/
theorem Path.exists_of_isComponent {component : Path} (h : component.isComponent = true) :
    ∃ stem, ∃ suffix ∈ componentSuffixes, component = component.parent.child (stem ++ suffix) ∧
      component.moduleSheet = .ok (component.parent.child (stem ++ sheetEnding)) := by
  cases hsheet : component.moduleSheet with
  | error fault =>
    obtain ⟨hnames, -⟩ := (Path.moduleSheet_eq_error_iff component fault).mp hsheet
    rw [Path.isComponent, Path.suffix, Path.name, hnames] at h
    exact absurd h (by decide)
  | ok sheet =>
    obtain ⟨stem, rfl⟩ := Path.eq_sibling_of_moduleSheet hsheet
    obtain ⟨suffix, hsuffix, he⟩ := Path.exists_suffix_of_moduleSheet h hsheet
    exact ⟨stem, suffix, hsuffix, he, rfl⟩

end Naming

namespace World

variable {world after : World} {directory path : Path} {location : Location} {name base : Text}

/-- In a world without links a path exists if it leads to where something stands. -/
theorem Unlinked.pathExists_iff (h : world.Unlinked) :
    world.pathExists path = true ↔
      ∃ location, world.locate path = .ok location ∧ world.store.seen location ≠ none := by
  cases hl : world.locate path with
  | error error => simp [pathExists, entry_of_locate_error hl]
  | ok location =>
    rw [pathExists_of_locate hl]
    cases hf : world.store.find? location with
    | none => simp [Store.seen, hf]
    | some entry =>
      cases entry with
      | dangling => exact absurd hf (h location)
      | _ => simp [Store.seen, hf, Entry.stamp?]

/-- The place of a name in a directory is in the directory's place. -/
theorem exists_of_locate_child (h : world.locate (directory.child name) = .ok location)
    (hname : isEntryName name = true) :
    ∃ place, world.locate directory = .ok place ∧ world.store.hasDirectory place = true ∧
      location = place ++ [name] := by
  obtain ⟨place, hdirectory, hd⟩ := exists_of_walk_concat h
  exact ⟨place, hdirectory, hd,
    Except.ok.inj (h.symm.trans (locate_child hdirectory hd hname))⟩

/-- The entries of a directory are listed. -/
theorem mem_listing_of_seen (hl : world.locate directory = .ok location)
    (hd : world.store.hasDirectory location = true)
    (hseen : world.store.seen (location ++ [name]) ≠ none) :
    directory.child name ∈ world.listing directory := by
  obtain ⟨entry, hentry⟩ := (Store.seen_ne_none_iff (by simp)).mp hseen
  rw [listing, isDirectory_of_locate hl, hd, hl]
  refine List.mem_map.mpr ⟨name, List.mem_filterMap.mpr ⟨_, hentry, ?_⟩, rfl⟩
  rw [if_pos]
  · exact List.getLast?_concat
  · simp [Store.isWithin_iff]

/-- The entries of a directory are the names there at which something exists. -/
theorem Unlinked.mem_listing_iff (h : world.Unlinked) (hname : isEntryName name = true) :
    directory.child name ∈ world.listing directory ↔
      world.pathExists (directory.child name) = true := by
  rw [h.pathExists_iff]
  constructor
  · intro hlisted
    obtain ⟨location, other, hl, hd, hseen, he⟩ := exists_of_mem_listing hlisted
    obtain rfl : name = other := by simpa [Path.child] using he
    exact ⟨_, locate_child hl hd hname, hseen⟩
  · rintro ⟨place, hl, hseen⟩
    obtain ⟨location, hdirectory, hd, rfl⟩ := exists_of_locate_child hl hname
    exact mem_listing_of_seen hdirectory hd hseen

/-- A component of the name is there if one with some suffix is. -/
theorem hasComponent_iff :
    hasComponent world directory base = true ↔
      ∃ suffix ∈ componentSuffixes, world.pathExists (directory.child (base ++ suffix)) = true := by
  rw [hasComponent, List.any_eq_true]

/-- Where no component has the base name, nothing stands under its names. -/
theorem Unlinked.seen_component (h : world.Unlinked) (hl : world.locate directory = .ok location)
    (hd : world.store.hasDirectory location = true)
    (hnone : hasComponent world directory base = false) {suffix : Text}
    (hsuffix : suffix ∈ componentSuffixes) :
    world.store.seen (location ++ [base ++ suffix]) = none := by
  rw [← Bool.not_eq_true, hasComponent_iff] at hnone
  by_contra hseen
  exact hnone ⟨suffix, hsuffix, h.pathExists_iff.mpr
    ⟨_, locate_child hl hd (isEntryName_component hsuffix), hseen⟩⟩

/-- An orphan is a stylesheet that is listed, beside no component of its base name. -/
theorem mem_orphans_of_hasComponent_iff :
    directory.child (base ++ sheetEnding) ∈ world.orphans directory ↔
      directory.child (base ++ sheetEnding) ∈ world.listing directory ∧
        hasComponent world directory base = false := by
  have hname : (directory.child (base ++ sheetEnding)).name = base ++ sheetEnding := by
    rw [Path.name, Path.child, List.getLast?_concat, Option.getD_some]
  have hending : sheetEnding.isSuffixOf (base ++ sheetEnding) = true :=
    List.isSuffixOf_iff_suffix.mpr (List.suffix_append ..)
  rw [orphans, List.mem_filter, List.mem_mergeSort, List.mem_filter, hname, hending,
    List.length_append, Nat.add_sub_cancel, List.take_left]
  simp

/-- An orphan has the name of a stylesheet. -/
theorem exists_of_mem_orphans (h : path ∈ world.orphans directory) :
    ∃ base, path = directory.child (base ++ sheetEnding) := by
  rw [orphans, List.mem_filter, List.mem_mergeSort, List.mem_filter] at h
  obtain ⟨⟨hlisted, hending⟩, -⟩ := h
  obtain ⟨location, name, -, -, -, rfl⟩ := exists_of_mem_listing hlisted
  obtain ⟨base, rfl⟩ : sheetEnding <:+ name := by
    simpa [Path.child, Path.name, List.getLast?_concat, List.isSuffixOf_iff_suffix] using hending
  exact ⟨base, rfl⟩

/-- A component beside a stylesheet has its base name exactly if the stylesheet is the
component's. -/
theorem Unlinked.hasComponent_iff_exists (h : world.Unlinked) (hbase : base ≠ []) :
    hasComponent world directory base = true ↔
      ∃ component ∈ world.listing directory, component.isComponent = true ∧
        component.moduleSheet = .ok (directory.child (base ++ sheetEnding)) := by
  rw [hasComponent_iff]
  constructor
  · rintro ⟨suffix, hsuffix, hexists⟩
    have hsplit := Path.splitName_component hbase hsuffix
    have hname : (directory.child (base ++ suffix)).name = base ++ suffix := by
      rw [Path.name, Path.child, List.getLast?_concat, Option.getD_some]
    refine ⟨_, (h.mem_listing_iff (isEntryName_component hsuffix)).mpr hexists, ?_, ?_⟩
    · rw [Path.isComponent, Path.suffix, hname, hsplit]
      exact List.contains_iff_mem.mpr hsuffix
    · rw [Path.moduleSheet, Path.stem, hname, hsplit]
      simp [Path.withName?, Path.child, Path.parent]
  · rintro ⟨component, hlisted, hcomponent, hsheet⟩
    obtain ⟨location, name, -, -, -, rfl⟩ := exists_of_mem_listing hlisted
    obtain ⟨suffix, hsuffix, he⟩ := Path.exists_suffix_of_moduleSheet hcomponent hsheet
    rw [he] at hlisted
    exact ⟨suffix, hsuffix, (h.mem_listing_iff (isEntryName_component hsuffix)).mp hlisted⟩

/-- A stylesheet with a base name is an orphan exactly if it is listed and is the stylesheet of no
component in its directory. -/
theorem Unlinked.mem_orphans_iff (h : world.Unlinked) (hbase : base ≠ []) :
    directory.child (base ++ sheetEnding) ∈ world.orphans directory ↔
      directory.child (base ++ sheetEnding) ∈ world.listing directory ∧
        ∀ component ∈ world.listing directory, ¬ (component.isComponent = true ∧
          component.moduleSheet = .ok (directory.child (base ++ sheetEnding))) := by
  rw [mem_orphans_of_hasComponent_iff, ← Bool.not_eq_true, h.hasComponent_iff_exists hbase]
  simp only [not_exists, not_and]

/-- Whatever the files are, names that can be followed from a place lead to one place. -/
theorem walk_unique {store other : Store} {start reached place : Location} {names : List Text}
    (h : walk store start names = .ok reached) (h' : walk other start names = .ok place) :
    place = reached := by
  induction names generalizing start with
  | nil => exact (Except.ok.inj h').symm.trans (Except.ok.inj h)
  | cons name names ih =>
    cases hd : store.hasDirectory start with
    | false => exact absurd h (walk_cons_of_not_directory hd name names)
    | true =>
      cases hd' : other.hasDirectory start with
      | false => exact absurd h' (walk_cons_of_not_directory hd' name names)
      | true =>
        rw [walk_cons_of_directory hd] at h
        rw [walk_cons_of_directory hd'] at h'
        split at h
        · exact ih h (by simpa [*] using h')
        · split at h
          · exact ih h (by simpa [*] using h')
          · exact ih h (by simpa [*] using h')

/-- Whatever the files are, a path that can be followed leads to one place. -/
theorem locate_unique (hhere : after.here = world.here) {place : Location}
    (h : world.locate path = .ok location) (h' : after.locate path = .ok place) :
    place = location := by
  have hstart : after.start path = world.start path := by rw [start, start, hhere]
  rw [locate, hstart] at h'
  exact walk_unique h h'

end World

section Adoption

open Session World

variable {world after : World} {component orphan sheet : Path}

/-- In a renamed world the entry stands at the new name. -/
theorem World.Renamed.store_renamed (h : world.Renamed orphan sheet after) {directory : Location}
    {a b : Text} (ha : world.locate orphan = .ok (directory ++ [a]))
    (hb : world.locate sheet = .ok (directory ++ [b])) :
    world.store.Renamed directory a b after.store := by
  obtain ⟨-, place, first, second, hfirst, hsecond, hstore⟩ := h
  obtain ⟨rfl, hsame⟩ := List.append_inj' (Except.ok.inj (ha.symm.trans hfirst)) rfl
  obtain rfl := List.singleton_inj.mp hsame
  obtain rfl := List.singleton_inj.mp
    (List.append_cancel_left (Except.ok.inj (hb.symm.trans hsecond)))
  exact hstore

/-- Reports do not matter. -/
theorem World.Renamed.of_muted_eq {next : World} (h : world.Renamed orphan sheet next)
    (hafter : after.muted = next.muted) : world.Renamed orphan sheet after := by
  rwa [World.Renamed, here_eq_of_muted_eq hafter, store_eq_of_muted_eq hafter]

/-- Renaming makes no link. -/
theorem World.Renamed.unlinked (h : world.Renamed orphan sheet after) (hworld : world.Unlinked) :
    after.Unlinked := by
  obtain ⟨-, directory, a, b, -, -, hstore⟩ := h
  intro location hf
  have hlink := Store.seen_eq_dangling_iff.mpr hf
  obtain ⟨place, hplace⟩ := hstore.exists_seen (by rw [hlink]; exact Option.some_ne_none _)
  exact hworld place (Store.seen_eq_dangling_iff.mp (hplace.symm.trans hlink))

/-- Orphan and stylesheet have places in one directory. -/
theorem World.Adopts.exists_places (h : world.Adopts component orphan sheet)
    (hworld : world.Unlinked) :
    ∃ directory base stem, world.locate component.parent = .ok directory ∧
      world.store.hasDirectory directory = true ∧
      orphan = component.parent.child (base ++ sheetEnding) ∧
      sheet = component.parent.child (stem ++ sheetEnding) ∧
      hasComponent world component.parent base = false ∧
      world.store.seen (directory ++ [base ++ sheetEnding]) ≠ none ∧
      world.store.seen (directory ++ [stem ++ sheetEnding]) = none := by
  have hmem : orphan ∈ world.orphans component.parent := by
    rw [h.only]
    exact List.mem_cons_self
  obtain ⟨base, rfl⟩ := exists_of_mem_orphans hmem
  obtain ⟨stem, rfl⟩ := Path.eq_sibling_of_moduleSheet h.belongs
  obtain ⟨hlisted, hnone⟩ := mem_orphans_of_hasComponent_iff.mp hmem
  obtain ⟨directory, name, hl, hd, hseen, he⟩ := exists_of_mem_listing hlisted
  obtain rfl : base ++ sheetEnding = name := by simpa [Path.child] using he
  have hfree := hworld.find?_eq_none (locate_child hl hd (sheetName_fits stem).1) h.free
  exact ⟨directory, base, stem, hl, hd, rfl, rfl, hnone, hseen, Store.seen_eq_none_iff.mpr hfree⟩

/-- What stands at an orphan that is adopted can be moved to the place of the stylesheet. -/
theorem World.Adopts.exists_renamed (h : world.Adopts component orphan sheet)
    (hworld : world.Unlinked) :
    ∃ next, world.movePath orphan sheet = .ok next ∧ world.Renamed orphan sheet next := by
  obtain ⟨directory, base, stem, hl, hd, rfl, rfl, -, hseen, hfree⟩ := h.exists_places hworld
  have hsource := locate_child hl hd (sheetName_fits base).1
  have htarget := locate_child hl hd (sheetName_fits stem).1
  exact ⟨_, movePath_eq_ok_iff.mpr ⟨_, _, hsource, htarget, rfl⟩, rfl, _, _, _, hsource, htarget,
    Store.renamed_move hseen hfree⟩

/-- Adopting keeps the tree. -/
theorem World.Adopts.isTree (h : world.Adopts component orphan sheet) (htree : world.store.IsTree)
    (hmove : world.movePath orphan sheet = .ok after) : after.store.IsTree := by
  obtain ⟨directory, a, b, hd, hb, -, -, hstore⟩ := exists_of_adoption h.only h.belongs hmove
  rw [hstore]
  exact htree.move_sibling hd a hb

/-- No orphan is left beside a component that has adopted one. -/
theorem World.Adopts.orphans_eq_nil (h : world.Adopts component orphan sheet)
    (hworld : world.Unlinked) (hrenamed : world.Renamed orphan sheet after)
    (hcomponent : component.isComponent = true) (hthere : world.pathExists component = true) :
    after.orphans component.parent = [] := by
  obtain ⟨directory, base, stem, hl, hd, rfl, rfl, -, hseen, -⟩ := h.exists_places hworld
  have hstore := hrenamed.store_renamed (locate_child hl hd (sheetName_fits base).1)
    (locate_child hl hd (sheetName_fits stem).1)
  rw [List.eq_nil_iff_forall_not_mem]
  intro path hpath
  obtain ⟨other, rfl⟩ := exists_of_mem_orphans hpath
  obtain ⟨hlisted, hnone⟩ := mem_orphans_of_hasComponent_iff.mp hpath
  obtain ⟨place, name, hl', hd', hseen', he⟩ := exists_of_mem_listing hlisted
  obtain rfl : other ++ sheetEnding = name := by simpa [Path.child] using he
  obtain rfl : place = directory := locate_unique hrenamed.1 hl hl'
  -- Components are not renamed, so the stylesheet had none before either.
  have hbefore : hasComponent world component.parent other = false := by
    rw [← Bool.not_eq_true, hasComponent_iff] at hnone ⊢
    rintro ⟨suffix, hsuffix, hexists⟩
    refine hnone ⟨suffix, hsuffix, ?_⟩
    obtain ⟨place, hplace, hseen⟩ := hworld.pathExists_iff.mp hexists
    obtain rfl := Except.ok.inj
      (hplace.symm.trans (locate_child hl hd (isEntryName_component hsuffix)))
    refine (hrenamed.unlinked hworld).pathExists_iff.mpr
      ⟨_, locate_child hl' hd' (isEntryName_component hsuffix), ?_⟩
    rwa [hstore.seen_sibling (component_ne_sheet hsuffix) (component_ne_sheet hsuffix)]
  by_cases hstem : other = stem
  · obtain ⟨suffix, hsuffix, he⟩ := Path.exists_suffix_of_moduleSheet hcomponent h.belongs
    rw [he, ← hstem] at hthere
    rw [hasComponent_iff.mpr ⟨suffix, hsuffix, hthere⟩] at hbefore
    cases hbefore
  by_cases hbase : other = base
  · rw [hbase] at hseen'
    have hleft := hstore.leaves []
    rw [List.append_nil] at hleft
    exact hseen' hleft
  · rw [hstore.seen_sibling (by simpa using hbase) (by simpa using hstem)] at hseen'
    have hmem := mem_orphans_of_hasComponent_iff.mpr ⟨mem_listing_of_seen hl hd hseen', hbefore⟩
    rw [h.only, List.mem_singleton] at hmem
    exact hbase (by simpa [Path.child] using hmem)

/-- Adopting moves the orphan if there is one to adopt, and changes nothing if not. -/
theorem adoptOrphan_cases (hworld : world.Unlinked) {outcome : Except Fault (Option Path)}
    (h : (adoptOrphan component).exec world = (outcome, after)) :
    (∃ orphan sheet next, world.Adopts component orphan sheet ∧ outcome = .ok (some sheet) ∧
        world.movePath orphan sheet = .ok next ∧ after.muted = next.muted) ∨
      ((∀ orphan sheet, ¬ world.Adopts component orphan sheet) ∧
        (∀ sheet, outcome ≠ .ok (some sheet)) ∧ after.muted = world.muted) := by
  have hlook : (look (·.orphans component.parent)).exec world =
      (.ok (world.orphans component.parent), world) := exec_look _ world
  rw [adoptOrphan, exec_bind hlook] at h
  have hstill : ∀ {value : Option Path} {next : World},
      (Except.ok value, next) = (outcome, after) → value = none → next.muted = world.muted →
      (∀ orphan sheet, ¬ world.Adopts component orphan sheet) →
      (∀ orphan sheet, ¬ world.Adopts component orphan sheet) ∧
        (∀ sheet, outcome ≠ .ok (some sheet)) ∧ after.muted = world.muted := by
    rintro value next he rfl hmuted hnone
    obtain ⟨rfl, rfl⟩ := Prod.mk.inj he
    exact ⟨hnone, by simp, hmuted⟩
  rcases horphans : world.orphans component.parent with _ | ⟨orphan, _ | ⟨second, rest⟩⟩
  · rw [horphans] at h
    refine Or.inr (hstill h rfl rfl fun orphan sheet hadopts => ?_)
    cases horphans.symm.trans hadopts.only
  · rw [horphans] at h
    cases hsheet : component.moduleSheet with
    | error fault =>
      rw [hsheet] at h
      obtain ⟨rfl, rfl⟩ := Prod.mk.inj h
      refine Or.inr ⟨fun orphan sheet hadopts => ?_, by simp, rfl⟩
      cases hsheet.symm.trans hadopts.belongs
    | ok sheet =>
      have hexists : (look (·.pathExists sheet)).exec world =
          (.ok (world.pathExists sheet), world) := exec_look _ world
      simp only at h
      rw [exec_bind (Performs.lift_ok hsheet world).ends, exec_bind hexists] at h
      cases hthere : world.pathExists sheet with
      | true =>
        rw [hthere] at h
        refine Or.inr (hstill h rfl rfl fun orphan other hadopts => ?_)
        obtain rfl := Except.ok.inj (hsheet.symm.trans hadopts.belongs)
        cases hthere.symm.trans hadopts.free
      | false =>
        have hadopts : world.Adopts component orphan sheet := ⟨horphans, hsheet, hthere⟩
        obtain ⟨next, hmove, -⟩ := hadopts.exists_renamed hworld
        rw [hthere] at h
        simp only [Bool.false_eq_true, if_false] at h
        rw [exec_bind (exec_movePath hmove), exec_bind (Performs.log ..).ends] at h
        obtain ⟨rfl, rfl⟩ := Prod.mk.inj h
        exact Or.inl ⟨orphan, sheet, next, hadopts, rfl, hmove, rfl⟩
  · rw [horphans] at h
    refine Or.inr (hstill h rfl rfl fun orphan sheet hadopts => ?_)
    cases horphans.symm.trans hadopts.only

/-- A stylesheet with a base name is an orphan exactly if it is that of no component beside it. A
component tells a new path exactly if it has adopted an orphan, and otherwise has changed nothing.
The orphan has been renamed to the place of the component's stylesheet, where nothing stood, and no
other orphan is beside the component if it is there. -/
theorem adoptOrphan_renames (hworld : world.Unlinked) {outcome : Except Fault (Option Path)}
    (h : (adoptOrphan component).exec world = (outcome, after)) :
    (∀ directory base, base ≠ [] →
      (directory.child (base ++ sheetEnding) ∈ world.orphans directory ↔
        directory.child (base ++ sheetEnding) ∈ world.listing directory ∧
          ∀ other ∈ world.listing directory, ¬ (other.isComponent = true ∧
            other.moduleSheet = .ok (directory.child (base ++ sheetEnding))))) ∧
    ((∃ sheet, outcome = .ok (some sheet)) ↔ ∃ orphan sheet, world.Adopts component orphan sheet) ∧
    ((∀ sheet, outcome ≠ .ok (some sheet)) → after.muted = world.muted) ∧
    ∀ sheet, outcome = .ok (some sheet) → ∃ orphan, world.Adopts component orphan sheet ∧
      world.Renamed orphan sheet after ∧
      (component.isComponent = true → world.pathExists component = true →
        after.orphans component.parent = []) := by
  refine ⟨fun directory base => hworld.mem_orphans_iff, ?_⟩
  rcases adoptOrphan_cases hworld h with
    ⟨orphan, sheet, next, hadopts, rfl, hmove, hafter⟩ | ⟨hnone, hother, hafter⟩
  · have hrenamed : world.Renamed orphan sheet after := by
      obtain ⟨moved, hmoved, hrenamed⟩ := hadopts.exists_renamed hworld
      obtain rfl := Except.ok.inj (hmoved.symm.trans hmove)
      exact hrenamed.of_muted_eq hafter
    refine ⟨⟨fun _ => ⟨orphan, sheet, hadopts⟩, fun _ => ⟨sheet, rfl⟩⟩,
      fun hother => absurd rfl (hother sheet), fun other he => ?_⟩
    obtain rfl := Option.some.inj (Except.ok.inj he)
    exact ⟨orphan, hadopts, hrenamed, hadopts.orphans_eq_nil hworld hrenamed⟩
  · refine ⟨⟨fun ⟨sheet, he⟩ => absurd he (hother sheet), fun ⟨orphan, sheet, hadopts⟩ =>
      absurd hadopts (hnone orphan sheet)⟩, fun _ => hafter, fun sheet he => ?_⟩
    exact absurd he (hother sheet)

end Adoption

namespace Runner

open World

/-- The files stand in their directories. -/
theorem isTree_adoptionWorld : adoptionWorld.IsTree where
  toRegular := by
    refine .of_entries (fun e he => ?_) rfl
    simp only [adoptionWorld, List.mem_cons, List.not_mem_nil, or_false] at he
    rcases he with rfl | rfl | rfl <;> simp
  tree := .of_entries (by decide +kernel)

/-- The new component adopts the stylesheet that was left behind. -/
theorem adopts_adoptionWorld :
    adoptionWorld.Adopts ⟨.relative, ["src".toList, "New.jsx".toList]⟩
      ⟨.relative, ["src".toList, "Old.module.css".toList]⟩
      ⟨.relative, ["src".toList, "New.module.css".toList]⟩ where
  only := by
    have hsheets : (adoptionWorld.listing ⟨.relative, ["src".toList]⟩).filter
        (sheetEnding.isSuffixOf ·.name) =
          [⟨.relative, ["src".toList, "Old.module.css".toList]⟩] := by decide +kernel
    have hparent : Path.parent ⟨.relative, ["src".toList, "New.jsx".toList]⟩ =
        ⟨.relative, ["src".toList]⟩ := rfl
    rw [hparent, orphans, hsheets, List.mergeSort_singleton]
    decide +kernel
  belongs := rfl
  free := by decide +kernel

end Runner

/-- A new component takes over the stylesheet beside it that was left behind. -/
theorem adoptOrphan_renames_left :
    Runner.adoptionWorld.Unlinked ∧ ∃ after,
      (adoptOrphan ⟨.relative, ["src".toList, "New.jsx".toList]⟩).exec Runner.adoptionWorld =
        (.ok (some ⟨.relative, ["src".toList, "New.module.css".toList]⟩), after) ∧
      Runner.adoptionWorld.Renamed ⟨.relative, ["src".toList, "Old.module.css".toList]⟩
        ⟨.relative, ["src".toList, "New.module.css".toList]⟩ after ∧
      after.orphans ⟨.relative, ["src".toList]⟩ = [] := by
  have hworld : Runner.adoptionWorld.Unlinked := Runner.isTree_adoptionWorld.no_links
  have hadopts := Runner.adopts_adoptionWorld
  obtain ⟨outcome, after, h⟩ : ∃ outcome after,
      (adoptOrphan ⟨.relative, ["src".toList, "New.jsx".toList]⟩).exec Runner.adoptionWorld =
        (outcome, after) := ⟨_, _, rfl⟩
  obtain ⟨-, htold, -, hadopted⟩ := adoptOrphan_renames hworld h
  obtain ⟨sheet, rfl⟩ := htold.mpr ⟨_, _, hadopts⟩
  obtain ⟨orphan, hother, hrenamed, hleft⟩ := hadopted sheet rfl
  obtain rfl := Except.ok.inj (hother.belongs.symm.trans hadopts.belongs)
  obtain rfl := List.singleton_inj.mp (hother.only.symm.trans hadopts.only)
  exact ⟨hworld, after, h, hrenamed, hleft (by decide +kernel) (by decide +kernel)⟩

end StyleModules
