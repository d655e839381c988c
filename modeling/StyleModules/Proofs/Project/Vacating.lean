import StyleModules.Proofs.Project.Adoption

/-!
# Places that are vacated

Files that are written let a world grow: nothing goes, and something comes only where the paths lead
(`World.Grows`). An orphan that is adopted vacates its place. Of a first world there is left, after
any number of such changes, all that stood neither at nor below a vacated place (`World.Vacated`),
as long as the changes are made for components that stood there in the beginning: a component is
never adopted, so it stands as long as its directory can be reached, and neither its own place nor
that of its stylesheet is ever filled again. Therefore what was below a directory is still there
exactly if its path crosses no vacated place (`World.Vacated.mem_descendants_iff`).
-/

namespace StyleModules

namespace World

variable {first world after : World} {target path other : Path} {location place : Location}

section Ways

variable {store other : Store} {start reached : Location} {front back names : List Text}

/-- Names that can be followed lead to a place on the way, from where the others can be followed. -/
theorem exists_of_walk_append (h : walk store start (front ++ back) = .ok reached) :
    ∃ location, walk store start front = .ok location ∧ walk store location back = .ok reached ∧
      (back ≠ [] → store.hasDirectory location = true) := by
  rw [walk_append] at h
  split at h
  · cases h
  · next location hfront =>
    refine ⟨location, hfront, h, fun hne => ?_⟩
    obtain ⟨name, rest, rfl⟩ := List.exists_cons_of_ne_nil hne
    cases hd : store.hasDirectory location with
    | true => rfl
    | false => exact absurd h (walk_cons_of_not_directory hd name rest)

/-- Names can be followed where all places on the way are directories. -/
theorem walk_of_directories (h : walk store start names = .ok reached)
    (hsame : ∀ front back location, names = front ++ back → back ≠ [] →
      walk store start front = .ok location → other.hasDirectory location = true) :
    walk other start names = .ok reached := by
  induction names using List.reverseRecOn generalizing reached with
  | nil => exact h
  | append_singleton front name ih =>
    obtain ⟨location, hfront, hd⟩ := exists_of_walk_concat h
    have hreached := ih hfront fun first second place hnames _ =>
      hsame first (second ++ [name]) place (by rw [hnames, List.append_assoc]) (by simp)
    have hd' := hsame front [name] location rfl (by simp) hfront
    rw [walk_append, hfront] at h
    rw [walk_append, hreached]
    dsimp only at h ⊢
    rw [walk_cons_of_directory hd] at h
    rw [walk_cons_of_directory hd']
    exact h

end Ways

/-- The path leads through an entry at or below the place, or to one. -/
def Crosses (world : World) (path : Path) (place : Location) : Prop :=
  ∃ front back location, path.names = front ++ back ∧
    world.locate { path with names := front } = .ok location ∧
    world.store.seen location ≠ none ∧ place <+: location

section Growing

/-- Directories stay, nothing goes, and what comes stands at one of the places. -/
structure Grows (world : World) (places : Location → Prop) (after : World) : Prop where
  here : after.here = world.here
  directories : world.store.SameDirectories after.store
  unlinked : world.Unlinked → after.Unlinked
  stays : ∀ location, world.store.seen location ≠ none → after.store.seen location ≠ none
  comes : ∀ location, after.store.seen location ≠ none → world.store.seen location = none →
    places location

/-- A world grows from itself. -/
theorem Grows.refl (world : World) (places : Location → Prop) : world.Grows places world :=
  ⟨rfl, fun _ => rfl, id, fun _ => id, fun _ hseen hnone => absurd hnone hseen⟩

/-- The change is a write to one of the paths. -/
def WritesTo (paths : Path → Prop) (_ : World) : Change → Prop
  | .write path _ => paths path
  | .move _ _ => False

/-- Writing files lets the world grow at the places to which the paths lead. -/
theorem Reaches.grows {paths : Path → Prop} (h : Reaches (WritesTo paths) world after) :
    world.Grows (fun location => ∃ path, paths path ∧ world.locate path = .ok location) after := by
  refine h.keeps _ (fun mid notice hmid => ⟨hmid.here, hmid.directories, hmid.unlinked, hmid.stays,
    hmid.comes⟩) (fun mid change next hallowed hperform hmid => ?_) (.refl ..)
  cases change with
  | move source target => exact False.elim hallowed
  | write path t =>
    obtain ⟨place, hl, -⟩ := writeBytes_eq_ok_iff.mp hperform
    have hwrote := wrote_of_writeBytes hperform hl
    refine ⟨hwrote.here.trans hmid.here, hmid.directories.trans hwrote.directories,
      fun hworld location => ?_, fun location hseen => ?_, fun location hseen hnone => ?_⟩
    · rw [ne_eq, ← Store.seen_eq_dangling_iff, hwrote.seen]
      split
      · simp
      · rw [Store.seen_eq_dangling_iff]
        exact hmid.unlinked hworld location
    · rw [hwrote.seen]
      split
      · simp
      · exact hmid.stays location hseen
    · rw [hwrote.seen] at hseen
      split at hseen
      · next he =>
        rw [he]
        exact ⟨path, hallowed, (locate_eq_ok_congr hmid.here hmid.directories path).mp hl⟩
      · exact hmid.comes location hseen hnone

end Growing

/-- What has become of a first world from which entries have been taken, at the places of
stylesheets that belong to no component. -/
structure Vacated (first : World) (places : Location → Prop) (world : World) : Prop where
  here : world.here = first.here
  tree : world.store.IsTree
  unlinked : world.Unlinked
  /-- What stood is gone exactly if it stood at or below one of the places. -/
  gone_iff : ∀ location, first.store.seen location ≠ none →
    (world.store.seen location = none ↔ ∃ place, places place ∧ place <+: location)
  /-- What still stands is a directory if it was one. -/
  directories : ∀ location, first.store.seen location ≠ none →
    world.store.seen location ≠ none →
      world.store.hasDirectory location = first.store.hasDirectory location
  /-- The places are those of stylesheets, in directories that were there, and there is no component
  to which they belong. -/
  bare : ∀ place, places place → ∃ directory base, place = directory ++ [base ++ sheetEnding] ∧
    first.store.seen directory ≠ none ∧ ∀ suffix ∈ componentSuffixes,
      world.store.seen (directory ++ [base ++ suffix]) = none

/-- From a tree nothing has been taken at first. -/
theorem IsTree.vacated (h : first.IsTree) : first.Vacated (fun _ => False) first where
  here := rfl
  tree := h.tree
  unlinked := h.no_links
  gone_iff location hseen := by simp [hseen]
  directories _ _ _ := rfl
  bare _ := False.elim

namespace Vacated

variable {places : Location → Prop}

/-- The places from which entries have been taken may be told otherwise. -/
theorem congr (h : first.Vacated places world) {more : Location → Prop}
    (hmore : ∀ place, places place ↔ more place) : first.Vacated more world := by
  obtain rfl : places = more := funext fun place => propext (hmore place)
  exact h

/-- Reports do not matter. -/
theorem of_muted_eq (h : first.Vacated places world) (hmuted : after.muted = world.muted) :
    first.Vacated places after := by
  have hstore := store_eq_of_muted_eq hmuted
  refine ⟨(here_eq_of_muted_eq hmuted).trans h.here, ?_, ?_, ?_, ?_, ?_⟩
  · rw [hstore]
    exact h.tree
  · rw [Unlinked, hstore]
    exact h.unlinked
  · rw [hstore]
    exact h.gone_iff
  · rw [hstore]
    exact h.directories
  · rw [hstore]
    exact h.bare

section Components

variable {directory : Location} {name stem suffix : Text} {component : Path}

/-- What is gone from a directory that was there, and can still be reached, was taken away
itself. -/
theorem places_of_gone (h : first.Vacated places world)
    (hdirectory : first.store.seen directory ≠ none)
    (hd : world.store.hasDirectory directory = true)
    (hstood : first.store.seen (directory ++ [name]) ≠ none)
    (hnone : world.store.seen (directory ++ [name]) = none) : places (directory ++ [name]) := by
  obtain ⟨place, hplace, hprefix⟩ := (h.gone_iff _ hstood).mp hnone
  rcases List.prefix_concat_iff.mp hprefix with rfl | hprefix
  · exact hplace
  · have hgone := (h.gone_iff directory hdirectory).mpr ⟨place, hplace, hprefix⟩
    exact absurd hgone (Store.seen_ne_none_of_hasDirectory hd)

/-- A component in a directory that can be reached is still there, and so is its stylesheet. -/
theorem stays_of_component (h : first.Vacated places world)
    (hdirectory : first.store.seen directory ≠ none)
    (hd : world.store.hasDirectory directory = true) (hsuffix : suffix ∈ componentSuffixes)
    (hstood : first.store.seen (directory ++ [stem ++ suffix]) ≠ none) :
    world.store.seen (directory ++ [stem ++ suffix]) ≠ none ∧
      (first.store.seen (directory ++ [stem ++ sheetEnding]) ≠ none →
        world.store.seen (directory ++ [stem ++ sheetEnding]) ≠ none) := by
  have hcomponent : world.store.seen (directory ++ [stem ++ suffix]) ≠ none := by
    intro hnone
    obtain ⟨front, base, he, -⟩ := h.bare _ (h.places_of_gone hdirectory hd hstood hnone)
    exact component_place_ne_sheet hsuffix he
  refine ⟨hcomponent, fun hsheet hnone => ?_⟩
  obtain ⟨front, base, he, -, hbare⟩ := h.bare _ (h.places_of_gone hdirectory hd hsheet hnone)
  obtain ⟨rfl, hname⟩ := List.append_inj' he rfl
  obtain rfl := List.append_cancel_right (List.singleton_inj.mp hname)
  exact hcomponent (hbare suffix hsuffix)

/-- The names beside a component that stood are in a directory that was there. -/
theorem exists_directory (h : first.Vacated places world) (hfirst : first.Unlinked)
    (hcomponent : component.isComponent = true) (hstood : first.pathExists component = true) :
    ∃ directory stem, first.store.seen directory ≠ none ∧
      component.moduleSheet = .ok (component.parent.child (stem ++ sheetEnding)) ∧
      ∃ suffix ∈ componentSuffixes, component = component.parent.child (stem ++ suffix) ∧
        first.store.seen (directory ++ [stem ++ suffix]) ≠ none ∧
        ∀ {name place}, isEntryName name = true →
          world.locate (component.parent.child name) = .ok place →
          world.store.hasDirectory directory = true ∧ place = directory ++ [name] := by
  obtain ⟨stem, suffix, hsuffix, hpath, hsheet⟩ := Path.exists_of_isComponent hcomponent
  obtain ⟨location, hl, hseen⟩ := hfirst.pathExists_iff.mp hstood
  rw [hpath] at hl
  obtain ⟨directory, hparent, hd, rfl⟩ := exists_of_locate_child hl (isEntryName_component hsuffix)
  refine ⟨directory, stem, Store.seen_ne_none_of_hasDirectory hd, hsheet, suffix, hsuffix, hpath,
    hseen, fun {name place} hname hlocate => ?_⟩
  obtain ⟨front, hfront, hd', rfl⟩ := exists_of_locate_child hlocate hname
  obtain rfl := locate_unique h.here hparent hfront
  exact ⟨hd', rfl⟩

/-- The places of a component that stood, and of its stylesheet, are filled only where nothing
stood, and only by the stylesheet. -/
theorem seen_of_owns (h : first.Vacated places world) (hfirst : first.Unlinked)
    (hcomponent : component.isComponent = true) (hstood : first.pathExists component = true)
    (howns : component.Owns other) (hplace : world.locate other = .ok place)
    (hnone : world.store.seen place = none) :
    first.store.seen place = none ∧
      ∃ directory stem, place = directory ++ [stem ++ sheetEnding] := by
  obtain ⟨directory, stem, hdirectory, hsheet, suffix, hsuffix, hpath, hseen, hbeside⟩ :=
    h.exists_directory hfirst hcomponent hstood
  rcases howns with rfl | hother
  · rw [hpath] at hplace
    obtain ⟨hd, rfl⟩ := hbeside (isEntryName_component hsuffix) hplace
    exact absurd hnone (h.stays_of_component hdirectory hd hsuffix hseen).1
  · obtain rfl := Except.ok.inj (hsheet.symm.trans hother)
    obtain ⟨hd, rfl⟩ := hbeside (sheetName_fits stem).1 hplace
    refine ⟨?_, directory, stem, rfl⟩
    by_contra hsheetStood
    exact (h.stays_of_component hdirectory hd hsuffix hseen).2 hsheetStood hnone

end Components

section Changes

variable {component orphan sheet : Path}

/-- Where only stylesheets come, and only where nothing stood, nothing is vacated. -/
theorem grows (h : first.Vacated places world) {came : Location → Prop}
    (hgrows : world.Grows came after)
    (hcame : ∀ location, came location → world.store.seen location = none →
      first.store.seen location = none ∧
        ∃ directory stem, location = directory ++ [stem ++ sheetEnding])
    (htree : after.store.IsTree) : first.Vacated places after := by
  have hsame : ∀ location, first.store.seen location ≠ none →
      (after.store.seen location = none ↔ world.store.seen location = none) := by
    intro location hstood
    constructor
    · intro hnone
      by_contra hseen
      exact hgrows.stays location hseen hnone
    · intro hnone
      by_contra hseen
      exact hstood (hcame location (hgrows.comes location hseen hnone) hnone).1
  refine ⟨hgrows.here.trans h.here, htree, hgrows.unlinked h.unlinked, fun location hstood => ?_,
    fun location hstood hseen => ?_, fun place hplace => ?_⟩
  · rw [hsame location hstood, h.gone_iff location hstood]
  · rw [hgrows.directories, h.directories location hstood ((hsame location hstood).not.mp hseen)]
  · obtain ⟨directory, base, rfl, hdirectory, hbare⟩ := h.bare place hplace
    refine ⟨directory, base, rfl, hdirectory, fun suffix hsuffix => ?_⟩
    have hnone := hbare suffix hsuffix
    by_contra hseen
    obtain ⟨-, front, stem, he⟩ := hcame _ (hgrows.comes _ hseen hnone) hnone
    exact component_place_ne_sheet hsuffix he

/-- Renaming a stylesheet that no component has, to a name at which nothing stood, vacates its
place. -/
theorem renamed {directory : Location} {base stem : Text} (h : first.Vacated places world)
    (hstore : world.store.Renamed directory (base ++ sheetEnding) (stem ++ sheetEnding) after.store)
    (hdirectory : first.store.seen directory ≠ none)
    (hclear : ∀ location, first.store.seen location ≠ none →
      ¬ directory ++ [stem ++ sheetEnding] <+: location)
    (hbare : ∀ suffix ∈ componentSuffixes, world.store.seen (directory ++ [base ++ suffix]) = none)
    (hhere : after.here = world.here) (htree : after.store.IsTree) (hlinks : after.Unlinked) :
    first.Vacated (fun place => places place ∨ place = directory ++ [base ++ sheetEnding])
      after := by
  refine ⟨hhere.trans h.here, htree, hlinks, fun location hstood => ?_,
    fun location hstood hseen => ?_, ?_⟩
  · by_cases ha : directory ++ [base ++ sheetEnding] <+: location
    · obtain ⟨below, rfl⟩ := ha
      exact iff_of_true (hstore.leaves below) ⟨_, Or.inr rfl, List.prefix_append ..⟩
    · rw [hstore.elsewhere location ha (hclear location hstood), h.gone_iff location hstood]
      constructor
      · rintro ⟨place, hplace, hprefix⟩
        exact ⟨place, Or.inl hplace, hprefix⟩
      · rintro ⟨place, hplace | rfl, hprefix⟩
        · exact ⟨place, hplace, hprefix⟩
        · exact absurd hprefix ha
  · have ha : ¬ directory ++ [base ++ sheetEnding] <+: location := by
      rintro ⟨below, rfl⟩
      exact hseen (hstore.leaves below)
    have hsame := hstore.elsewhere location ha (hclear location hstood)
    rw [hsame] at hseen
    rw [Store.hasDirectory_eq, hsame, ← Store.hasDirectory_eq, h.directories location hstood hseen]
  · rintro place (hplace | rfl)
    · obtain ⟨front, other, rfl, hfront, hnone⟩ := h.bare place hplace
      refine ⟨front, other, rfl, hfront, fun suffix hsuffix => ?_⟩
      by_cases ha : directory ++ [base ++ sheetEnding] <+: front ++ [other ++ suffix]
      · obtain ⟨below, he⟩ := ha
        rw [← he]
        exact hstore.leaves below
      · rw [hstore.elsewhere _ ha, hnone suffix hsuffix]
        intro hb
        rcases List.prefix_concat_iff.mp hb with he | hb
        · exact component_place_ne_sheet hsuffix he.symm
        · exact hclear front hfront hb
    · refine ⟨directory, base, rfl, hdirectory, fun suffix hsuffix => ?_⟩
      rw [hstore.seen_sibling (component_ne_sheet hsuffix) (component_ne_sheet hsuffix)]
      exact hbare suffix hsuffix

/-- Where a component that stood adopts an orphan, the place of the orphan is vacated. -/
theorem adopts (h : first.Vacated places world) (hfirst : first.IsTree)
    (hcomponent : component.isComponent = true) (hstood : first.pathExists component = true)
    (hadopts : world.Adopts component orphan sheet)
    (hmove : world.movePath orphan sheet = .ok after) :
    first.Vacated (fun place => places place ∨ world.locate orphan = .ok place) after := by
  have htree := hadopts.isTree h.tree hmove
  obtain ⟨next, hnext, hrenamed⟩ := hadopts.exists_renamed h.unlinked
  obtain rfl := Except.ok.inj (hnext.symm.trans hmove)
  obtain ⟨directory, base, stem, hparent, hd, rfl, rfl, hnone, -, hfree⟩ :=
    hadopts.exists_places h.unlinked
  have hsource := locate_child hparent hd (sheetName_fits base).1
  have htarget := locate_child hparent hd (sheetName_fits stem).1
  have hfresh :=
    (h.seen_of_owns hfirst.no_links hcomponent hstood (Or.inr hadopts.belongs) htarget hfree).1
  have hdirectory : first.store.seen directory ≠ none := by
    obtain ⟨front, -, hfront, -, -, -, -, -, hbeside⟩ :=
      h.exists_directory hfirst.no_links hcomponent hstood
    obtain ⟨rfl, -⟩ := List.append_inj' (hbeside (sheetName_fits base).1 hsource).2 rfl
    exact hfront
  refine (h.renamed (hrenamed.store_renamed hsource htarget) hdirectory
    (fun location => hfirst.tree.not_prefix_of_seen hfresh)
    (fun suffix => h.unlinked.seen_component hparent hd hnone) hrenamed.1 htree
    (hrenamed.unlinked h.unlinked)).congr fun place => or_congr_right ?_
  rw [hsource, Except.ok.injEq, eq_comm]

end Changes

section Descendants

/-- A path to what is still there crosses none of the places. -/
theorem not_crosses (h : first.Vacated places after) (hpath : path ∈ after.descendants target)
    (hplace : places place) : ¬ first.Crosses path place := by
  obtain ⟨base, names, hbase, hd, -, hseen, rfl⟩ := mem_descendants_iff.mp hpath
  have hl := locate_below h.tree hbase hd hseen
  rintro ⟨front, back, location, hnames, hfront, hstood, hprefix⟩
  have hgone := (h.gone_iff location hstood).mpr ⟨place, hplace, hprefix⟩
  rw [locate, hnames] at hl
  obtain ⟨reached, hreached, hrest, hdirectory⟩ := exists_of_walk_append hl
  obtain rfl := locate_unique h.here hfront hreached
  by_cases hback : back = []
  · rw [hback] at hrest
    rw [← Except.ok.inj hrest] at hseen
    exact hseen hgone
  · exact Store.seen_ne_none_of_hasDirectory (hdirectory hback) hgone

/-- What was below the target directory is still there exactly if its path crosses none of the
places. -/
theorem mem_descendants_iff (h : first.Vacated places after) (hfirst : first.IsTree)
    (hpath : path ∈ first.descendants target) :
    path ∈ after.descendants target ↔ ∀ place, places place → ¬ first.Crosses path place := by
  refine ⟨fun hstays place => h.not_crosses hstays, fun hclear => ?_⟩
  obtain ⟨base, names, hbase, hd, hne, hseen, rfl⟩ := World.mem_descendants_iff.mp hpath
  -- All places on the way stand as they did.
  have hstays : ∀ front back location, target.names ++ names = front ++ back →
      first.locate { target with names := front } = .ok location →
      first.store.seen location ≠ none → after.store.seen location ≠ none := by
    intro front back location hnames hfront hstood hnone
    obtain ⟨place, hplace, hprefix⟩ := (h.gone_iff location hstood).mp hnone
    exact hclear place hplace ⟨front, back, location, hnames, hfront, hstood, hprefix⟩
  have hdirectories : ∀ front back location, target.names ++ names = front ++ back →
      first.locate { target with names := front } = .ok location →
      first.store.hasDirectory location = true → after.store.hasDirectory location = true := by
    intro front back location hnames hfront hdirectory
    have hstood := Store.seen_ne_none_of_hasDirectory hdirectory
    rw [h.directories location hstood (hstays front back location hnames hfront hstood), hdirectory]
  refine World.mem_descendants_iff.mpr ⟨base, names, ?_, hdirectories _ names base rfl hbase hd,
    hne, hstays _ [] _ (List.append_nil _).symm (hfirst.locate_below hbase hd hseen) hseen, rfl⟩
  have hstart : after.start target = first.start target := by rw [start, start, h.here]
  rw [locate, hstart]
  refine walk_of_directories hbase fun front back location hnames hback hfront => ?_
  rw [locate, hnames] at hbase
  obtain ⟨reached, hreached, -, hdirectory⟩ := exists_of_walk_append hbase
  obtain rfl := Except.ok.inj (hreached.symm.trans hfront)
  exact hdirectories front (back ++ names) reached (by rw [hnames, List.append_assoc]) hfront
    (hdirectory hback)

end Descendants

end Vacated

end World

end StyleModules
