import StyleModules.Proofs.Project.Vacating

/-!
# Paths that vanish during a poll

A poll handles the pending files one after the other. A new component that adopts an orphan takes
it away from its place (`Runner.TakesFrom`); nothing else that a poll does takes anything away, and
what is gone does not come back (`Runner.handleEach_vacates`). The poll looks up the stamps of what
it has written, but the old path of an orphan is not among them. So the snapshot that a poll returns
holds a path that is gone exactly if the path was watched, has not been written, and crosses the
place of an orphan that the poll has adopted (`Runner.held_vanished_iff`).
-/

namespace StyleModules

namespace Runner

open Session World

variable {runner : Runner} {first world mid after : World} {path : Path} {isNew : Bool}
  {places : Location → Prop} {told : List Path}

/-- Handling the file takes away what stands at the place: the file is a new component, stylesheets
are generated, and the component adopts the orphan that stands there. -/
structure TakesFrom (runner : Runner) (path : Path) (isNew : Bool) (world : World)
    (place : Location) : Prop where
  new : isNew = true
  generate : runner.config.modes.generate = true
  component : path.isComponent = true
  adopts : ∃ orphan sheet, world.Adopts path orphan sheet ∧ world.locate orphan = .ok place

/-- Handling the files one after the other takes away what stands at the place. -/
def Vacates (runner : Runner) : List (Path × Bool) → World → Location → Prop
  | [], _, _ => False
  | (path, isNew) :: rest, world, place =>
    runner.TakesFrom path isNew world place ∨
      ∃ told next, (runner.handle path isNew).exec world = (.ok told, next) ∧
        runner.Vacates rest next place

section Handling

/-- An adoption takes the entry of an orphan. -/
theorem adopt_vacates (h : first.Vacated places world) (hfirst : first.IsTree)
    (hcomponent : path.isComponent = true) (hstood : first.pathExists path = true)
    {adopted : Option Path}
    (hexec : (if (isNew && runner.config.modes.generate) = true then adoptOrphan path
      else pure none : Session (Option Path)).exec world = (.ok adopted, mid)) :
    first.Vacated (fun place => places place ∨ runner.TakesFrom path isNew world place) mid ∧
      ∀ other ∈ adopted.toList, path.Owns other := by
  have hstill : mid.muted = world.muted → (∀ place, ¬ runner.TakesFrom path isNew world place) →
      first.Vacated (fun place => places place ∨ runner.TakesFrom path isNew world place) mid :=
    fun hmuted hnone => (h.of_muted_eq hmuted).congr fun place => by simp [hnone place]
  split at hexec
  · next hnew =>
    obtain ⟨hnew, hgenerate⟩ := Bool.and_eq_true_iff.mp hnew
    rcases adoptOrphan_cases h.unlinked hexec with
      ⟨orphan, sheet, next, hadopts, he, hmove, hmuted⟩ | ⟨hnone, hother, hmuted⟩
    · obtain rfl := Except.ok.inj he
      have hmid := (h.adopts hfirst hcomponent hstood hadopts hmove).of_muted_eq hmuted
      refine ⟨hmid.congr fun place => or_congr_right ⟨fun hplace => ?_, ?_⟩, ?_⟩
      · exact ⟨hnew, hgenerate, hcomponent, orphan, sheet, hadopts, hplace⟩
      · rintro ⟨-, -, -, other, target, hother, hplace⟩
        rwa [List.singleton_inj.mp (hadopts.only.symm.trans hother.only)]
      · simp [Path.Owns, hadopts.belongs]
    · refine ⟨hstill hmuted ?_, ?_⟩
      · rintro place ⟨-, -, -, orphan, sheet, hadopts, -⟩
        exact hnone orphan sheet hadopts
      · cases adopted with
        | none => simp
        | some sheet => exact absurd rfl (hother sheet)
  · next hnew =>
    obtain ⟨he, rfl⟩ := Prod.mk.inj hexec
    obtain rfl := Except.ok.inj he
    refine ⟨hstill rfl ?_, by simp⟩
    rintro place ⟨hnew', hgenerate, -⟩
    exact hnew (by rw [hnew', hgenerate]; rfl)

/-- A sync takes nothing away. -/
theorem sync_vacates (h : first.Vacated places world) (hfirst : first.IsTree)
    (hcomponent : path.isComponent = true) (hstood : first.pathExists path = true)
    (htree : after.store.IsTree) {result : SyncResult}
    (hexec : (runner.sync path).exec world = (.ok result, after)) :
    first.Vacated places after ∧ ∀ other ∈ result.written, path.Owns other := by
  constructor
  · have hkeeps : Keeps (WritesTo path.Owns) (fun _ => True) (runner.sync path) fun _ _ => True :=
      syncComponent_keeps _ _ fun _ _ _ howns => howns
    have hreaches := hkeeps.reaches world trivial
    rw [hexec] at hreaches
    refine h.grows hreaches.grows ?_ htree
    rintro place ⟨other, howns, hplace⟩
    exact h.seen_of_owns hfirst.no_links hcomponent hstood howns hplace
  · obtain ⟨stem, -, -, -, hsheet⟩ := Path.exists_of_isComponent hcomponent
    obtain ⟨outcome, writes, last, hperforms, hrun⟩ :=
      @syncComponent_runs_of_unlinked runner.style runner.config.modes.generate _ _ _ h.unlinked
        hsheet
    obtain ⟨rfl, rfl⟩ := Prod.mk.inj (hexec.symm.trans hperforms.ends)
    exact fun other => hrun.owns_of_mem_written

/-- Laying out a stylesheet takes nothing away, and brings none back that is gone. -/
theorem format_vacates (h : first.Vacated places world) (htree : after.store.IsTree)
    {changed : Bool} {style : Style}
    (hexec : (formatFile style path).exec world = (.ok changed, after)) :
    first.Vacated places after := by
  cases hread : world.readBytes path with
  | error error =>
    have hperforms : (formatFile style path).Performs world (.ok false) [] _ :=
      formatFile_text style path ▸ (Performs.readText_unreachable hread).bind
        ((Performs.log ..).bind (Performs.pure false _))
    obtain ⟨-, rfl⟩ := Prod.mk.inj (hperforms.ends.symm.trans hexec)
    exact h.of_muted_eq hperforms.muted_eq
  | ok bytes =>
    obtain ⟨location, stamp, hl, hf⟩ := exists_of_readBytes hread
    have hkeeps : Keeps (WritesTo (· = path)) (fun _ => True) (formatFile style path)
        fun _ _ => True := formatFile_keeps style fun _ _ => rfl
    have hreaches := hkeeps.reaches world trivial
    rw [hexec] at hreaches
    refine h.grows hreaches.grows ?_ htree
    rintro place ⟨_, rfl, hplace⟩ hnone
    obtain rfl := Except.ok.inj (hl.symm.trans hplace)
    rw [Store.seen_eq_none_iff, hf] at hnone
    cases hnone

/-- Handling a file that was there takes away what it adopts, and nothing else. -/
theorem handle_vacates (h : first.Vacated places world) (hfirst : first.IsTree)
    (hinside : runner.Inside path) (hstood : first.pathExists path = true)
    (hexec : (runner.handle path isNew).exec world = (.ok told, after)) :
    first.Vacated (fun place => places place ∨ runner.TakesFrom path isNew world place) after ∧
      ∀ other ∈ told, path.Owns other := by
  have htree : after.store.IsTree := by
    have hreaches := (runner.handle_keeps path isNew).reaches world trivial
    rw [hexec] at hreaches
    exact hreaches.keeps (·.store.IsTree) (fun _ _ hmid => hmid)
      (fun _ _ _ hmay hperform => hmay.isTree hinside hperform) h.tree
  rw [handle] at hexec
  split at hexec
  · next hcomponent =>
    rw [← apply_ite (· >>= _)] at hexec
    obtain ⟨adopted, mid, hadopt, hrest⟩ := exists_of_exec_bind hexec
    obtain ⟨result, last, hsync, hreturn⟩ := exists_of_exec_bind hrest
    obtain ⟨hp, rfl⟩ := Prod.mk.inj hreturn
    obtain rfl := Except.ok.inj hp
    obtain ⟨hmid, howned⟩ := adopt_vacates h hfirst hcomponent hstood hadopt
    obtain ⟨hlast, hwritten⟩ := sync_vacates hmid hfirst hcomponent hstood htree hsync
    refine ⟨hlast, fun other ho => ?_⟩
    rcases List.mem_append.mp ho with ho | ho
    · exact howned other ho
    · exact hwritten other ho
  · next hother =>
    have hnone : ∀ place, ¬ runner.TakesFrom path isNew world place := fun place htakes =>
      hother htakes.component
    split at hexec
    · obtain ⟨changed, mid, hformat, hreturn⟩ := exists_of_exec_bind hexec
      obtain ⟨hp, rfl⟩ := Prod.mk.inj hreturn
      obtain rfl := Except.ok.inj hp
      refine ⟨(format_vacates h htree hformat).congr fun place => by simp [hnone place],
        fun other ho => ?_⟩
      split at ho
      · exact Or.inl (List.mem_singleton.mp ho)
      · cases ho
    · obtain ⟨hp, rfl⟩ := Prod.mk.inj hexec
      obtain rfl := Except.ok.inj hp
      exact ⟨h.congr fun place => by simp [hnone place], by simp⟩

/-- What exists has a stamp. -/
theorem stamp?_isSome_of_pathExists (h : world.pathExists path = true) :
    (world.stamp? path).isSome = true := by
  cases hl : world.locate path with
  | error error =>
    rw [World.pathExists, entry_of_locate_error hl] at h
    cases h
  | ok location =>
    rw [pathExists_of_locate hl] at h
    rw [stamp?_of_locate hl]
    cases hf : world.store.find? location with
    | none =>
      rw [hf] at h
      cases h
    | some entry =>
      rw [hf] at h
      exact h

/-- A watched path exists. -/
theorem Watches.pathExists (h : runner.Watches world path) (hworld : world.IsTree) :
    world.pathExists path = true := by
  obtain ⟨base, names, hbase, hd, -, hseen, rfl⟩ := World.mem_descendants_iff.mp h.below
  exact Unlinked.pathExists_iff hworld.no_links |>.mpr
    ⟨_, hworld.locate_below hbase hd hseen, hseen⟩

/-- What is watched is inside. -/
theorem Watches.inside (h : runner.Watches world path) (hworld : world.IsTree) :
    runner.Inside path := ⟨hworld.leadsTo h.below, h.kept⟩

/-- Handling files that were there, one after the other, takes away what they adopt, and nothing
else. -/
theorem handleEach_vacates {items : List (Path × Bool)} (h : first.Vacated places world)
    (hfirst : first.IsTree) (hitems : ∀ item ∈ items, runner.Watches first item.1)
    (hexec : (runner.handleEach items).exec world = (.ok told, after)) :
    first.Vacated (fun place => places place ∨ runner.Vacates items world place) after ∧
      ∀ other ∈ told, ∃ item ∈ items, item.1.Owns other := by
  induction items generalizing places world told with
  | nil =>
    obtain ⟨hp, rfl⟩ := Prod.mk.inj hexec
    obtain rfl := Except.ok.inj hp
    exact ⟨h.congr fun place => by simp [Vacates], by simp⟩
  | cons item rest ih =>
    obtain ⟨path, isNew⟩ := item
    obtain ⟨written, mid, hhandle, hrest⟩ := exists_of_exec_bind hexec
    obtain ⟨later, last, hlater, hreturn⟩ := exists_of_exec_bind hrest
    obtain ⟨hp, rfl⟩ := Prod.mk.inj hreturn
    obtain rfl := Except.ok.inj hp
    have hwatched := hitems (path, isNew) List.mem_cons_self
    obtain ⟨hmid, howned⟩ := handle_vacates h hfirst (hwatched.inside hfirst)
      (hwatched.pathExists hfirst) hhandle
    obtain ⟨hlast, hothers⟩ :=
      ih hmid (fun item hi => hitems item (List.mem_cons_of_mem _ hi)) hlater
    refine ⟨hlast.congr fun place => ?_, fun other ho => ?_⟩
    · rw [or_assoc, Vacates]
      refine or_congr_right (or_congr_right ⟨fun hvacates => ⟨written, mid, hhandle, hvacates⟩, ?_⟩)
      rintro ⟨again, next, hagain, hvacates⟩
      obtain ⟨-, rfl⟩ := Prod.mk.inj (hhandle.symm.trans hagain)
      exact hvacates
    · rcases List.mem_append.mp ho with ho | ho
      · exact ⟨_, List.mem_cons_self, howned other ho⟩
      · obtain ⟨item, hi, howns⟩ := hothers other ho
        exact ⟨item, List.mem_cons_of_mem _ hi, howns⟩

end Handling

section Polls

variable {previous settled : Snapshot}

/-- What is pending is watched. -/
theorem watches_of_mem_pending {item : Path × Bool}
    (h : item ∈ previous.pending (runner.snapshot world)) : runner.Watches world item.1 := by
  obtain ⟨stamp, hmem, -⟩ := Snapshot.exists_of_mem_pending h
  exact (mem_snapshot_iff.mp hmem).1

/-- A poll takes away what new components adopt, and nothing else. -/
theorem handlePending_vacates (hworld : world.IsTree)
    (hexec : (runner.handleEach (previous.pending (runner.snapshot world))).exec world =
      (.ok told, after)) :
    world.Vacated (runner.Vacates (previous.pending (runner.snapshot world)) world) after ∧
      ∀ other ∈ told, runner.config.target.LeadsTo other := by
  obtain ⟨hafter, howned⟩ := handleEach_vacates hworld.vacated hworld
    (fun item => watches_of_mem_pending) hexec
  refine ⟨hafter.congr fun place => by simp, fun other ho => ?_⟩
  obtain ⟨item, hi, howns⟩ := howned other ho
  exact (leadsTo_of_mem_pending hworld hi).of_owns howns

/-- A path that leads down from a directory to something with a stamp is below the directory. -/
theorem mem_descendants_of_stamp? {target : Path} {stamp : Nat} (hleads : target.LeadsTo path)
    (hs : world.stamp? path = some stamp) : path ∈ world.descendants target := by
  obtain ⟨location, entry, hl, hf, -⟩ := exists_of_stamp? hs
  obtain ⟨names, hne, hentry, rfl⟩ := hleads
  obtain ⟨base, hbase, hrest, hd⟩ := exists_of_walk_append hl
  obtain rfl := eq_append_of_walk hentry hrest
  refine World.mem_descendants_iff.mpr ⟨base, names, hbase, hd hne, hne, ?_, rfl⟩
  rw [ne_eq, Store.seen_eq_none_iff, hf]
  exact Option.some_ne_none entry

/-- A watched path stays in the snapshot unless it is told. -/
theorem held_of_watches (hworld : world.IsTree) (hwatched : runner.Watches world path)
    (htold : path ∉ told) :
    ((absorb after (runner.snapshot world) told).stamp? path).isSome = true := by
  rw [stamp?_absorb, if_neg htold, stamp?_snapshot hwatched]
  exact stamp?_isSome_of_pathExists (hwatched.pathExists hworld)

/-- The snapshot that a poll returns holds a path that is not below the target directory any more
exactly if the path was watched, is not told as written, and crosses a place from which the poll has
taken something away. -/
theorem held_vanished_iff (hworld : world.IsTree)
    (h : (runner.poll previous).exec world = (.ok settled, after)) :
    ∃ written, (runner.handleEach (previous.pending (runner.snapshot world))).exec world =
        (.ok written, after) ∧
      ∀ path, (settled.stamp? path).isSome = true ∧
          path ∉ after.descendants runner.config.target ↔
        runner.Watches world path ∧ path ∉ written ∧
          ∃ place, runner.Vacates (previous.pending (runner.snapshot world)) world place ∧
            world.Crosses path place := by
  obtain ⟨written, hexec, rfl⟩ := exec_poll_eq_ok_iff.mp h
  obtain ⟨hafter, hleads⟩ := handlePending_vacates hworld hexec
  refine ⟨written, hexec, fun path => ⟨?_, ?_⟩⟩
  · rintro ⟨hheld, hgone⟩
    obtain ⟨stamp, hstamp⟩ := Option.isSome_iff_exists.mp hheld
    rw [stamp?_absorb] at hstamp
    split at hstamp
    · next htold =>
      -- What is told has been looked up afterwards.
      exact absurd (mem_descendants_of_stamp? (hleads path htold) hstamp) hgone
    · next htold =>
      have hwatched := (mem_snapshot_iff.mp (Snapshot.mem_of_stamp? hstamp)).1
      refine ⟨hwatched, htold, ?_⟩
      by_contra hclear
      refine hgone ((hafter.mem_descendants_iff hworld hwatched.below).mpr ?_)
      exact fun place hplace hcrosses => hclear ⟨place, hplace, hcrosses⟩
  · rintro ⟨hwatched, htold, place, hplace, hcrosses⟩
    exact ⟨held_of_watches hworld hwatched htold, fun hthere =>
      hafter.not_crosses hthere hplace hcrosses⟩

end Polls

section Renaming

/-- A runner that makes stylesheets and does not sort declarations. -/
def renamingRunner : Runner where
  config := { target := ⟨.relative, ["src".toList]⟩, modes := { generate := true } }

/-- Every poll of a new component beside the stylesheet that was left behind returns. -/
theorem poll_adoptionWorld (runner : Runner) (previous : Snapshot) :
    ∃ settled after, (runner.poll previous).exec adoptionWorld = (.ok settled, after) := by
  refine poll_returns isTree_adoptionWorld ?_ ?_ previous
  · intro location name hd
    obtain ⟨stamp, hf⟩ := Store.hasDirectory_iff.mp hd
    have he := Store.mem_entries_of_find? hf (by simp)
    simp only [adoptionWorld, List.mem_cons, List.not_mem_nil, or_false] at he
    rcases he with he | he | he
    · have hname : name = "src".toList := by
        simpa using congrArg List.getLast? (Prod.mk.inj he).1
      rw [hname]
      decide +kernel
    · cases (Prod.mk.inj he).2
    · cases (Prod.mk.inj he).2
  · intro location bytes stamp hseen
    have hf := Store.seen_eq_file_iff.mp hseen
    have hne : location ≠ [] := by
      rintro rfl
      cases hf
    have he := Store.mem_entries_of_find? hf hne
    simp only [adoptionWorld, List.mem_cons, List.not_mem_nil, or_false] at he
    rcases he with he | he | he
    · cases (Prod.mk.inj he).2
    · obtain ⟨rfl, -⟩ := Entry.file.inj (Prod.mk.inj he).2
      exact ⟨_, decodeText?_encodeText _⟩
    · obtain ⟨rfl, -⟩ := Entry.file.inj (Prod.mk.inj he).2
      exact ⟨_, decodeText?_encodeText _⟩

/-- The new component and the stylesheet that was left behind are pending. -/
theorem pending_renamingRunner :
    Snapshot.pending [] (renamingRunner.snapshot adoptionWorld) =
      [(⟨.relative, ["src".toList, "New.jsx".toList]⟩, true),
        (⟨.relative, ["src".toList, "Old.module.css".toList]⟩, true)] := by
  have hsorted : ((adoptionWorld.descendants renamingRunner.config.target).filter fun path =>
      watchedSuffixes.contains path.suffix && !path.isSkipped).Pairwise
        fun a b => Path.le a b = true := by decide +kernel
  rw [snapshot, List.mergeSort_of_pairwise hsorted]
  decide +kernel

/-- Both files are watched. -/
theorem watches_renamingRunner {item : Path × Bool}
    (h : item ∈ [(⟨.relative, ["src".toList, "New.jsx".toList]⟩, true),
      (⟨.relative, ["src".toList, "Old.module.css".toList]⟩, true)]) :
    renamingRunner.Watches adoptionWorld item.1 := by
  rw [← pending_renamingRunner] at h
  exact watches_of_mem_pending h

/-- The component comes first, and nothing is told of the stylesheet. -/
theorem not_told_renamingRunner
    (h : (renamingRunner.handleEach
      (Snapshot.pending [] (renamingRunner.snapshot adoptionWorld))).exec adoptionWorld =
        (.ok told, after)) :
    ⟨.relative, ["src".toList, "Old.module.css".toList]⟩ ∉ told := by
  have hworld := isTree_adoptionWorld
  have hnew := watches_renamingRunner List.mem_cons_self
  rw [pending_renamingRunner] at h
  obtain ⟨written, mid, hhandle, hrest⟩ := exists_of_exec_bind h
  have hnothing : (renamingRunner.handleEach
      [(⟨.relative, ["src".toList, "Old.module.css".toList]⟩, true)]).exec mid =
        (.ok [], mid) := by
    rw [handleEach, handle, if_neg (by decide +kernel), if_neg (by decide +kernel)]
    rfl
  rw [exec_bind hnothing] at hrest
  obtain ⟨hp, -⟩ := Prod.mk.inj hrest
  obtain rfl := Except.ok.inj hp
  have howned := (handle_vacates hworld.vacated hworld (hnew.inside hworld)
    (hnew.pathExists hworld) hhandle).2
  rw [List.append_nil]
  intro htold
  rcases howned _ htold with he | he
  · exact absurd he (by decide +kernel)
  · exact absurd (Except.ok.inj (adopts_adoptionWorld.belongs.symm.trans he)) (by decide +kernel)

/-- The poll takes the stylesheet away from its place. -/
theorem vacates_renamingRunner :
    renamingRunner.Vacates (Snapshot.pending [] (renamingRunner.snapshot adoptionWorld))
      adoptionWorld ["src".toList, "Old.module.css".toList] := by
  rw [pending_renamingRunner]
  exact Or.inl ⟨rfl, rfl, by decide +kernel, _, _, adopts_adoptionWorld, by decide +kernel⟩

/-- The path of the old stylesheet leads to the place that the adoption takes. -/
theorem crosses_adoptionWorld :
    adoptionWorld.Crosses ⟨.relative, ["src".toList, "Old.module.css".toList]⟩
      ["src".toList, "Old.module.css".toList] :=
  ⟨_, [], ["src".toList, "Old.module.css".toList], (List.append_nil _).symm, by decide +kernel,
    by decide +kernel, List.prefix_rfl⟩

/-- A poll adopts the stylesheet that was left behind, and the snapshot that it returns still holds
the old path, at which nothing is any more. -/
theorem held_vanished_iff_left :
    adoptionWorld.IsTree ∧ ∃ settled after,
      (renamingRunner.poll []).exec adoptionWorld = (.ok settled, after) ∧
      (settled.stamp? ⟨.relative, ["src".toList, "Old.module.css".toList]⟩).isSome = true ∧
      ⟨.relative, ["src".toList, "Old.module.css".toList]⟩ ∉
        after.descendants renamingRunner.config.target := by
  obtain ⟨settled, after, h⟩ := poll_adoptionWorld renamingRunner []
  obtain ⟨written, hexec, hheld⟩ := held_vanished_iff isTree_adoptionWorld h
  refine ⟨isTree_adoptionWorld, settled, after, h, (hheld _).mpr ⟨?_, ?_, ?_⟩⟩
  · exact watches_renamingRunner (List.mem_cons_of_mem _ List.mem_cons_self)
  · exact not_told_renamingRunner hexec
  · exact ⟨_, vacates_renamingRunner, crosses_adoptionWorld⟩

/-- It is not so that every path in the snapshot of a poll is below the target directory. -/
theorem held_not_mem_descendants :
    ¬ ∀ settled after, (renamingRunner.poll []).exec adoptionWorld = (.ok settled, after) →
      ∀ path, (settled.stamp? path).isSome = true →
        path ∈ after.descendants renamingRunner.config.target := by
  intro hall
  obtain ⟨settled, after, h⟩ := poll_adoptionWorld renamingRunner []
  obtain ⟨written, hexec, rfl⟩ := exec_poll_eq_ok_iff.mp h
  have hold := watches_renamingRunner (List.mem_cons_of_mem _ List.mem_cons_self)
  have hthere := hall _ after h _
    (held_of_watches isTree_adoptionWorld hold (not_told_renamingRunner hexec))
  exact (handlePending_vacates isTree_adoptionWorld hexec).1.not_crosses hthere
    vacates_renamingRunner crosses_adoptionWorld

end Renaming

end Runner

end StyleModules
