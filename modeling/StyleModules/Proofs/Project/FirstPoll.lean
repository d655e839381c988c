import StyleModules.Proofs.Project.Isolation

/-!
# The first poll does what a scan does

A scan syncs the components that are files. A poll from an empty snapshot handles what stands at any
watched path, directories included, which it can only report (`Runner.components_eq_filter`). Where
no stylesheets are made and none are laid out for themselves, both do the same syncs in the same
order, so they leave the same contents and end with the same faults (`Runner.poll_nil_scan`).
-/

namespace StyleModules

section Order

namespace Path

/-- The order of names is transitive. -/
theorem namesLe_trans {s t u : List Text} (hst : namesLe s t = true) (htu : namesLe t u = true) :
    namesLe s u = true := by
  induction s generalizing t u with
  | nil => rfl
  | cons a s ih =>
    obtain - | ⟨b, t⟩ := t
    · cases hst
    obtain - | ⟨c, u⟩ := u
    · cases htu
    rw [namesLe] at hst htu ⊢
    by_cases hab : a = b
    · subst hab
      rw [if_pos (beq_self_eq_true a)] at hst
      split at htu
      · next hac => rw [if_pos hac]; exact ih hst htu
      · next hac => rwa [if_neg hac]
    · rw [if_neg (by simpa using hab)] at hst
      by_cases hbc : b = c
      · subst hbc
        rwa [if_neg (by simpa using hab)]
      · rw [if_neg (by simpa using hbc)] at htu
        rw [if_neg]
        · exact Text.le_trans hst htu
        · intro hac
          obtain rfl := beq_iff_eq.mp hac
          exact hab (Text.le_antisymm hst htu)

/-- Any two lists of names are ordered. -/
theorem namesLe_total (s t : List Text) : (namesLe s t || namesLe t s) = true := by
  induction s generalizing t with
  | nil => rfl
  | cons a s ih =>
    obtain - | ⟨b, t⟩ := t
    · rfl
    rw [namesLe, namesLe]
    by_cases hab : a = b
    · subst hab
      rw [if_pos (beq_self_eq_true a), if_pos (beq_self_eq_true a)]
      exact ih t
    · rw [if_neg (by simpa using hab), if_neg (by simpa using Ne.symm hab)]
      exact Text.le_total a b

/-- Lists of names in both orders are the same. -/
theorem namesLe_antisymm {s t : List Text} (hst : namesLe s t = true) (hts : namesLe t s = true) :
    s = t := by
  induction s generalizing t with
  | nil =>
    cases t with
    | nil => rfl
    | cons b t => cases hts
  | cons a s ih =>
    obtain - | ⟨b, t⟩ := t
    · cases hst
    rw [namesLe] at hst hts
    by_cases hab : a = b
    · subst hab
      rw [if_pos (beq_self_eq_true a)] at hst hts
      rw [ih hst hts]
    · rw [if_neg (by simpa using hab)] at hst
      rw [if_neg (by simpa using Ne.symm hab)] at hts
      exact absurd (Text.le_antisymm hst hts) hab

/-- Paths that start alike and are in order both ways are the same. -/
theorem le_antisymm {p q : Path} (hanchor : p.anchor = q.anchor) (hpq : p.le q = true)
    (hqp : q.le p = true) : p = q := by
  have hparts := namesLe_antisymm hpq hqp
  obtain ⟨anchor, names⟩ := p
  obtain ⟨_, others⟩ := q
  obtain rfl : anchor = _ := hanchor
  rw [parts, parts] at hparts
  split at hparts
  · rw [show names = others from hparts]
  · rw [show names = others from (List.cons.inj hparts).2]

/-- Sorting leaves paths in order. -/
theorem pairwise_mergeSort_le (paths : List Path) :
    (paths.mergeSort le).Pairwise fun p q => p.le q = true :=
  @List.pairwise_mergeSort Path le (fun _ _ _ hpq hqr => namesLe_trans hpq hqr)
    (fun p q => namesLe_total p.parts q.parts) paths

/-- Paths that start alike may be chosen before or after they are put in order. -/
theorem filter_mergeSort {paths : List Path} {anchor : Anchor}
    (hanchor : ∀ path ∈ paths, path.anchor = anchor) (keep : Path → Bool) :
    (paths.mergeSort le).filter keep = (paths.filter keep).mergeSort le := by
  refine List.Perm.eq_of_pairwise (fun p q hp hq => le_antisymm ?_)
    ((pairwise_mergeSort_le paths).filter keep) (pairwise_mergeSort_le _) ?_
  · rw [hanchor p (List.mem_mergeSort.mp (List.mem_filter.mp hp).1),
      hanchor q (List.mem_filter.mp (List.mem_mergeSort.mp hq)).1]
  · exact ((List.mergeSort_perm paths le).filter keep).trans (List.mergeSort_perm _ le).symm

end Path

/-- What is below a directory has a path that starts as the directory's does. -/
theorem World.anchor_of_mem_descendants {world : World} {target path : Path}
    (h : path ∈ world.descendants target) : path.anchor = target.anchor := by
  obtain ⟨_, _, -, -, -, -, rfl⟩ := World.mem_descendants_iff.mp h
  rfl

end Order

section Alike

variable {α β γ : Type} {run : Except Fault α × World} {twin : Except Fault β × World}

/-- Both runs leave the same files, and where one ends with a fault the other ends with it too. -/
structure EndsAlike (run : Except Fault α × World) (twin : Except Fault β × World) : Prop where
  fault : ∀ fault, run.1 = .error fault ↔ twin.1 = .error fault
  muted : twin.2.muted = run.2.muted

/-- What is made of a value does not matter. -/
theorem EndsAlike.map (h : EndsAlike run twin) (f : α → γ) :
    EndsAlike (run.1.map f, run.2) twin where
  fault fault := by
    rw [← h.fault]
    cases run.1 <;> simp [Except.map]
  muted := h.muted

/-- To end alike is symmetric. -/
theorem EndsAlike.symm (h : EndsAlike run twin) : EndsAlike twin run :=
  ⟨fun fault => (h.fault fault).symm, h.muted.symm⟩

end Alike

namespace Runner

open Session World

variable {runner : Runner} {start world other after : World} {component : Path}
  {components : List Path}

section Sync

/-- What is no file is not brought in line with anything. -/
theorem syncPlan_of_not_isFile {found : Finding} (hfound : found.isFile = false) (style : Style)
    (generate : Bool) (component sheet : Path) (foundSheet : Finding) :
    syncPlan style generate component sheet found foundSheet =
      (.ok { component := component }, []) := by
  cases found with
  | nothing => rfl
  | directory => rfl
  | undecodable => cases hfound
  | text source => cases hfound

/-- Where no stylesheets are made, nothing is written but a stylesheet that is a text. -/
theorem writes_syncPlan (style : Style) (component sheet : Path) (found foundSheet : Finding) :
    (syncPlan style false component sheet found foundSheet).2 = [] ∨
      ∃ t css, (syncPlan style false component sheet found foundSheet).2 = [(sheet, t)] ∧
        foundSheet = .text css := by
  cases found with
  | text source =>
    cases foundSheet with
    | text css =>
      simp only [syncPlan, importWrites, staleImport, sheetWrites, Bool.false_and,
        Bool.false_eq_true, if_false, List.nil_append]
      split
      · exact Or.inr ⟨_, css, rfl, rfl⟩
      · exact Or.inl rfl
    | _ => exact Or.inl rfl
  | _ => exact Or.inl rfl

/-- A file that takes the place of a file brings no links and no other files. -/
theorem rewritten_writeBytes {path : Path} {bytes : ByteArray}
    (h : world.writeBytes path bytes = .ok after) (hfile : world.isFile path = true) :
    world.Rewritten after ∧ (world.Unlinked → after.Unlinked) := by
  obtain ⟨location, hl, -⟩ := writeBytes_eq_ok_iff.mp h
  have hwrote := wrote_of_writeBytes h hl
  refine ⟨⟨hwrote.here, hwrote.directories, fun place content mark hplace => ?_⟩,
    fun hworld place hplace => ?_⟩
  · rw [hwrote.seen] at hplace
    split at hplace
    · next he =>
      obtain ⟨old, stamp, hentry⟩ := isFile_iff.mp hfile
      obtain ⟨found, hfound, hold⟩ := entry_eq_file_iff.mp hentry
      obtain rfl := Except.ok.inj (hl.symm.trans hfound)
      exact ⟨old, stamp, he ▸ hold⟩
    · exact ⟨content, mark, hplace⟩
  · rw [← Store.seen_eq_dangling_iff, hwrote.seen] at hplace
    split at hplace
    · cases hplace
    · exact hworld place (Store.seen_eq_dangling_iff.mp hplace)

/-- Operations that write to nothing but files bring no links and no other files. -/
theorem rewritten_of_performs {α : Type} {action : Session α} {outcome : Except Fault α}
    {writes : List (Path × Text)} (h : action.Performs world outcome writes after)
    (hwrites : writes = [] ∨ ∃ path t, writes = [(path, t)] ∧ world.isFile path = true) :
    world.Rewritten after ∧ (world.Unlinked → after.Unlinked) := by
  have hmuted : world.muted.Rewritten after.muted ∧
      (world.muted.Unlinked → after.muted.Unlinked) := by
    rcases hwrites with rfl | ⟨path, t, rfl, hfile⟩
    · rw [h.muted_eq]
      exact ⟨.refl world.muted, id⟩
    · obtain ⟨next, hnext, hrest⟩ := exists_of_writeAll_cons h.wrote
      obtain rfl := Except.ok.inj hrest
      exact rewritten_writeBytes hnext hfile
  exact ⟨⟨hmuted.1.here, hmuted.1.directories, hmuted.1.files⟩, hmuted.2⟩

/-- Where there are no links a sync of a component does what the plan says. -/
theorem sync_performs_plan (hgenerate : runner.config.modes.generate = false)
    (hworld : world.Unlinked) {sheet : Path} (hsheet : component.moduleSheet = .ok sheet) :
    ∃ after, (runner.sync component).Performs world
      (syncPlan runner.style false component sheet (world.finding component)
        (world.finding sheet)).1
      (syncPlan runner.style false component sheet (world.finding component)
        (world.finding sheet)).2 after := by
  obtain ⟨outcome, writes, after, hperforms, hrun⟩ :=
    @syncComponent_runs_of_unlinked runner.style false component sheet world hworld hsheet
  rw [sync_eq hgenerate, ← hrun.eq_plan hsheet]
  exact ⟨after, hperforms⟩

/-- Where no stylesheets are made, a sync from the same files ends in the same way, and no files
come to be. What is no file is not synced. -/
theorem sync_alike (hgenerate : runner.config.modes.generate = false) (hworld : world.Unlinked)
    (hother : other.muted = world.muted) (hcomponent : component.isComponent = true) :
    ∃ outcome after later, (runner.sync component).exec world = (outcome, after) ∧
      (runner.sync component).exec other = (outcome, later) ∧ later.muted = after.muted ∧
      after.Unlinked ∧ world.Rewritten after ∧
      (world.isFile component = false →
        (∃ result, outcome = .ok result) ∧ after.muted = world.muted) := by
  obtain ⟨sheet, hsheet⟩ := Path.exists_moduleSheet hcomponent
  have hfinding : ∀ path, other.finding path = world.finding path := fun path => by
    change other.muted.finding path = world.muted.finding path
    rw [hother]
  have hlinks : other.Unlinked := fun location => by
    rw [store_eq_of_muted_eq hother]
    exact hworld location
  obtain ⟨after, hperforms⟩ := sync_performs_plan hgenerate hworld hsheet
  obtain ⟨later, hperforms'⟩ := sync_performs_plan hgenerate hlinks hsheet
  rw [hfinding, hfinding] at hperforms'
  have hwrote := hperforms'.wrote
  rw [hother, hperforms.wrote] at hwrote
  obtain ⟨hrewritten, hunlinked⟩ := rewritten_of_performs hperforms <|
    (writes_syncPlan runner.style component sheet (world.finding component)
      (world.finding sheet)).imp_right fun ⟨t, css, hone, hcss⟩ =>
        ⟨sheet, t, hone, by rw [← isFile_finding, hcss]; rfl⟩
  refine ⟨_, after, later, hperforms.ends, hperforms'.ends, (Except.ok.inj hwrote).symm,
    hunlinked hworld, hrewritten, fun hfile => ?_⟩
  rw [← isFile_finding] at hfile
  rw [syncPlan_of_not_isFile hfile] at hperforms ⊢
  exact ⟨⟨_, rfl⟩, hperforms.muted_eq⟩

/-- The components after one that gives a result are synced from its world. -/
theorem exec_syncAll_cons_eq {result : SyncResult}
    (h : (runner.sync component).exec world = (.ok result, after)) (rest : List Path) :
    (runner.syncAll (component :: rest)).exec world =
      (((runner.syncAll rest).exec after).1.map (result :: ·),
        ((runner.syncAll rest).exec after).2) := by
  rw [syncAll, exec_bind h, exec_bind_pure]

/-- Leaving out those components that were no files at the start makes no difference. -/
theorem syncAll_filter_isFile (hgenerate : runner.config.modes.generate = false)
    (hstart : start.Rewritten world) (hworld : world.Unlinked)
    (hother : other.muted = world.muted)
    (hcomponents : ∀ component ∈ components, component.isComponent = true) :
    EndsAlike ((runner.syncAll components).exec world)
      ((runner.syncAll (components.filter start.isFile)).exec other) := by
  induction components generalizing world other with
  | nil => exact ⟨fun _ => Iff.rfl, hother⟩
  | cons first rest ih =>
    obtain ⟨outcome, after, later, hsync, hsync', hmuted, hunlinked, hrewritten, hskipped⟩ :=
      sync_alike hgenerate hworld hother (hcomponents first List.mem_cons_self)
    have ih : ∀ {mid}, mid.muted = after.muted → EndsAlike ((runner.syncAll rest).exec after)
        ((runner.syncAll (rest.filter start.isFile)).exec mid) := fun hmid =>
      ih (hstart.trans hrewritten) hunlinked hmid fun component hc =>
        hcomponents component (List.mem_cons_of_mem _ hc)
    cases hfile : start.isFile first with
    | true =>
      rw [List.filter_cons_of_pos hfile]
      cases outcome with
      | error fault =>
        rw [syncAll, exec_bind_error hsync, syncAll, exec_bind_error hsync']
        exact ⟨fun _ => by simp, hmuted⟩
      | ok result =>
        rw [exec_syncAll_cons_eq hsync, exec_syncAll_cons_eq hsync']
        exact (((ih hmuted).map _).symm.map _).symm
    | false =>
      -- Files were written in place of files only, so this is still none.
      obtain ⟨⟨result, rfl⟩, hsame⟩ := hskipped <|
        Bool.eq_false_iff.mpr fun hlater => by simp [hstart.isFile hlater] at hfile
      rw [List.filter_cons_of_neg (by simp [hfile]), exec_syncAll_cons_eq hsync]
      exact (ih (hother.trans hsame.symm)).map _

end Sync

section Poll

/-- The paths with a suffix of components that a first poll handles: those of files, and those of
directories. -/
def polled (runner : Runner) (world : World) : List Path :=
  ((runner.snapshot world).map (·.1)).filter Path.isComponent

/-- From nothing all of a snapshot is pending. -/
theorem pending_nil (current : Snapshot) :
    Snapshot.pending [] current = current.map fun e => (e.1, true) := by
  unfold Snapshot.pending
  rw [← List.filterMap_eq_map]
  rfl

section Handle

variable (hgenerate : runner.config.modes.generate = false)
  (hsort : runner.config.modes.sort = false)

include hgenerate in
/-- Where no stylesheets are made, a component is handled by a sync. -/
theorem exec_handle_of_component (hcomponent : component.isComponent = true) (isNew : Bool)
    (world : World) :
    (runner.handle component isNew).exec world =
      (((runner.sync component).exec world).1.map SyncResult.written,
        ((runner.sync component).exec world).2) := by
  rw [handle, if_pos hcomponent]
  simp only [hgenerate, Bool.and_false, Bool.false_eq_true, if_false]
  rw [exec_bind (exec_pure none world)]
  exact exec_bind_pure (runner.sync component) SyncResult.written world

include hsort in
/-- Where no stylesheets are laid out for themselves, only components are handled. -/
theorem exec_handle_of_not_component (hcomponent : component.isComponent = false) (isNew : Bool)
    (world : World) : (runner.handle component isNew).exec world = (.ok [], world) := by
  rw [handle, if_neg (by simp [hcomponent]), hsort, Bool.false_and, if_neg Bool.false_ne_true,
    exec_pure]

include hgenerate hsort in
/-- Where no stylesheets are made and none are laid out for themselves, handling files is syncing
those that are components. -/
theorem exec_handleEach_eq (items : List (Path × Bool)) (world : World) :
    (runner.handleEach items).exec world =
      (((runner.syncAll ((items.map (·.1)).filter Path.isComponent)).exec world).1.map
          (List.flatMap SyncResult.written),
        ((runner.syncAll ((items.map (·.1)).filter Path.isComponent)).exec world).2) := by
  induction items generalizing world with
  | nil => rfl
  | cons item rest ih =>
    obtain ⟨path, isNew⟩ := item
    rw [handleEach, List.map_cons]
    cases hcomponent : path.isComponent with
    | true =>
      have hhandle := exec_handle_of_component hgenerate hcomponent isNew world
      rw [List.filter_cons_of_pos hcomponent]
      cases hsync : (runner.sync path).exec world with
      | mk outcome after =>
        rw [hsync] at hhandle
        cases outcome with
        | error fault => rw [exec_bind_error hhandle, syncAll, exec_bind_error hsync]; rfl
        | ok result =>
          rw [exec_bind hhandle, exec_bind_pure, ih after, exec_syncAll_cons_eq hsync]
          cases ((runner.syncAll ((rest.map (·.1)).filter Path.isComponent)).exec after).1 <;> rfl
    | false =>
      have hhandle := exec_handle_of_not_component hsort hcomponent isNew world
      rw [List.filter_cons_of_neg (by simp [hcomponent]), exec_bind hhandle, exec_bind_pure,
        ih world]
      cases ((runner.syncAll ((rest.map (·.1)).filter Path.isComponent)).exec world).1 <;> rfl

end Handle

/-- The paths among those that have a stamp. -/
theorem map_fst_filterMap_stamp (stamp? : Path → Option Nat) (paths : List Path) :
    (paths.filterMap fun path => (stamp? path).map (path, ·)).map (·.1) =
      paths.filter fun path => (stamp? path).isSome := by
  induction paths with
  | nil => rfl
  | cons first rest ih =>
    cases hs : stamp? first <;> simp [hs, ih]

/-- A file has a stamp. -/
theorem stamp?_of_isFile {path : Path} (h : world.isFile path = true) :
    (world.stamp? path).isSome = true := by
  obtain ⟨bytes, stamp, hentry⟩ := isFile_iff.mp h
  rw [World.stamp?, hentry]
  rfl

/-- Components are watched. -/
theorem suffix_mem_watchedSuffixes {path : Path} (h : path.isComponent = true) :
    watchedSuffixes.contains path.suffix = true := by
  rw [List.contains_iff_mem]
  exact List.mem_append_left _ (List.contains_iff_mem.mp h)

/-- A scan syncs those of the polled paths that are files. -/
theorem components_eq_filter (runner : Runner) (world : World) :
    runner.components world = (runner.polled world).filter world.isFile := by
  have hanchor : ∀ path ∈ (world.descendants runner.config.target).filter (fun path =>
      watchedSuffixes.contains path.suffix && !path.isSkipped),
      path.anchor = runner.config.target.anchor := fun path hpath =>
    anchor_of_mem_descendants (List.mem_filter.mp hpath).1
  rw [polled, snapshot, map_fst_filterMap_stamp, List.filter_filter, List.filter_filter,
    Path.filter_mergeSort hanchor, List.filter_filter, components]
  refine congrArg (List.mergeSort · Path.le) (List.filter_congr fun path _ => ?_)
  cases hfile : world.isFile path with
  | false => rfl
  | true =>
    rw [stamp?_of_isFile hfile]
    cases hcomponent : path.isComponent with
    | false => rfl
    | true =>
      rw [suffix_mem_watchedSuffixes hcomponent]
      rfl

/-- Without a target directory nothing is polled. -/
theorem polled_of_not_directory (h : world.isDirectory runner.config.target = false) :
    runner.polled world = [] := by
  simp [polled, snapshot, World.descendants, h]

/-- A poll from nothing ends as the syncs of all polled paths end. -/
theorem exec_poll_nil (hgenerate : runner.config.modes.generate = false)
    (hsort : runner.config.modes.sort = false) (world : World) :
    (runner.poll []).exec world =
      (((runner.syncAll (runner.polled world)).exec world).1.map fun results =>
          absorb ((runner.syncAll (runner.polled world)).exec world).2 (runner.snapshot world)
            (results.flatMap SyncResult.written),
        ((runner.syncAll (runner.polled world)).exec world).2) := by
  have hhandle := exec_handleEach_eq hgenerate hsort
    (Snapshot.pending [] (runner.snapshot world)) world
  have hpaths : ((Snapshot.pending [] (runner.snapshot world)).map (·.1)).filter Path.isComponent =
      runner.polled world := by
    rw [pending_nil, List.map_map, polled]
    rfl
  rw [hpaths] at hhandle
  rw [poll, exec_bind (exec_look _ world), handleAll_eq]
  cases hall : (runner.syncAll (runner.polled world)).exec world with
  | mk outcome after =>
    rw [hall] at hhandle
    cases outcome with
    | error fault => exact exec_bind_error hhandle _
    | ok results => exact exec_bind hhandle _

/-- From nothing and from the same state, a poll and a scan that make no stylesheets and lay none
out for themselves leave the same files, and where one ends with a fault the other ends with the
same. -/
theorem poll_nil_scan (hgenerate : runner.config.modes.generate = false)
    (hsort : runner.config.modes.sort = false) (hworld : world.Unlinked) :
    ((runner.poll []).exec world).2.store = (runner.scan.exec world).2.store ∧
      ∀ fault, ((runner.poll []).exec world).1 = .error fault ↔
        (runner.scan.exec world).1 = .error fault := by
  have hpolled : ∀ component ∈ runner.polled world, component.isComponent = true :=
    fun component hc => (List.mem_filter.mp hc).2
  have halike : EndsAlike (runner.scan.exec world)
      ((runner.syncAll (runner.polled world)).exec world) := by
    cases hd : world.isDirectory runner.config.target with
    | true =>
      have hall :=
        syncAll_filter_isFile hgenerate (.refl world) hworld (Eq.refl world.muted) hpolled
      rw [← components_eq_filter] at hall
      rw [exec_scan_eq hd]
      exact hall.symm.map _
    | false =>
      obtain ⟨notice, hscan⟩ := exec_scan_of_not_directory hd
      rw [hscan, polled_of_not_directory hd]
      exact ⟨fun _ => by simp [syncAll, exec_pure], rfl⟩
  have hpoll : EndsAlike ((runner.poll []).exec world) (runner.scan.exec world) := by
    rw [exec_poll_nil hgenerate hsort]
    exact halike.symm.map _
  exact ⟨(store_eq_of_muted_eq hpoll.muted).symm, hpoll.fault⟩

/-- Files of which the second component is no text, and a directory with the name of a component. -/
def decoyWorld : World where
  store :=
    { entries := (["AB.jsx".toList], .directory 1) :: spoiltWorld.store.entries
      clock := 2 }

/-- The files stand in their directories. -/
theorem isTree_decoyWorld : decoyWorld.IsTree where
  toRegular := World.Regular.of_entries (by simp [decoyWorld, spoiltWorld]) rfl
  tree := Store.IsTree.of_entries (by decide +kernel)

/-- The directory is polled and not scanned. Both the poll and the scan end with the fault of the
component that is no text, and leave the same files. -/
theorem poll_nil_scan_decoy :
    pairRunner.config.modes.generate = false ∧ pairRunner.config.modes.sort = false ∧
      decoyWorld.Unlinked ∧
      herePath "AB.jsx".toList ∈ pairRunner.polled decoyWorld ∧
      herePath "AB.jsx".toList ∉ pairRunner.components decoyWorld ∧
      ((pairRunner.poll []).exec decoyWorld).2.store =
        (pairRunner.scan.exec decoyWorld).2.store ∧
      (pairRunner.scan.exec decoyWorld).1 = .error .undecodable ∧
      ((pairRunner.poll []).exec decoyWorld).1 = .error .undecodable := by
  have hlinks : decoyWorld.Unlinked := isTree_decoyWorld.no_links
  obtain ⟨hstore, hfault⟩ := @poll_nil_scan pairRunner decoyWorld rfl rfl hlinks
  have hwatched : pairRunner.Watches decoyWorld (herePath "AB.jsx".toList) :=
    ⟨by decide +kernel, by decide +kernel, by decide +kernel⟩
  have hbad : herePath "B.jsx".toList ∈ pairRunner.components decoyWorld :=
    mem_components_iff.mpr ⟨by decide +kernel, rfl, by decide +kernel, by decide +kernel⟩
  obtain ⟨after, hscan⟩ := scan_fails isTree_decoyWorld hbad
    ⟨_, Or.inl rfl, finding_of_undecodable rfl (by decide +kernel)⟩
  have hscan : (pairRunner.scan.exec decoyWorld).1 = .error .undecodable := by rw [hscan]
  refine ⟨rfl, rfl, hlinks, ?_, fun hscanned => ?_, hstore, hscan, (hfault _).mpr hscan⟩
  · have hheld := mem_snapshot_iff.mpr ⟨hwatched, (rfl : _ = some 1)⟩
    exact List.mem_filter.mpr ⟨List.mem_map.mpr ⟨_, hheld, rfl⟩, by decide +kernel⟩
  · exact absurd (mem_components_iff.mp hscanned).2.1 (by decide +kernel)

end Poll

end Runner

end StyleModules
