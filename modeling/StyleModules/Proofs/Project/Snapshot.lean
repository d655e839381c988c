import StyleModules.Project.Runner
import StyleModules.Proofs.Files.Tree

/-!
# What a snapshot holds

A snapshot holds the stamps of the watched paths below the target directory and of no others
(`Runner.stamp?_snapshot`). Taking over stamps sets them for the paths that are named, and leaves
the others (`Runner.stamp?_absorb`). A poll has to handle what a fresh snapshot holds with another
stamp than the earlier one (`Snapshot.pending`).
-/

namespace StyleModules

namespace Snapshot

/-- An erased path has no stamp, and others keep theirs. -/
theorem stamp?_erase (snapshot : Snapshot) (path other : Path) :
    (snapshot.erase path).stamp? other = if other = path then none else snapshot.stamp? other := by
  unfold erase stamp?
  induction snapshot with
  | nil => simp
  | cons e rest ih =>
    obtain ⟨key, stamp⟩ := e
    by_cases hk : key = path
    · subst hk
      rw [List.filter_cons_of_neg (by simp), ih]
      by_cases ho : other = key
      · rw [if_pos ho, if_pos ho]
      · rw [if_neg ho, if_neg ho, List.lookup_cons, beq_eq_false_iff_ne.mpr ho]
    · rw [List.filter_cons_of_pos (by simpa using hk), List.lookup_cons, List.lookup_cons, ih]
      by_cases ho : other = key
      · subst ho
        simp [hk]
      · rw [beq_eq_false_iff_ne.mpr ho]

/-- A set path has the new stamp, and others keep theirs. -/
theorem stamp?_set (snapshot : Snapshot) (path other : Path) (stamp : Option Nat) :
    (snapshot.set path stamp).stamp? other = if other = path then stamp else snapshot.stamp? other := by
  cases stamp with
  | none => exact stamp?_erase snapshot path other
  | some stamp =>
    have herase := stamp?_erase snapshot path other
    unfold stamp? at herase ⊢
    rw [set, List.lookup_append, herase]
    by_cases ho : other = path
    · simp [ho]
    · simp [ho, List.lookup_cons, beq_eq_false_iff_ne.mpr ho]

/-- A stamp that a path has stands in the snapshot. -/
theorem mem_of_stamp? {snapshot : Snapshot} {path : Path} {stamp : Nat}
    (h : snapshot.stamp? path = some stamp) : (path, stamp) ∈ snapshot := by
  obtain ⟨front, back, rfl, -⟩ := List.lookup_eq_some_iff.mp h
  exact List.mem_append_right _ List.mem_cons_self

/-- The paths whose stamps differ from an earlier snapshot, each with whether it is new. -/
def pending (previous current : Snapshot) : List (Path × Bool) :=
  current.filterMap fun (path, stamp) =>
    if previous.stamp? path == some stamp then none else some (path, (previous.stamp? path).isNone)

/-- A path is pending if it has another stamp than before. -/
theorem pending_cons (previous rest : Snapshot) (path : Path) (stamp : Nat) :
    previous.pending ((path, stamp) :: rest) =
      if previous.stamp? path = some stamp then previous.pending rest
      else (path, (previous.stamp? path).isNone) :: previous.pending rest := by
  unfold pending
  rw [List.filterMap_cons]
  by_cases h : previous.stamp? path = some stamp <;> simp [h]

/-- What is pending has another stamp than before. -/
theorem exists_of_mem_pending {previous current : Snapshot} {item : Path × Bool}
    (h : item ∈ previous.pending current) :
    ∃ stamp, (item.1, stamp) ∈ current ∧ previous.stamp? item.1 ≠ some stamp := by
  obtain ⟨⟨path, stamp⟩, he, hitem⟩ := List.mem_filterMap.mp h
  simp only at hitem
  split at hitem
  · cases hitem
  · next hne =>
    obtain rfl := Option.some.inj hitem
    exact ⟨stamp, he, by simpa using hne⟩

/-- A path with another stamp than before is pending. -/
theorem mem_pending {previous current : Snapshot} {path : Path} {stamp : Nat}
    (h : (path, stamp) ∈ current) (hne : previous.stamp? path ≠ some stamp) :
    (path, (previous.stamp? path).isNone) ∈ previous.pending current :=
  List.mem_filterMap.mpr ⟨(path, stamp), h, if_neg (by simpa using hne)⟩

/-- Nothing is pending exactly if the earlier snapshot holds all stamps. -/
theorem pending_eq_nil_iff {previous current : Snapshot} :
    previous.pending current = [] ↔
      ∀ path stamp, (path, stamp) ∈ current → previous.stamp? path = some stamp := by
  unfold pending
  rw [List.filterMap_eq_nil_iff]
  constructor
  · intro h path stamp he
    have hnone := h (path, stamp) he
    simp only at hnone
    split at hnone
    · next heq => simpa using heq
    · cases hnone
  · rintro h ⟨path, stamp⟩ he
    simp [h path stamp he]

end Snapshot

/-- A path is looked up among paths with their stamps. -/
theorem lookup_filterMap_stamp (stamp? : Path → Option Nat) (paths : List Path) (path : Path) :
    List.lookup path (paths.filterMap fun p => (stamp? p).map (p, ·)) =
      if path ∈ paths then stamp? path else none := by
  induction paths with
  | nil => simp
  | cons first rest ih =>
    rw [List.filterMap_cons]
    by_cases hp : path = first
    · subst hp
      cases hs : stamp? path with
      | none => simp [ih, hs]
      | some stamp => simp
    · cases hs : stamp? first with
      | none => simp [ih, hp]
      | some stamp => simp [List.lookup_cons, ih, hp, beq_eq_false_iff_ne.mpr hp]

namespace World

variable {world : World} {target path : Path}

/-- The paths below a directory are those of the entries there. -/
theorem mem_descendants_iff :
    path ∈ world.descendants target ↔ ∃ location names, world.locate target = .ok location ∧
      world.store.hasDirectory location = true ∧ names ≠ [] ∧
      world.store.seen (location ++ names) ≠ none ∧
      path = { target with names := target.names ++ names } := by
  cases hl : world.locate target with
  | error error => simp [descendants, hl]
  | ok location =>
    rw [descendants, isDirectory_of_locate hl, hl]
    cases hd : world.store.hasDirectory location with
    | false => simp [hd]
    | true =>
      simp only [List.mem_map, Store.below, List.mem_filterMap]
      constructor
      · rintro ⟨⟨names, entry⟩, ⟨⟨place, found⟩, hmem, hbelow⟩, rfl⟩
        split at hbelow
        · next hwithin =>
          simp only [Bool.and_eq_true, decide_eq_true_eq, Store.isWithin_iff] at hwithin
          obtain ⟨hlength, names', rfl⟩ := hwithin
          simp only [List.drop_left, Option.some.injEq, Prod.mk.injEq] at hbelow
          obtain ⟨rfl, rfl⟩ := hbelow
          have hne : names' ≠ [] := by
            rintro rfl
            simp at hlength
          exact ⟨location, names', rfl, hd, hne,
            (Store.seen_ne_none_iff (by simp [hne])).mpr ⟨found, hmem⟩, rfl⟩
        · cases hbelow
      · rintro ⟨place, names, hp, -, hne, hseen, rfl⟩
        obtain rfl := Except.ok.inj hp
        obtain ⟨entry, hentry⟩ := (Store.seen_ne_none_iff (by simp [hne])).mp hseen
        refine ⟨(names, entry), ⟨_, hentry, ?_⟩, rfl⟩
        rw [if_pos]
        · simp
        · have hpos := List.length_pos_iff.mpr hne
          simp only [List.length_append, Bool.and_eq_true, decide_eq_true_eq, Store.isWithin_iff]
          exact ⟨by omega, List.prefix_append ..⟩

end World

namespace Runner

variable {runner : Runner} {world : World} {path : Path}

/-- The path is watched: it lies below the target directory, has one of the suffixes, and leads
through no directory that is left alone. -/
structure Watches (runner : Runner) (world : World) (path : Path) : Prop where
  below : path ∈ world.descendants runner.config.target
  suffix : path.suffix ∈ watchedSuffixes
  kept : path.isSkipped = false

/-- The paths of a snapshot are those that the runner watches. -/
theorem mem_watched_iff :
    path ∈ ((world.descendants runner.config.target).filter fun path =>
      watchedSuffixes.contains path.suffix && !path.isSkipped).mergeSort Path.le ↔
      runner.Watches world path := by
  rw [List.mem_mergeSort, List.mem_filter]
  simp only [Bool.and_eq_true, List.contains_iff_mem, Bool.not_eq_true']
  exact ⟨fun ⟨hb, hs, hk⟩ => ⟨hb, hs, hk⟩, fun h => ⟨h.below, h.suffix, h.kept⟩⟩

/-- A snapshot holds the stamps of all watched paths. -/
theorem stamp?_snapshot (h : runner.Watches world path) :
    (runner.snapshot world).stamp? path = world.stamp? path := by
  rw [Snapshot.stamp?, snapshot, lookup_filterMap_stamp, if_pos (mem_watched_iff.mpr h)]

/-- A snapshot has the stamps of the files that the runner watches. -/
theorem mem_snapshot_iff {stamp : Nat} :
    (path, stamp) ∈ runner.snapshot world ↔
      runner.Watches world path ∧ world.stamp? path = some stamp := by
  rw [snapshot, List.mem_filterMap]
  constructor
  · rintro ⟨other, ho, he⟩
    obtain ⟨mark, hm, hpair⟩ := Option.map_eq_some_iff.mp he
    obtain ⟨rfl, rfl⟩ := Prod.mk.inj hpair
    exact ⟨mem_watched_iff.mp ho, hm⟩
  · rintro ⟨hw, hs⟩
    exact ⟨path, mem_watched_iff.mpr hw, by rw [hs]; rfl⟩

/-- A watched path is pending exactly if the earlier snapshot does not hold its stamp. -/
theorem pending_iff {previous : Snapshot} {stamp : Nat} (h : runner.Watches world path)
    (hs : world.stamp? path = some stamp) :
    (∃ isNew, (path, isNew) ∈ previous.pending (runner.snapshot world)) ↔
      previous.stamp? path ≠ some stamp := by
  constructor
  · rintro ⟨isNew, hmem⟩
    obtain ⟨mark, hmark, hne⟩ := Snapshot.exists_of_mem_pending hmem
    obtain rfl : mark = stamp :=
      Option.some.inj ((mem_snapshot_iff.mp hmark).2.symm.trans hs)
    exact hne
  · exact fun hne => ⟨_, Snapshot.mem_pending (mem_snapshot_iff.mpr ⟨h, hs⟩) hne⟩

/-- Taking over stamps sets those of the paths named. -/
theorem stamp?_absorb (world : World) (snapshot : Snapshot) (written : List Path) (path : Path) :
    (absorb world snapshot written).stamp? path =
      if path ∈ written then world.stamp? path else snapshot.stamp? path := by
  unfold absorb
  induction written generalizing snapshot with
  | nil => simp
  | cons first rest ih =>
    rw [List.foldl_cons, ih, Snapshot.stamp?_set]
    by_cases hr : path ∈ rest
    · simp [hr]
    · by_cases hf : path = first
      · simp [hf]
      · simp [hr, hf]

end Runner

end StyleModules
