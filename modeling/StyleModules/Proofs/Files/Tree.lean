import StyleModules.Proofs.Files.Effect

/-!
# Files and directories form a tree

In a world that is a tree, every entry stands in a directory under a proper name, so nothing stands
below a file or below nothing. Writing a file keeps a tree, and so does moving a file to a place
where nothing stands. Such a move is seen at two places only (`Store.seen_move_file`). Moving any
entry to another name in its directory keeps a tree as well, and is seen at these two names and
below them only.
-/

namespace StyleModules

namespace Store

/-- Every entry stands in a directory, under names of entries. -/
structure IsTree (store : Store) : Prop where
  parent : ∀ location, location ≠ [] → store.seen location ≠ none →
    store.hasDirectory location.dropLast = true
  names : ∀ location, store.seen location ≠ none →
    ∀ name ∈ location, World.isEntryName name = true

variable {store : Store} {location source target : Location}

/-- A directory is seen. -/
theorem seen_ne_none_of_hasDirectory (h : store.hasDirectory location = true) :
    store.seen location ≠ none := by
  intro hn
  rw [hasDirectory_eq, hn] at h
  cases h

/-- Something is seen at a place other than the root if there is an entry for it. -/
theorem seen_ne_none_iff (h : location ≠ []) :
    store.seen location ≠ none ↔ ∃ entry, (location, entry) ∈ store.entries := by
  rw [seen, find?, if_neg (by simpa using h)]
  constructor
  · intro hn
    have hlookup : store.entries.lookup location ≠ none := fun he => hn (by rw [he]; rfl)
    obtain ⟨entry, hentry⟩ := Option.ne_none_iff_exists'.mp hlookup
    refine ⟨entry, mem_entries_of_find? ?_ h⟩
    rwa [find?, if_neg (by simpa using h)]
  · rintro ⟨entry, he⟩ hn
    rw [Option.map_eq_none_iff, List.lookup_eq_none_iff] at hn
    simpa using hn _ he

/-- A store is a tree if all its entries stand in directories, under names of entries. -/
theorem IsTree.of_entries (h : ∀ e ∈ store.entries, store.hasDirectory e.1.dropLast = true ∧
    ∀ name ∈ e.1, World.isEntryName name = true) : store.IsTree where
  parent location hne hseen := by
    obtain ⟨entry, he⟩ := (seen_ne_none_iff hne).mp hseen
    exact (h _ he).1
  names location hseen name hname := by
    obtain ⟨entry, he⟩ := (seen_ne_none_iff (List.ne_nil_of_mem hname)).mp hseen
    exact (h _ he).2 name hname

/-- Nothing stands below a place without a directory. -/
theorem IsTree.seen_eq_none (h : store.IsTree) {base : Location}
    (hbase : store.hasDirectory base = false) {below : List Text} (hbelow : below ≠ []) :
    store.seen (base ++ below) = none := by
  induction below generalizing base with
  | nil => exact absurd rfl hbelow
  | cons name below ih =>
    have hnone : store.seen (base ++ [name]) = none := by
      apply Classical.byContradiction
      intro hsome
      have hparent := h.parent _ (by simp) hsome
      rw [List.dropLast_concat, hbase] at hparent
      cases hparent
    by_cases hn : below = []
    · rw [hn, hnone]
    · have hd : store.hasDirectory (base ++ [name]) = false := by
        rw [hasDirectory_eq, hnone]
        rfl
      rw [← ih hd hn, List.append_assoc]
      rfl

/-- Nothing stands at or below a place at which nothing stands. -/
theorem IsTree.not_prefix_of_seen (h : store.IsTree) {place : Location}
    (hnone : store.seen place = none) (hseen : store.seen location ≠ none) :
    ¬ place <+: location := by
  rintro ⟨below, rfl⟩
  by_cases hnil : below = []
  · rw [hnil, List.append_nil] at hseen
    exact hseen hnone
  · refine hseen (h.seen_eq_none ?_ hnil)
    rw [hasDirectory_eq, hnone]
    rfl

/-- A file in a directory keeps the tree. -/
theorem IsTree.writeFile (h : store.IsTree) {directory : Location} {name : Text}
    (hd : store.hasDirectory directory = true) (hname : World.isEntryName name = true)
    (hplace : store.hasDirectory (directory ++ [name]) = false) (bytes : ByteArray) :
    (store.writeFile (directory ++ [name]) bytes).IsTree := by
  have hseen := @seen_writeFile store (directory ++ [name]) (by simp) bytes
  have hdirs := sameDirectories_writeFile hplace bytes
  have hdirNames := h.names directory (seen_ne_none_of_hasDirectory hd)
  constructor
  · intro location hne hsome
    rw [hdirs]
    rw [hseen] at hsome
    split at hsome
    · next he => rwa [he, List.dropLast_concat]
    · exact h.parent location hne hsome
  · intro location hsome other ho
    rw [hseen] at hsome
    split at hsome
    · next he =>
      rw [he] at ho
      rcases List.mem_append.mp ho with ho | ho
      · exact hdirNames other ho
      · rwa [List.mem_singleton.mp ho]
    · exact h.names location hsome other ho

section Move

variable {bytes : ByteArray} {stamp : Nat}

/-- A file and an empty place are apart. -/
theorem IsTree.apart (h : store.IsTree) (hsource : store.seen source = some (.file bytes stamp))
    (htarget : store.seen target = none)
    (hparent : store.hasDirectory target.dropLast = true) :
    ¬ source <+: target ∧ ¬ target <+: source := by
  have hfile : store.hasDirectory source = false := by
    rw [hasDirectory_eq, hsource]
    rfl
  have hempty : store.hasDirectory target = false := by
    rw [hasDirectory_eq, htarget]
    rfl
  constructor
  · rintro ⟨below, hbelow⟩
    rcases List.eq_nil_or_concat below with rfl | ⟨front, name, rfl⟩
    · rw [List.append_nil] at hbelow
      rw [hbelow, htarget] at hsource
      cases hsource
    · rw [← hbelow, List.concat_eq_append, ← List.append_assoc, List.dropLast_concat] at hparent
      by_cases hn : front = []
      · rw [hn, List.append_nil, hfile] at hparent
        cases hparent
      · exact seen_ne_none_of_hasDirectory hparent (h.seen_eq_none hfile hn)
  · rintro ⟨below, rfl⟩
    by_cases hn : below = []
    · rw [hn, List.append_nil, htarget] at hsource
      cases hsource
    · rw [h.seen_eq_none hempty hn] at hsource
      cases hsource

/-- Moving a file to an empty place is seen at the two places only. -/
theorem seen_move_file (h : store.IsTree)
    (hsource : store.seen source = some (.file bytes stamp)) (htarget : store.seen target = none)
    (hparent : store.hasDirectory target.dropLast = true) (location : Location) :
    (store.move source target).seen location =
      if location = target then some (.file bytes stamp)
      else if location = source then none else store.seen location := by
  obtain ⟨hst, hts⟩ := h.apart hsource htarget hparent
  have hfile : store.hasDirectory source = false := by
    rw [hasDirectory_eq, hsource]
    rfl
  have hempty : store.hasDirectory target = false := by
    rw [hasDirectory_eq, htarget]
    rfl
  rw [seen_move hst hts, origin]
  simp only [isWithin_iff]
  split
  · next hw =>
    obtain ⟨below, rfl⟩ := hw
    rw [List.drop_left, Option.bind_some]
    by_cases hn : below = []
    · rw [hn, List.append_nil, List.append_nil, if_pos rfl, hsource]
    · have hloc : target ++ below ≠ target := by simpa using hn
      have hloc' : target ++ below ≠ source := fun he => hts (he ▸ List.prefix_append ..)
      rw [if_neg hloc, if_neg hloc', h.seen_eq_none hfile hn, h.seen_eq_none hempty hn]
  · next hw =>
    have hloc : location ≠ target := fun he => hw (he ▸ List.prefix_rfl)
    rw [if_neg hloc]
    split
    · next hs =>
      obtain ⟨below, rfl⟩ := hs
      by_cases hn : below = []
      · rw [hn, List.append_nil, if_pos rfl]
        rfl
      · have hloc' : source ++ below ≠ source := by simpa using hn
        rw [if_neg hloc', h.seen_eq_none hfile hn]
        rfl
    · next hs =>
      have hloc' : location ≠ source := fun he => hs (he ▸ List.prefix_rfl)
      rw [if_neg hloc', Option.bind_some]

/-- Moving a file moves no directory. -/
theorem sameDirectories_move_file (h : store.IsTree)
    (hsource : store.seen source = some (.file bytes stamp)) (htarget : store.seen target = none)
    (hparent : store.hasDirectory target.dropLast = true) :
    store.SameDirectories (store.move source target) := by
  intro location
  rw [hasDirectory_eq, hasDirectory_eq, seen_move_file h hsource htarget hparent]
  split
  · next he =>
    rw [he, htarget]
    rfl
  · split
    · next he =>
      rw [he, hsource]
      rfl
    · rfl

/-- Moving a file to an empty place in a directory keeps the tree. -/
theorem IsTree.move_file (h : store.IsTree)
    (hsource : store.seen source = some (.file bytes stamp)) {directory : Location} {name : Text}
    (hd : store.hasDirectory directory = true) (hname : World.isEntryName name = true)
    (hplace : store.seen (directory ++ [name]) = none) :
    (store.move source (directory ++ [name])).IsTree := by
  have hparent : store.hasDirectory (directory ++ [name]).dropLast = true := by
    rwa [List.dropLast_concat]
  have hseen := seen_move_file h hsource hplace hparent
  have hdirs := sameDirectories_move_file h hsource hplace hparent
  have hdirNames := h.names directory (seen_ne_none_of_hasDirectory hd)
  constructor
  · intro location hne hsome
    rw [hdirs]
    rw [hseen] at hsome
    split at hsome
    · next he => rwa [he]
    · split at hsome
      · exact absurd rfl hsome
      · exact h.parent location hne hsome
  · intro location hsome other ho
    rw [hseen] at hsome
    split at hsome
    · next he =>
      rw [he] at ho
      rcases List.mem_append.mp ho with ho | ho
      · exact hdirNames other ho
      · rwa [List.mem_singleton.mp ho]
    · split at hsome
      · exact absurd rfl hsome
      · exact h.names location hsome other ho

end Move

section Siblings

/-- A place in a directory is not within another one there. -/
theorem not_prefix_sibling {directory : Location} {a b : Text} (h : a ≠ b) :
    ¬ directory ++ [a] <+: directory ++ [b] := by
  rw [List.prefix_append_right_inj, List.cons_prefix_cons]
  exact fun he => h he.1

variable (hst : ¬ source <+: target) (hts : ¬ target <+: source)

include hst hts

/-- A move changes nothing outside its source and its target. -/
theorem seen_move_elsewhere (hs : ¬ source <+: location) (ht : ¬ target <+: location) :
    (store.move source target).seen location = store.seen location := by
  rw [seen_move hst hts, origin, if_neg (by rwa [isWithin_iff]), if_neg (by rwa [isWithin_iff]),
    Option.bind_some]

/-- What stood below the source of a move stands below its target. -/
theorem seen_move_target (below : Location) :
    (store.move source target).seen (target ++ below) = store.seen (source ++ below) := by
  rw [seen_move hst hts, origin, if_pos (isWithin_iff.mpr (List.prefix_append ..)), List.drop_left,
    Option.bind_some]

/-- Nothing is left at the source of a move. -/
theorem seen_move_source (hs : source <+: location) (ht : ¬ target <+: location) :
    (store.move source target).seen location = none := by
  rw [seen_move hst hts, origin, if_neg (by rwa [isWithin_iff]), if_pos (isWithin_iff.mpr hs),
    Option.bind_none]

omit hst hts

/-- Moving an entry, with all that is in it, to another name in its directory keeps the tree. -/
theorem IsTree.move_sibling (h : store.IsTree) {directory : Location}
    (hd : store.hasDirectory directory = true) (a : Text) {b : Text}
    (hb : World.isEntryName b = true) :
    (store.move (directory ++ [a]) (directory ++ [b])).IsTree := by
  by_cases hab : a = b
  · rw [hab, move, if_pos (beq_self_eq_true _)]
    exact h
  have hst := @not_prefix_sibling directory a b hab
  have hts := @not_prefix_sibling directory b a (Ne.symm hab)
  have hdirs : ∀ {location}, ¬ directory ++ [a] <+: location → ¬ directory ++ [b] <+: location →
      store.hasDirectory location = true →
      (store.move (directory ++ [a]) (directory ++ [b])).hasDirectory location = true := by
    intro location hs ht hdir
    rwa [hasDirectory_eq, seen_move_elsewhere hst hts hs ht, ← hasDirectory_eq]
  have hshort : ∀ name, ¬ directory ++ [name] <+: directory := fun name hp => by
    have hlength := hp.length_le
    rw [List.length_append, List.length_singleton] at hlength
    omega
  constructor
  · intro location hne hsome
    by_cases ht : directory ++ [b] <+: location
    · obtain ⟨below, rfl⟩ := ht
      rw [seen_move_target hst hts] at hsome
      rcases List.eq_nil_or_concat below with rfl | ⟨front, name, rfl⟩
      · rw [List.append_nil, List.dropLast_concat]
        exact hdirs (hshort a) (hshort b) hd
      · rw [List.concat_eq_append, ← List.append_assoc] at hsome ⊢
        have hparent := h.parent _ (by simp) hsome
        rw [List.dropLast_concat, hasDirectory_eq] at hparent
        rwa [List.dropLast_concat, hasDirectory_eq, seen_move_target hst hts]
    · by_cases hs : directory ++ [a] <+: location
      · exact absurd (seen_move_source hst hts hs ht) hsome
      · rw [seen_move_elsewhere hst hts hs ht] at hsome
        have hup := List.dropLast_prefix location
        exact hdirs (fun hp => hs (hp.trans hup)) (fun hp => ht (hp.trans hup))
          (h.parent location hne hsome)
  · intro location hsome name hname
    by_cases ht : directory ++ [b] <+: location
    · obtain ⟨below, rfl⟩ := ht
      rw [seen_move_target hst hts] at hsome
      simp only [List.mem_append, List.mem_singleton] at hname
      rcases hname with (hname | rfl) | hname
      · exact h.names directory (seen_ne_none_of_hasDirectory hd) name hname
      · exact hb
      · exact h.names _ hsome name (List.mem_append_right _ hname)
    · by_cases hs : directory ++ [a] <+: location
      · exact absurd (seen_move_source hst hts hs ht) hsome
      · rw [seen_move_elsewhere hst hts hs ht] at hsome
        exact h.names location hsome name hname

end Siblings

end Store

namespace World

/-- The world is a tree of files and directories. -/
structure IsTree (world : World) : Prop extends Regular world where
  tree : world.store.IsTree

/-- A path leads to a directory, or to a place in one. -/
theorem directory_or_place_of_walk {store : Store} (h : store.IsTree) {location reached : Location}
    (hstart : store.hasDirectory location = true) {names : List Text}
    (hwalk : walk store location names = .ok reached) :
    store.hasDirectory reached = true ∨
      ∃ directory name, reached = directory ++ [name] ∧ store.hasDirectory directory = true ∧
        isEntryName name = true := by
  induction names generalizing location with
  | nil => exact Or.inl (Except.ok.inj hwalk ▸ hstart)
  | cons name names ih =>
    rw [walk_cons_of_directory hstart] at hwalk
    split at hwalk
    · exact ih hstart hwalk
    · next hproper =>
      split at hwalk
      · refine ih ?_ hwalk
        by_cases hl : location = []
        · rw [hl]
          rfl
        · exact h.parent location hl (Store.seen_ne_none_of_hasDirectory hstart)
      · next hpoints =>
        have hname : isEntryName name = true := by
          simp only [Bool.or_eq_true, not_or, Bool.not_eq_true] at hproper
          simp [isEntryName, Path.isProperName, hproper.1, bne, hproper.2, hpoints]
        cases names with
        | nil =>
          refine Or.inr ⟨location, name, (Except.ok.inj hwalk).symm, hstart, hname⟩
        | cons second names =>
          cases hd : store.hasDirectory (location ++ [name]) with
          | true => exact ih hd hwalk
          | false => exact absurd hwalk (walk_cons_of_not_directory hd second names)

/-- Every path starts in a directory. -/
theorem IsTree.start {world : World} (h : world.IsTree) (path : Path) :
    world.store.hasDirectory (world.start path) = true := by
  rw [World.start]
  split
  · exact h.here
  · rfl

/-- A path leads to a place in a directory, if not to a directory. -/
theorem IsTree.exists_of_locate {world : World} (h : world.IsTree) {path : Path}
    {location : Location} (hl : world.locate path = .ok location)
    (hd : world.store.hasDirectory location = false) :
    ∃ directory name, location = directory ++ [name] ∧
      world.store.hasDirectory directory = true ∧ isEntryName name = true := by
  rcases directory_or_place_of_walk h.tree (h.start path) hl with ht | hplace
  · rw [hd] at ht
    cases ht
  · exact hplace

/-- Where directories stay and no links come, a tree with the same working directory stays one. -/
theorem IsTree.of_sameDirectories {world after : World} (h : world.IsTree)
    (hhere : after.here = world.here) (hdirs : world.store.SameDirectories after.store)
    (htree : after.store.IsTree) (hlinks : ∀ location, after.store.seen location ≠ some .dangling) :
    after.IsTree where
  no_links location := by
    rw [ne_eq, ← Store.seen_eq_dangling_iff]
    exact hlinks location
  here := by rw [hhere, hdirs, h.here]
  tree := htree

/-- A tree has no dangling links. -/
theorem IsTree.seen_ne_dangling {world : World} (h : world.IsTree) (location : Location) :
    world.store.seen location ≠ some .dangling := by
  rw [ne_eq, Store.seen_eq_dangling_iff]
  exact h.no_links location

/-- Writing a file keeps the tree. -/
theorem IsTree.writeBytes {world after : World} (h : world.IsTree) {path : Path}
    {bytes : ByteArray} (hwrite : world.writeBytes path bytes = .ok after) : after.IsTree := by
  obtain ⟨location, hl, hd, _, rfl⟩ := writeBytes_eq_ok_iff.mp hwrite
  have hwrote := wrote_of_writeBytes hwrite hl
  obtain ⟨directory, name, rfl, hdir, hname⟩ := h.exists_of_locate hl hd
  refine h.of_sameDirectories rfl hwrote.directories (h.tree.writeFile hdir hname hd bytes)
    fun place => ?_
  rw [hwrote.seen]
  split
  · simp
  · exact h.seen_ne_dangling place

end World

end StyleModules
