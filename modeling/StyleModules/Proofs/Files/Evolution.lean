import StyleModules.Proofs.Files.Tree

/-!
# Changes that are told

A world evolves into another with a list of paths told if every file that is new or changed stands
where one of these paths leads, and the directories stay (`World.Evolves`). Operations that come one
after the other tell what each of them tells. Writes evolve with the paths written, and moving a
file to an empty place evolves with the path of that place. Where only files that were there are
told, no file comes to stand where none stood (`World.Evolves.rewritten`).
-/

namespace StyleModules

namespace World

variable {world mid after : World} {path : Path} {told more : List Path}

/-- Every file holds a text. -/
def Legible (world : World) : Prop :=
  ∀ location bytes stamp, world.store.seen location = some (.file bytes stamp) →
    ∃ t, decodeText? bytes = some t

/-- In a world of texts every file holds one. -/
theorem Legible.exists_holds (h : world.Legible) {bytes : ByteArray} {stamp : Nat}
    (hentry : world.entry path = .ok (.file bytes stamp)) : ∃ t, world.Holds path t := by
  obtain ⟨location, -, hseen⟩ := entry_eq_file_iff.mp hentry
  obtain ⟨t, ht⟩ := h location bytes stamp hseen
  exact ⟨t, bytes, readBytes_eq_ok_iff.mpr ⟨stamp, hentry⟩, ht⟩

/-- What changed since an earlier world is told by paths. -/
structure Evolves (world : World) (told : List Path) (after : World) : Prop where
  /-- The working directory stays. -/
  here : after.here = world.here
  /-- The directories stay. -/
  directories : world.store.SameDirectories after.store
  /-- Files and directories still form a tree. -/
  tree : after.IsTree
  /-- Every file stood there as it is now, or its place is told. -/
  files : ∀ location bytes stamp, after.store.seen location = some (.file bytes stamp) →
    world.store.seen location = some (.file bytes stamp) ∨
      ∃ path ∈ told, world.locate path = .ok location
  /-- No file without a text has come. -/
  legible : world.Legible → after.Legible

/-- Paths lead where they led. -/
theorem Evolves.locate_eq_ok_iff (h : world.Evolves told after) {location : Location} :
    after.locate path = .ok location ↔ world.locate path = .ok location :=
  locate_eq_ok_congr h.here h.directories path

/-- Changes in a row are told one after the other. -/
theorem Evolves.trans (h : world.Evolves told mid) (h' : mid.Evolves more after) :
    world.Evolves (told ++ more) after where
  here := h'.here.trans h.here
  directories := h.directories.trans h'.directories
  tree := h'.tree
  legible := h'.legible ∘ h.legible
  files location bytes stamp hfile := by
    rcases h'.files location bytes stamp hfile with hmid | ⟨path, hp, hl⟩
    · rcases h.files location bytes stamp hmid with hworld | ⟨path, hp, hl⟩
      · exact Or.inl hworld
      · exact Or.inr ⟨path, List.mem_append_left _ hp, hl⟩
    · exact Or.inr ⟨path, List.mem_append_right _ hp, h.locate_eq_ok_iff.mp hl⟩

/-- More paths may be told than were changed. -/
theorem Evolves.mono (h : world.Evolves told after) (hsub : ∀ path ∈ told, path ∈ more) :
    world.Evolves more after where
  here := h.here
  directories := h.directories
  tree := h.tree
  legible := h.legible
  files location bytes stamp hfile :=
    (h.files location bytes stamp hfile).imp_right fun ⟨path, hp, hl⟩ => ⟨path, hsub path hp, hl⟩

/-- Reports change no file. -/
theorem Evolves.of_muted_eq (hworld : world.IsTree) (h : after.muted = world.muted) :
    world.Evolves [] after := by
  have hstore := store_eq_of_muted_eq h
  have hhere := here_eq_of_muted_eq h
  refine ⟨hhere, fun location => by rw [hstore], ?_, fun location bytes stamp hfile => ?_,
    fun hlegible location => ?_⟩
  · refine hworld.of_sameDirectories hhere (fun location => by rw [hstore]) ?_ fun location => ?_
    · rw [hstore]
      exact hworld.tree
    · rw [hstore]
      exact hworld.seen_ne_dangling location
  · rw [hstore] at hfile
    exact Or.inl hfile
  · rw [hstore]
    exact hlegible location

/-- A write of a text is told by its path. -/
theorem IsTree.evolves_writeBytes (hworld : world.IsTree) {t : Text}
    (h : world.writeBytes path (encodeText t) = .ok after) : world.Evolves [path] after := by
  obtain ⟨location, hl, -⟩ := writeBytes_eq_ok_iff.mp h
  have hwrote := wrote_of_writeBytes h hl
  refine ⟨hwrote.here, hwrote.directories, hworld.writeBytes h,
    fun place bytes stamp hfile => ?_, fun hlegible place bytes stamp hfile => ?_⟩
  · rw [hwrote.seen] at hfile
    split at hfile
    · next he => exact Or.inr ⟨path, List.mem_singleton_self path, he ▸ hl⟩
    · exact Or.inl hfile
  · rw [hwrote.seen] at hfile
    split at hfile
    · cases hfile
      exact ⟨_, decodeText?_encodeText t⟩
    · exact hlegible place bytes stamp hfile

/-- Writing texts to files in a tree changes these files only. -/
theorem IsTree.evolves_writeAll (hworld : world.IsTree) {writes : List (Path × Text)}
    (h : world.writeAll writes = .ok after) : world.Evolves (writes.map (·.1)) after := by
  induction writes generalizing world with
  | nil =>
    obtain rfl := Except.ok.inj h
    exact Evolves.of_muted_eq hworld rfl
  | cons write writes ih =>
    obtain ⟨path, t⟩ := write
    obtain ⟨next, hnext, hrest⟩ := exists_of_writeAll_cons h
    have hfirst := hworld.evolves_writeBytes hnext
    exact hfirst.trans (ih hfirst.tree hrest)

/-- A move of a file to a place where nothing stands is told by the path of that place. -/
theorem IsTree.evolves_movePath (hworld : world.IsTree) {source target : Path}
    {start goal : Location} (hsource : world.locate source = .ok start)
    (htarget : world.locate target = .ok goal) {bytes : ByteArray} {stamp : Nat}
    (hfile : world.store.seen start = some (.file bytes stamp))
    (hempty : world.store.seen goal = none) (h : world.movePath source target = .ok after) :
    world.Evolves [target] after := by
  obtain ⟨_, _, hs, ht, rfl⟩ := movePath_eq_ok_iff.mp h
  obtain rfl := Except.ok.inj (hsource.symm.trans hs)
  obtain rfl := Except.ok.inj (htarget.symm.trans ht)
  have hnodir : world.store.hasDirectory goal = false := by
    rw [Store.hasDirectory_eq, hempty]
    rfl
  obtain ⟨directory, name, rfl, hd, hname⟩ := hworld.exists_of_locate htarget hnodir
  have hparent : world.store.hasDirectory (directory ++ [name]).dropLast = true := by
    rwa [List.dropLast_concat]
  have hseen := Store.seen_move_file hworld.tree hfile hempty hparent
  have hdirs := Store.sameDirectories_move_file hworld.tree hfile hempty hparent
  refine ⟨rfl, hdirs, ?_, fun place content mark hplace => ?_,
    fun hlegible place content mark hplace => ?_⟩
  · refine hworld.of_sameDirectories rfl hdirs (hworld.tree.move_file hfile hd hname hempty)
      fun place => ?_
    rw [hseen]
    split
    · simp
    · split
      · simp
      · exact hworld.seen_ne_dangling place
  · rw [hseen] at hplace
    split at hplace
    · next he => exact Or.inr ⟨target, List.mem_singleton_self target, he ▸ htarget⟩
    · split at hplace
      · cases hplace
      · exact Or.inl hplace
  · rw [hseen] at hplace
    split at hplace
    · cases hplace
      exact hlegible _ _ _ hfile
    · split at hplace
      · cases hplace
      · exact hlegible place content mark hplace

/-- The directories stay, and no file comes to stand where none stood. -/
structure Rewritten (world after : World) : Prop where
  here : after.here = world.here
  directories : world.store.SameDirectories after.store
  files : ∀ location bytes stamp, after.store.seen location = some (.file bytes stamp) →
    ∃ old mark, world.store.seen location = some (.file old mark)

/-- A world is rewritten from itself. -/
theorem Rewritten.refl (world : World) : world.Rewritten world :=
  ⟨rfl, fun _ => rfl, fun _ bytes stamp hfile => ⟨bytes, stamp, hfile⟩⟩

/-- Rewriting goes on. -/
theorem Rewritten.trans (h : world.Rewritten mid) (h' : mid.Rewritten after) :
    world.Rewritten after where
  here := h'.here.trans h.here
  directories := h.directories.trans h'.directories
  files location bytes stamp hfile := by
    obtain ⟨old, mark, hold⟩ := h'.files location bytes stamp hfile
    exact h.files location old mark hold

/-- What is a file after files have been rewritten was one before. -/
theorem Rewritten.isFile (h : world.Rewritten after) (hfile : after.isFile path = true) :
    world.isFile path = true := by
  obtain ⟨bytes, stamp, hentry⟩ := isFile_iff.mp hfile
  obtain ⟨location, hl, hseen⟩ := entry_eq_file_iff.mp hentry
  obtain ⟨old, mark, hold⟩ := h.files location bytes stamp hseen
  have hbefore := (locate_eq_ok_congr h.here h.directories path).mp hl
  exact isFile_iff.mpr ⟨old, mark, entry_eq_file_iff.mpr ⟨location, hbefore, hold⟩⟩

/-- What evolves with files told that were there is rewritten. -/
theorem Evolves.rewritten (h : world.Evolves told after)
    (htold : ∀ path ∈ told, ∃ bytes, world.readBytes path = .ok bytes) : world.Rewritten after where
  here := h.here
  directories := h.directories
  files location bytes stamp hfile := by
    rcases h.files location bytes stamp hfile with hold | ⟨path, hp, hl⟩
    · exact ⟨bytes, stamp, hold⟩
    · obtain ⟨old, hread⟩ := htold path hp
      obtain ⟨place, mark, hplace, hf⟩ := exists_of_readBytes hread
      obtain rfl := Except.ok.inj (hl.symm.trans hplace)
      exact ⟨old, mark, Store.seen_eq_file_iff.mpr hf⟩

end World

/-- What an operation performs is told by the paths of its writes. -/
theorem Session.Performs.evolves {α : Type} {action : Session α} {world after : World}
    {outcome : Except Fault α} {writes : List (Path × Text)} (hworld : world.IsTree)
    (h : action.Performs world outcome writes after) :
    world.Evolves (writes.map (·.1)) after := by
  have hstart : world.Evolves [] world.muted := .of_muted_eq hworld rfl
  have hwrites := hstart.tree.evolves_writeAll h.wrote
  have hend : after.muted.Evolves [] after := .of_muted_eq hwrites.tree rfl
  simpa using hstart.trans (hwrites.trans hend)

end StyleModules
