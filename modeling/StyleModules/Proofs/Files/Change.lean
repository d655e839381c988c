import StyleModules.Proofs.Files.Rewrite

/-!
# What writing and moving change

What is seen of a store are its entries, except the stamps of its directories: a directory gets a
fresh one whenever a file comes into it or leaves it. A write changes what is seen at one location
(`Store.seen_writeFile`). A move empties one location with all below it, and fills another with what
stood there (`Store.seen_move`).
-/

namespace StyleModules

/-- The entry without the stamp of a directory. -/
def Entry.undated : Entry → Entry
  | directory _ => directory 0
  | entry => entry

namespace Store

/-- What is seen at a location. -/
def seen (store : Store) (location : Location) : Option Entry :=
  (store.find? location).map Entry.undated

/-- There is a directory at the location. -/
def hasDirectory (store : Store) (location : Location) : Bool :=
  (store.find? location).any Entry.isDirectory

/-- What is found stands in the store, or is the root. -/
theorem mem_entries_of_find? {store : Store} {location : Location} {entry : Entry}
    (h : store.find? location = some entry) (hne : location ≠ []) :
    (location, entry) ∈ store.entries := by
  rw [find?, if_neg (by simpa using hne)] at h
  obtain ⟨before, after, he, -⟩ := List.lookup_eq_some_iff.mp h
  rw [he]
  exact List.mem_append_right _ List.mem_cons_self

/-- A place has a directory if one is seen there. -/
theorem hasDirectory_eq (store : Store) (location : Location) :
    store.hasDirectory location = (store.seen location).any Entry.isDirectory := by
  unfold hasDirectory seen
  cases store.find? location with
  | none => rfl
  | some entry => cases entry <;> rfl

/-- A place has a directory if one stands there. -/
theorem hasDirectory_iff {store : Store} {location : Location} :
    store.hasDirectory location = true ↔ ∃ stamp, store.find? location = some (.directory stamp) := by
  unfold hasDirectory
  cases store.find? location with
  | none => simp
  | some entry => cases entry <;> simp [Entry.isDirectory]

/-- A file is seen where it stands. -/
theorem seen_eq_file_iff {store : Store} {location : Location} {bytes : ByteArray} {stamp : Nat} :
    store.seen location = some (.file bytes stamp) ↔
      store.find? location = some (.file bytes stamp) := by
  unfold seen
  cases store.find? location with
  | none => simp
  | some entry => cases entry <;> simp [Entry.undated]

/-- A dangling link is seen where it stands. -/
theorem seen_eq_dangling_iff {store : Store} {location : Location} :
    store.seen location = some .dangling ↔ store.find? location = some .dangling := by
  unfold seen
  cases store.find? location with
  | none => simp
  | some entry => cases entry <;> simp [Entry.undated]

/-- Nothing is seen where nothing stands. -/
theorem seen_eq_none_iff {store : Store} {location : Location} :
    store.seen location = none ↔ store.find? location = none := by
  simp [seen]

/-- What is put at a place is seen there, and all else as before. -/
theorem seen_put {store : Store} {location : Location} (h : location ≠ []) (entry : Entry)
    (other : Location) :
    (store.put location entry).seen other =
      if other = location then some entry.undated else store.seen other := by
  unfold seen
  split
  · next he => rw [he, find?_put_self _ h, Option.map_some]
  · next he => rw [find?_put_of_ne _ he]

/-- A fresh stamp for a directory is not seen. -/
theorem seen_renew (store : Store) (location other : Location) :
    (store.renew location).seen other = store.seen other := by
  unfold renew
  split
  · next stamp hfound =>
    show (store.put location _).seen other = _
    by_cases hl : location = []
    · by_cases ho : other = []
      · rw [ho]
        rfl
      · rw [seen, find?_put_of_ne _ (hl ▸ ho), ← seen]
    · rw [seen_put hl]
      split
      · next he => rw [he, seen, find?, if_neg (by simpa using hl), hfound]; rfl
      · rfl
  · rfl

/-- A write is seen at one location. -/
theorem seen_writeFile {store : Store} {location : Location} (h : location ≠ [])
    (bytes : ByteArray) (other : Location) :
    (store.writeFile location bytes).seen other =
      if other = location then some (.file bytes store.clock) else store.seen other := by
  have hput := @seen_put store.tick location h (.file bytes store.clock) other
  rw [writeFile, place]
  split
  · exact hput
  · rw [seen_renew]
    exact hput

/-- A place is within another if the path of that one leads to it. -/
theorem isWithin_iff {location base : Location} : isWithin location base = true ↔ base <+: location :=
  List.isPrefixOf_iff_prefix

/-- Where the entry at a location stood before a move. -/
def origin (source target location : Location) : Option Location :=
  if isWithin location target then some (source ++ location.drop target.length)
  else if isWithin location source then none
  else some location

/-- A place below a base is the base with the names below it. -/
theorem drop_eq_of_prefix {base location : Location} (h : base <+: location) :
    base ++ location.drop base.length = location := by
  obtain ⟨rest, rfl⟩ := h
  rw [List.drop_left]

/-- An entry is kept by a move and ends at a location exactly if it stood at the origin. -/
theorem movedLocation_eq_iff {source target : Location} (hst : ¬ source <+: target)
    (hts : ¬ target <+: source) (location key : Location) :
    isWithin key target = false ∧ movedLocation source target key = location ↔
      origin source target location = some key := by
  -- Source and target are apart, so nothing lies within both.
  have hapart : ∀ {other : Location}, source <+: other → ¬ target <+: other := by
    intro other hs ht
    rcases List.prefix_or_prefix_of_prefix hs ht with h | h
    · exact hst h
    · exact hts h
  rw [← Bool.not_eq_true, isWithin_iff, movedLocation, origin]
  simp only [isWithin_iff]
  constructor
  · rintro ⟨hkey, rfl⟩
    split
    · next hs =>
      rw [if_pos (List.prefix_append ..), List.drop_left, drop_eq_of_prefix hs]
    · rfl
  · intro h
    split at h
    · next ht =>
      obtain rfl := Option.some.inj h
      have hs : source <+: source ++ location.drop target.length := List.prefix_append ..
      rw [if_pos hs, List.drop_left, drop_eq_of_prefix ht]
      exact ⟨hapart hs, rfl⟩
    · next ht =>
      split at h
      · cases h
      · next hs =>
        obtain rfl := Option.some.inj h
        exact ⟨ht, if_neg hs⟩

/-- After a move what stands at a place is what stood at its origin. -/
theorem lookup_moved {source target : Location} (hst : ¬ source <+: target)
    (hts : ¬ target <+: source) (entries : List (Location × Entry)) (location : Location) :
    ((entries.filter (!isWithin ·.1 target)).map fun e =>
      (movedLocation source target e.1, e.2)).lookup location =
      (origin source target location).bind (List.lookup · entries) := by
  induction entries with
  | nil => cases origin source target location <;> rfl
  | cons e entries ih =>
    obtain ⟨key, entry⟩ := e
    have hiff := movedLocation_eq_iff hst hts location key
    cases hkept : isWithin key target with
    | true =>
      have hother : origin source target location ≠ some key := fun h => by
        rw [(hiff.mpr h).1] at hkept
        cases hkept
      rw [List.filter_cons_of_neg (by simp [hkept]), ih]
      cases ho : origin source target location with
      | none => rfl
      | some place =>
        have hne : (place == key) = false := by
          rw [beq_eq_false_iff_ne]
          rintro rfl
          exact hother ho
        simp [List.lookup_cons, hne]
    | false =>
      rw [List.filter_cons_of_pos (by simp [hkept]), List.map_cons, List.lookup_cons, ih]
      by_cases hm : movedLocation source target key = location
      · rw [hiff.mp ⟨hkept, hm⟩]
        simp [hm]
      · have hne : (location == movedLocation source target key) = false := by
          rw [beq_eq_false_iff_ne]
          exact Ne.symm hm
        rw [hne]
        cases ho : origin source target location with
        | none => rfl
        | some place =>
          have hplace : (place == key) = false := by
            rw [beq_eq_false_iff_ne]
            rintro rfl
            exact hm (hiff.mpr ho).2
          simp [List.lookup_cons, hplace]

/-- A move is seen at the places that it empties and at those that it fills. -/
theorem seen_move {store : Store} {source target : Location} (hst : ¬ source <+: target)
    (hts : ¬ target <+: source) (location : Location) :
    (store.move source target).seen location =
      (origin source target location).bind store.seen := by
  have hne : source ≠ target := fun h => hst (h ▸ List.prefix_rfl)
  have hlookup := lookup_moved hst hts store.entries location
  rw [move, if_neg (by simpa using hne)]
  simp only [seen_renew]
  unfold seen find?
  by_cases hl : location = []
  · have hs : ¬ source <+: [] := fun h => hst (List.prefix_nil.mp h ▸ List.nil_prefix)
    have ht : ¬ target <+: [] := fun h => hts (List.prefix_nil.mp h ▸ List.nil_prefix)
    have horigin : origin source target [] = some [] := by
      rw [origin, if_neg (by rwa [isWithin_iff]), if_neg (by rwa [isWithin_iff])]
    rw [hl, horigin]
    rfl
  · rw [if_neg (by simpa using hl), hlookup]
    cases ho : origin source target location with
    | none => rfl
    | some place =>
      have hplace : place ≠ [] := by
        rintro rfl
        have hmoved := ((movedLocation_eq_iff hst hts location []).mpr ho).2
        rw [movedLocation, if_neg] at hmoved
        · exact hl hmoved.symm
        · rw [isWithin_iff]
          exact fun h => hst (List.prefix_nil.mp h ▸ List.nil_prefix)
      simp [hplace]

/-- Directories stand where they stood. -/
def SameDirectories (before after : Store) : Prop :=
  ∀ location, after.hasDirectory location = before.hasDirectory location

/-- To have the same directories is transitive. -/
theorem SameDirectories.trans {first second third : Store} (h : first.SameDirectories second)
    (h' : second.SameDirectories third) : first.SameDirectories third :=
  fun location => (h' location).trans (h location)

/-- A file that takes the place of no directory leaves all directories where they are. -/
theorem sameDirectories_writeFile {store : Store} {location : Location}
    (h : store.hasDirectory location = false) (bytes : ByteArray) :
    store.SameDirectories (store.writeFile location bytes) := by
  have hne : location ≠ [] := by
    rintro rfl
    cases h
  intro other
  rw [hasDirectory_eq, hasDirectory_eq, seen_writeFile hne]
  split
  · next he =>
    rw [he, ← hasDirectory_eq, h]
    rfl
  · rfl

end Store

namespace World

section Walk

variable {store other : Store} {location reached : Location}

/-- From a directory a path goes on by its first name. -/
theorem walk_cons_of_directory (h : store.hasDirectory location = true) (name : Text)
    (rest : List Text) :
    walk store location (name :: rest) =
      if name.isEmpty || name == ['.'] then walk store location rest
      else if name == ['.', '.'] then walk store location.dropLast rest
      else walk store (location ++ [name]) rest := by
  obtain ⟨stamp, hfound⟩ := Store.hasDirectory_iff.mp h
  rw [walk, hfound]

/-- No path goes on where no directory is. -/
theorem walk_cons_of_not_directory (h : store.hasDirectory location = false) (name : Text)
    (rest : List Text) : walk store location (name :: rest) ≠ .ok reached := by
  rw [walk]
  split
  · next hfound =>
    rw [Store.hasDirectory_iff.mpr ⟨_, hfound⟩] at h
    cases h
  · simp
  · simp

/-- Where paths lead depends on the directories alone. -/
theorem walk_eq_ok_congr (h : store.SameDirectories other) (names : List Text) :
    walk other location names = .ok reached ↔ walk store location names = .ok reached := by
  induction names generalizing location with
  | nil => rfl
  | cons name names ih =>
    cases hd : store.hasDirectory location with
    | true =>
      rw [walk_cons_of_directory hd, walk_cons_of_directory ((h location).trans hd)]
      split
      · exact ih
      · split
        · exact ih
        · exact ih
    | false =>
      have hd' : other.hasDirectory location = false := (h location).trans hd
      exact iff_of_false (walk_cons_of_not_directory hd' name names)
        (walk_cons_of_not_directory hd name names)

/-- The name of an entry in a directory: neither empty nor one or two points. -/
def isEntryName (name : Text) : Bool := Path.isProperName name && name != ['.', '.']

/-- A name of more than two characters can be that of an entry. -/
theorem isEntryName_of_length {name : Text} (h : 2 < name.length) : isEntryName name = true := by
  match name, h with
  | _ :: _ :: _ :: _, _ => simp [isEntryName, Path.isProperName]

/-- A name of an entry leads into the directory. -/
theorem walk_cons_of_entryName {name : Text} (hname : isEntryName name = true)
    (h : store.hasDirectory location = true) (rest : List Text) :
    walk store location (name :: rest) = walk store (location ++ [name]) rest := by
  simp only [isEntryName, Path.isProperName, Bool.and_eq_true, Bool.not_eq_true', bne_iff_ne,
    ne_eq] at hname
  obtain ⟨⟨hempty, hpoint⟩, hpoints⟩ := hname
  rw [walk_cons_of_directory h, if_neg (by simp [hempty, hpoint]), if_neg (by simpa using hpoints)]

/-- Names of entries lead down. -/
theorem eq_append_of_walk {names : List Text} (hnames : ∀ name ∈ names, isEntryName name = true)
    (h : walk store location names = .ok reached) : reached = location ++ names := by
  induction names generalizing location with
  | nil => rw [← Except.ok.inj h, List.append_nil]
  | cons name names ih =>
    cases hd : store.hasDirectory location with
    | false => exact absurd h (walk_cons_of_not_directory hd name names)
    | true =>
      rw [walk_cons_of_entryName (hnames name List.mem_cons_self) hd] at h
      rw [ih (fun other ho => hnames other (List.mem_cons_of_mem _ ho)) h, List.append_assoc]
      rfl

/-- A path of several names goes through a directory. -/
theorem exists_of_walk_concat {front : List Text} {name : Text}
    (h : walk store location (front ++ [name]) = .ok reached) :
    ∃ directory, walk store location front = .ok directory ∧
      store.hasDirectory directory = true := by
  rw [walk_append] at h
  split at h
  · cases h
  · next directory hfront =>
    refine ⟨directory, hfront, ?_⟩
    cases hd : store.hasDirectory directory with
    | true => rfl
    | false => exact absurd h (walk_cons_of_not_directory hd name [])

/-- Every entry name has a place in a directory. -/
theorem walk_concat {front : List Text} {directory : Location}
    (h : walk store location front = .ok directory) (hd : store.hasDirectory directory = true)
    {name : Text} (hname : isEntryName name = true) :
    walk store location (front ++ [name]) = .ok (directory ++ [name]) := by
  rw [walk_append, h]
  exact walk_cons_of_entryName hname hd []

end Walk

section Access

variable {world : World} {path : Path} {location : Location}

/-- What is read at a place. -/
def bytesAt : Option Entry → Except AccessError ByteArray
  | some (.file bytes _) => .ok bytes
  | some (.directory _) => .error .isDirectory
  | some .dangling => .error .missing
  | none => .error .missing

/-- The bytes at a path are those at the place to which it leads. -/
theorem readBytes_of_locate (h : world.locate path = .ok location) :
    world.readBytes path = bytesAt (world.store.seen location) := by
  simp only [readBytes, entry, h, Store.seen]
  cases world.store.find? location with
  | none => rfl
  | some entry => cases entry <;> rfl

/-- The stamp at a path is that at the place to which it leads. -/
theorem stamp?_of_locate (h : world.locate path = .ok location) :
    world.stamp? path = (world.store.find? location).bind Entry.stamp? := by
  simp only [stamp?, entry, h]
  cases world.store.find? location with
  | none => rfl
  | some entry => cases entry <;> rfl

/-- Something exists at a path if it stands at the place to which the path leads. -/
theorem pathExists_of_locate (h : world.locate path = .ok location) :
    world.pathExists path = (world.store.find? location).any fun entry => entry.stamp?.isSome := by
  simp only [pathExists, entry, h]
  cases world.store.find? location with
  | none => rfl
  | some entry => cases entry <;> rfl

/-- A file is at a path if it stands at the place to which the path leads. -/
theorem isFile_of_locate (h : world.locate path = .ok location) :
    world.isFile path = (world.store.find? location).any Entry.isFile := by
  simp only [isFile, entry, h]
  cases world.store.find? location with
  | none => rfl
  | some entry => cases entry <;> rfl

/-- A directory is at a path if it is at the place to which the path leads. -/
theorem isDirectory_of_locate (h : world.locate path = .ok location) :
    world.isDirectory path = world.store.hasDirectory location := by
  simp only [isDirectory, entry, h, Store.hasDirectory]
  cases world.store.find? location with
  | none => rfl
  | some entry => cases entry <;> rfl

/-- A path that leads nowhere leads to nothing. -/
theorem entry_of_locate_error {error : AccessError} (h : world.locate path = .error error) :
    world.entry path = .error error := by
  simp only [entry, h]

/-- Where a path shows a stamp, it leads to an entry with it. -/
theorem exists_of_stamp? {stamp : Nat} (h : world.stamp? path = some stamp) :
    ∃ location entry, world.locate path = .ok location ∧
      world.store.find? location = some entry ∧ entry.stamp? = some stamp := by
  cases hl : world.locate path with
  | error error =>
    rw [stamp?, entry_of_locate_error hl] at h
    cases h
  | ok location =>
    rw [stamp?_of_locate hl] at h
    obtain ⟨entry, hf, hs⟩ := Option.bind_eq_some_iff.mp h
    exact ⟨location, entry, rfl, hf, hs⟩

/-- A file is written where a path leads to a file or to nothing. -/
theorem writeBytes_eq_ok_iff {bytes : ByteArray} {after : World} :
    world.writeBytes path bytes = .ok after ↔
      ∃ location, world.locate path = .ok location ∧
        world.store.hasDirectory location = false ∧ world.store.find? location ≠ some .dangling ∧
        after = { world with store := world.store.writeFile location bytes } := by
  cases hl : world.locate path with
  | error error => simp [writeBytes, hl]
  | ok location =>
    cases hf : world.store.find? location with
    | none => simp [writeBytes, hl, hf, Store.hasDirectory, @eq_comm _ after]
    | some entry =>
      cases entry <;>
        simp [writeBytes, hl, hf, Store.hasDirectory, Entry.isDirectory, @eq_comm _ after]

/-- A move is one from place to place. -/
theorem movePath_eq_ok_iff {source target : Path} {after : World} :
    world.movePath source target = .ok after ↔
      ∃ start goal, world.locate source = .ok start ∧ world.locate target = .ok goal ∧
        after = { world with store := world.store.move start goal } := by
  cases hs : world.locate source with
  | error error => simp [movePath, hs]
  | ok start =>
    cases ht : world.locate target with
    | error error => simp [movePath, hs, ht]
    | ok goal => simp [movePath, hs, ht, @eq_comm _ after]

end Access

/-- The world holds files and directories only, and the working directory is a directory. -/
structure Regular (world : World) : Prop where
  no_links : ∀ location, world.store.find? location ≠ some .dangling
  here : world.store.hasDirectory world.here = true

/-- A world without dangling links, whose working directory is there, is regular. -/
theorem Regular.of_entries {world : World} (h : ∀ e ∈ world.store.entries, e.2 ≠ .dangling)
    (hhere : world.store.hasDirectory world.here = true) : world.Regular where
  no_links location hf := by
    by_cases hl : location = []
    · rw [hl] at hf
      cases hf
    · exact h _ (Store.mem_entries_of_find? hf hl) rfl
  here := hhere

/-- There are no links. -/
def Unlinked (world : World) : Prop := ∀ location, world.store.find? location ≠ some .dangling

/-- Where a path leads and nothing exists, nothing stands. -/
theorem Unlinked.find?_eq_none {world : World} (h : world.Unlinked) {path : Path}
    {location : Location} (hl : world.locate path = .ok location)
    (hmissing : world.pathExists path = false) : world.store.find? location = none := by
  rw [pathExists_of_locate hl] at hmissing
  cases hf : world.store.find? location with
  | none => rfl
  | some entry =>
    cases entry with
    | dangling => exact absurd hf (h location)
    | _ => simp [hf, Entry.stamp?] at hmissing

/-- In a regular world nothing stands where nothing exists. -/
theorem Regular.find?_eq_none {world : World} (h : world.Regular) {path : Path}
    {location : Location} (hl : world.locate path = .ok location)
    (hmissing : world.pathExists path = false) : world.store.find? location = none :=
  Unlinked.find?_eq_none h.no_links hl hmissing

section Write

variable {world after : World} {path other : Path} {location : Location} {bytes : ByteArray}

/-- A file can be written at the path. -/
def Writable (world : World) (path : Path) : Prop :=
  ∃ location, world.locate path = .ok location ∧ world.store.hasDirectory location = false ∧
    world.store.find? location ≠ some .dangling

/-- What can be written is written. -/
theorem Writable.writeBytes (h : world.Writable path) (bytes : ByteArray) :
    ∃ after, world.writeBytes path bytes = .ok after := by
  obtain ⟨location, hl, hd, hn⟩ := h
  exact ⟨_, writeBytes_eq_ok_iff.mpr ⟨location, hl, hd, hn, rfl⟩⟩

/-- What a write leaves as it was: the working directory, the directories, and what is seen at
other places. -/
structure Wrote (world : World) (location : Location) (bytes : ByteArray) (after : World) :
    Prop where
  here : after.here = world.here
  directories : world.store.SameDirectories after.store
  seen : ∀ place, after.store.seen place =
    if place = location then some (.file bytes world.store.clock) else world.store.seen place

/-- Bytes are written at the place to which the path leads. -/
theorem wrote_of_writeBytes (h : world.writeBytes path bytes = .ok after)
    (hl : world.locate path = .ok location) : world.Wrote location bytes after := by
  obtain ⟨place, hp, hd, _, rfl⟩ := writeBytes_eq_ok_iff.mp h
  obtain rfl : place = location := Except.ok.inj (hp.symm.trans hl)
  have hne : place ≠ [] := by
    rintro rfl
    cases hd
  exact ⟨rfl, Store.sameDirectories_writeFile hd bytes, fun other => Store.seen_writeFile hne ..⟩

/-- Paths lead where they led as long as the directories stay. -/
theorem locate_eq_ok_congr (hhere : after.here = world.here)
    (h : world.store.SameDirectories after.store) (path : Path) :
    after.locate path = .ok location ↔ world.locate path = .ok location := by
  have hstart : after.start path = world.start path := by rw [start, start, hhere]
  rw [locate, locate, hstart]
  exact walk_eq_ok_congr h path.names

end Write

end World

end StyleModules
