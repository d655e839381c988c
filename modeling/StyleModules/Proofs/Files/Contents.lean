import StyleModules.Proofs.Files.Effect

/-!
# What stands in files, stamps apart

The contents of a store are its entries without their stamps. Two worlds agree on places if the same
directories stand in both, and the same contents at these places (`World.Agrees`). Paths lead to the
same places in such worlds, and what is found there is the same. The same writes keep worlds in
agreement (`Session.Performs.agrees`), and a world agrees with itself before the writes wherever
none of them leads (`Session.Performs.agrees_elsewhere`).
-/

namespace StyleModules

/-- The entry without its stamp. -/
def Entry.unstamped : Entry → Entry
  | file bytes _ => file bytes 0
  | directory _ => directory 0
  | dangling => dangling

/-- What stands at a location, its stamp apart. -/
def Store.contents (store : Store) (location : Location) : Option Entry :=
  (store.find? location).map Entry.unstamped

/-- Contents are what is seen, without stamps. -/
theorem Store.contents_eq (store : Store) (location : Location) :
    store.contents location = (store.seen location).map Entry.unstamped := by
  unfold contents seen
  cases store.find? location with
  | none => rfl
  | some entry => cases entry <;> rfl

/-- What reading finds. -/
inductive Finding where
  /-- Nothing is there. -/
  | nothing
  /-- A directory is there. -/
  | directory
  /-- A file is there whose bytes are no text. -/
  | undecodable
  /-- A file is there that holds a text. -/
  | text (t : Text)

/-- What reading finds in an entry. -/
def Finding.ofEntry : Option Entry → Finding
  | some (.file bytes _) =>
    match decodeText? bytes with
    | some t => .text t
    | none => .undecodable
  | some (.directory _) => .directory
  | _ => .nothing

namespace World

variable {world other after later : World} {path : Path} {location : Location}
  {bytes : ByteArray} {places more : Location → Prop}

/-- What stands where a path leads, its stamp apart. -/
def content (world : World) (path : Path) : Option Entry :=
  match world.locate path with
  | .ok location => world.store.contents location
  | .error _ => none

/-- What reading a path finds. -/
def finding (world : World) (path : Path) : Finding := .ofEntry (world.content path)

/-- The content at a path is that at the place to which it leads. -/
theorem content_of_locate (h : world.locate path = .ok location) :
    world.content path = world.store.contents location := by
  simp only [content, h]

section Reading

/-- A file that is read is the content at its path. -/
theorem content_of_readBytes (h : world.readBytes path = .ok bytes) :
    world.content path = some (.file bytes 0) := by
  obtain ⟨location, stamp, hl, hf⟩ := exists_of_readBytes h
  rw [content_of_locate hl, Store.contents, hf]
  rfl

/-- A held text is found. -/
theorem finding_of_holds {t : Text} (h : world.Holds path t) : world.finding path = .text t := by
  obtain ⟨bytes, hread, hdecode⟩ := h
  rw [finding, content_of_readBytes hread]
  simp only [Finding.ofEntry, hdecode]

/-- A file that was written as a text holds one. -/
theorem finding_ne_undecodable {t : Text} (h : world.readBytes path = .ok (encodeText t)) :
    world.finding path ≠ .undecodable := by
  rw [finding_of_holds ⟨_, h, decodeText?_encodeText t⟩]
  exact Finding.noConfusion

/-- Bytes that are no text are found as such. -/
theorem finding_of_undecodable (hread : world.readBytes path = .ok bytes)
    (hdecode : decodeText? bytes = none) : world.finding path = .undecodable := by
  rw [finding, content_of_readBytes hread]
  simp only [Finding.ofEntry, hdecode]

/-- Nothing is found where nothing exists. -/
theorem finding_of_missing (h : world.pathExists path = false) :
    world.finding path = .nothing := by
  cases hl : world.locate path with
  | error error => simp only [finding, content, hl, Finding.ofEntry]
  | ok location =>
    rw [pathExists_of_locate hl] at h
    rw [finding, content_of_locate hl, Store.contents]
    cases hf : world.store.find? location with
    | none => rfl
    | some entry =>
      rw [hf] at h
      cases entry with
      | dangling => rfl
      | _ => cases h

/-- Where nothing can be read there is nothing, or a directory. -/
theorem finding_of_unreadable {error : AccessError} (h : world.readBytes path = .error error) :
    world.finding path = if world.pathExists path then .directory else .nothing := by
  cases hl : world.locate path with
  | error error =>
    rw [pathExists, entry_of_locate_error hl]
    simp only [finding, content, hl, Finding.ofEntry, Bool.false_eq_true, if_false]
  | ok location =>
    rw [readBytes_of_locate hl, Store.seen] at h
    rw [pathExists_of_locate hl, finding, content_of_locate hl, Store.contents]
    cases hf : world.store.find? location with
    | none => rfl
    | some entry =>
      rw [hf] at h
      cases entry with
      | file => cases h
      | _ => rfl

end Reading

/-- The worlds have the same directories and, at these places, the same contents. -/
structure Agrees (places : Location → Prop) (world other : World) : Prop where
  here : other.here = world.here
  directories : world.store.SameDirectories other.store
  contents : ∀ location, places location →
    other.store.contents location = world.store.contents location

namespace Agrees

/-- A world agrees with itself. -/
theorem refl (places : Location → Prop) (world : World) : Agrees places world world :=
  ⟨rfl, fun _ => rfl, fun _ _ => rfl⟩

/-- Agreement goes on. -/
theorem trans (h : Agrees places world other) (h' : Agrees places other after) :
    Agrees places world after :=
  ⟨h'.here.trans h.here, h.directories.trans h'.directories,
    fun location hp => (h'.contents location hp).trans (h.contents location hp)⟩

/-- Worlds agree on fewer places. -/
theorem mono (h : Agrees places world other) (hsub : ∀ location, more location → places location) :
    Agrees more world other :=
  ⟨h.here, h.directories, fun location hp => h.contents location (hsub location hp)⟩

/-- Worlds that agree lead each path to the same place. -/
theorem locate_eq_ok_iff (h : Agrees places world other) :
    other.locate path = .ok location ↔ world.locate path = .ok location :=
  locate_eq_ok_congr h.here h.directories path

/-- Where a path leads to a place of agreement, or nowhere, it finds the same. -/
theorem content (h : Agrees places world other)
    (hpath : ∀ location, world.locate path = .ok location → places location) :
    other.content path = world.content path := by
  cases hl : world.locate path with
  | ok location =>
    rw [content_of_locate hl, content_of_locate (h.locate_eq_ok_iff.mpr hl),
      h.contents location (hpath location hl)]
  | error error =>
    cases hl' : other.locate path with
    | ok location =>
      rw [h.locate_eq_ok_iff, hl] at hl'
      cases hl'
    | error other => simp only [World.content, hl, hl']

/-- Worlds that agree where a path leads show the same there. -/
theorem finding (h : Agrees places world other)
    (hpath : ∀ location, world.locate path = .ok location → places location) :
    other.finding path = world.finding path := by
  rw [World.finding, World.finding, h.content hpath]

end Agrees

section Writing

/-- A write is found at one place. -/
theorem Wrote.contents (h : world.Wrote location bytes after) (place : Location) :
    after.store.contents place =
      if place = location then some (.file bytes 0) else world.store.contents place := by
  rw [Store.contents_eq, h.seen]
  split
  · rfl
  · rw [Store.contents_eq]

/-- The same write keeps worlds in agreement. -/
theorem Agrees.writeBytes (h : Agrees places world other)
    (hwrite : world.writeBytes path bytes = .ok after)
    (hwrite' : other.writeBytes path bytes = .ok later) : Agrees places after later := by
  obtain ⟨location, hl, -⟩ := writeBytes_eq_ok_iff.mp hwrite
  have hwrote := wrote_of_writeBytes hwrite hl
  have hwrote' := wrote_of_writeBytes hwrite' (h.locate_eq_ok_iff.mpr hl)
  refine ⟨?_, fun place => ?_, fun place hplace => ?_⟩
  · rw [hwrote'.here, hwrote.here, h.here]
  · rw [hwrote'.directories, hwrote.directories, h.directories]
  · rw [hwrote'.contents, hwrote.contents, h.contents place hplace]

/-- Worlds that agree do so after the same writes. -/
theorem Agrees.writeAll {writes : List (Path × Text)} (h : Agrees places world other)
    (hwrites : world.writeAll writes = .ok after) (hwrites' : other.writeAll writes = .ok later) :
    Agrees places after later := by
  induction writes generalizing world other with
  | nil =>
    obtain rfl := Except.ok.inj hwrites
    obtain rfl := Except.ok.inj hwrites'
    exact h
  | cons write writes ih =>
    obtain ⟨path, t⟩ := write
    obtain ⟨next, hnext, hrest⟩ := exists_of_writeAll_cons hwrites
    obtain ⟨next', hnext', hrest'⟩ := exists_of_writeAll_cons hwrites'
    exact ih (h.writeBytes hnext hnext') hrest hrest'

/-- Writing keeps a world of files and directories. -/
theorem Regular.writeAll {writes : List (Path × Text)} (h : world.Regular)
    (hwrites : world.writeAll writes = .ok after) : after.Regular := by
  induction writes generalizing world with
  | nil => exact Except.ok.inj hwrites ▸ h
  | cons write writes ih =>
    obtain ⟨path, t⟩ := write
    obtain ⟨next, hnext, hrest⟩ := exists_of_writeAll_cons hwrites
    obtain ⟨location, hl, -⟩ := writeBytes_eq_ok_iff.mp hnext
    have hwrote := wrote_of_writeBytes hnext hl
    refine ih ⟨fun place => ?_, ?_⟩ hrest
    · rw [ne_eq, ← Store.seen_eq_dangling_iff, hwrote.seen]
      split
      · simp
      · rw [Store.seen_eq_dangling_iff]
        exact h.no_links place
    · rw [hwrote.here, hwrote.directories, h.here]

end Writing

end World

namespace Session.Performs

open World

variable {α : Type} {action : Session α} {outcome outcome' : Except Fault α}
  {world other after later : World} {writes : List (Path × Text)} {places : Location → Prop}

/-- An operation keeps a regular world regular. -/
theorem regular (h : action.Performs world outcome writes after) (hworld : world.Regular) :
    after.Regular :=
  have hmuted : world.muted.Regular := ⟨hworld.no_links, hworld.here⟩
  have hafter : after.muted.Regular := hmuted.writeAll h.wrote
  ⟨hafter.no_links, hafter.here⟩

/-- The same writes keep worlds in agreement. -/
theorem agrees (h : action.Performs world outcome writes after)
    (h' : action.Performs other outcome' writes later) (hworlds : Agrees places world other) :
    Agrees places after later :=
  have hmuted : Agrees places world.muted other.muted :=
    ⟨hworlds.here, hworlds.directories, hworlds.contents⟩
  have hafter : Agrees places after.muted later.muted := hmuted.writeAll h.wrote h'.wrote
  ⟨hafter.here, hafter.directories, hafter.contents⟩

/-- Where none of the writes leads, all stays as it was. -/
theorem agrees_elsewhere (h : action.Performs world outcome writes after) :
    Agrees (fun location => ∀ write ∈ writes, world.locate write.1 ≠ .ok location) world after := by
  have hwrote := wroteAll_of_writeAll h.wrote
  refine ⟨hwrote.here, hwrote.directories, fun location hlocation => ?_⟩
  have hseen : after.store.seen location = world.store.seen location :=
    hwrote.seen location hlocation
  rw [Store.contents_eq, Store.contents_eq, hseen]

end Session.Performs

end StyleModules
