import StyleModules.Path

/-!
# The file store

A store holds files, directories and links that lead nowhere, each at a location: the names on the
way from the root. Files and directories carry a stamp, the time of their last change. A clock
hands out stamps that have never been seen. Writing a file gives it a fresh stamp, moving an entry
keeps its stamp, and a directory gets a fresh one when an entry in it comes or goes.

Main statements: what is found after an entry is put or removed (`find?_put_self`,
`find?_put_of_ne`).
-/

namespace StyleModules

/-- The names on the way from the root. -/
abbrev Location := List Text

/-- What stands at a location. -/
inductive Entry where
  /-- A file with its bytes and its stamp. -/
  | file (bytes : ByteArray) (stamp : Nat)
  /-- A directory with its stamp. -/
  | directory (stamp : Nat)
  /-- A link that leads nowhere: it is listed, but nothing is there. -/
  | dangling

/-- The stamp of an entry that has one. -/
def Entry.stamp? : Entry → Option Nat
  | file _ stamp => some stamp
  | directory stamp => some stamp
  | dangling => none

/-- The entry is a directory. -/
def Entry.isDirectory : Entry → Bool
  | directory _ => true
  | _ => false

/-- The entry is a file. -/
def Entry.isFile : Entry → Bool
  | file _ _ => true
  | _ => false

/-- Entries by location, and the next stamp. -/
structure Store where
  /-- The entries; the first one of a location counts. -/
  entries : List (Location × Entry) := []
  /-- The next stamp, larger than all in use. -/
  clock : Nat := 1

namespace Store

/-- What stands at a location; the root is always a directory. -/
def find? (store : Store) (location : Location) : Option Entry :=
  if location.isEmpty then some (.directory 0) else store.entries.lookup location

/-- Put an entry at a location. -/
def put (store : Store) (location : Location) (entry : Entry) : Store :=
  { store with entries := (location, entry) :: store.entries.filter (·.1 != location) }

/-- Move the clock on. -/
def tick (store : Store) : Store := { store with clock := store.clock + 1 }

/-- Give a directory a fresh stamp. -/
def renew (store : Store) (location : Location) : Store :=
  match store.entries.lookup location with
  | some (.directory _) => (store.put location (.directory store.clock)).tick
  | _ => store

/-- Put an entry at a location; if none was there, the directory around it changes. -/
def place (store : Store) (location : Location) (entry : Entry) : Store :=
  let placed := store.put location entry
  if (store.find? location).isSome then placed else placed.renew location.dropLast

/-- Write a file. -/
def writeFile (store : Store) (location : Location) (bytes : ByteArray) : Store :=
  store.tick.place location (.file bytes store.clock)

/-- The location lies at or below another. -/
def isWithin (location base : Location) : Bool := base.isPrefixOf location

/-- The location after a move. -/
def movedLocation (source target location : Location) : Location :=
  if isWithin location source then target ++ location.drop source.length else location

/-- Move what stands at and below a location to another, in place of what stands there. -/
def move (store : Store) (source target : Location) : Store :=
  if source == target then store
  else
    let kept := store.entries.filter (!isWithin ·.1 target)
    let moved := kept.map fun (location, entry) => (movedLocation source target location, entry)
    ({ store with entries := moved }.renew source.dropLast).renew target.dropLast

/-- The names of the entries directly in a location. -/
def list (store : Store) (location : Location) : List Text :=
  store.entries.filterMap fun e =>
    if e.1.length == location.length + 1 && isWithin e.1 location then e.1.getLast? else none

/-- The entries below a location, with their locations as seen from there. -/
def below (store : Store) (location : Location) : List (Location × Entry) :=
  store.entries.filterMap fun e =>
    if location.length < e.1.length && isWithin e.1 location then
      some (e.1.drop location.length, e.2)
    else none

/-- A put entry is found. -/
@[simp] theorem find?_put_self (store : Store) {location : Location} (h : location ≠ [])
    (entry : Entry) : (store.put location entry).find? location = some entry := by
  simp [find?, put, h]

/-- Other entries are found as before. -/
theorem find?_put_of_ne (store : Store) {location other : Location} (h : other ≠ location)
    (entry : Entry) : (store.put location entry).find? other = store.find? other := by
  unfold find? put
  split
  · rfl
  · have hb : (other == location) = false := by simpa using h
    rw [List.lookup_cons, hb]
    generalize store.entries = entries
    induction entries with
    | nil => rfl
    | cons e rest ih =>
      obtain ⟨key, value⟩ := e
      by_cases hk : key = location
      · subst hk
        simp [List.lookup_cons, hb, ih]
      · by_cases ho : other = key
        · subst ho
          simp [hk]
        · have hob : (other == key) = false := by simpa using ho
          simpa [List.lookup_cons, hk, hob] using ih

end Store

end StyleModules
