import StyleModules.Files.Fault
import StyleModules.Files.Store
import StyleModules.Text.Encoding

/-!
# Files by path

A world is a store, a working directory and a journal of what has been reported. Paths are followed
name by name: every name on the way must be a directory, and two points lead to the directory
around. An operation changes the world and ends with a value or with a fault; what it did before a
fault stays done.
-/

namespace StyleModules

/-- How important a report is. -/
inductive Level where
  /-- A detail. -/
  | debug
  /-- A change that was made. -/
  | info
  /-- Something that was skipped. -/
  | warning
  /-- Something that could not be done. -/
  | error
  deriving DecidableEq, Repr

/-- A report. -/
inductive Notice where
  /-- A record of the log. -/
  | logged (level : Level) (message : Text)
  /-- A line of output. -/
  | printed (line : Text)
  /-- A line beside the output. -/
  | warned (line : Text)
  deriving DecidableEq, Repr

/-- All that operations can see and change. -/
structure World where
  /-- The files. -/
  store : Store := {}
  /-- The working directory. -/
  here : Location := []
  /-- What has been reported, in order. -/
  journal : List Notice := []

namespace World

/-- Follow names from a location. An empty name or a point stays in a directory. -/
def walk (store : Store) : Location → List Text → Except AccessError Location
  | location, [] => .ok location
  | location, name :: rest =>
    match store.find? location with
    | some (.directory _) =>
      if name.isEmpty || name == ['.'] then walk store location rest
      else if name == ['.', '.'] then walk store location.dropLast rest
      else walk store (location ++ [name]) rest
    | some (.file _ _) => .error .notDirectory
    | _ => .error .missing

/-- Where a path starts. -/
def start (world : World) (path : Path) : Location :=
  if path.anchor == .relative then world.here else []

/-- Where a path leads; nothing needs to stand there. -/
def locate (world : World) (path : Path) : Except AccessError Location :=
  walk world.store (world.start path) path.names

/-- What stands at a path; a link that leads nowhere counts as nothing. -/
def entry (world : World) (path : Path) : Except AccessError Entry :=
  match world.locate path with
  | .error error => .error error
  | .ok location =>
    match world.store.find? location with
    | none => .error .missing
    | some .dangling => .error .missing
    | some entry => .ok entry

/-- What stands at a path given as it was typed, where a slash at the end asks for a directory. -/
def typedEntry (world : World) (t : Text) : Except AccessError Entry :=
  if t.isEmpty then .error .missing
  else match walk world.store (world.start (Path.ofText t)) (Text.splitAll '/' t) with
    | .error error => .error error
    | .ok location => world.entry ⟨.root, location⟩

/-- Something stands at the path. -/
def pathExists (world : World) (path : Path) : Bool :=
  match world.entry path with
  | .ok _ => true
  | .error _ => false

/-- A file stands at the path. -/
def isFile (world : World) (path : Path) : Bool :=
  match world.entry path with
  | .ok entry => entry.isFile
  | .error _ => false

/-- A directory stands at the path. -/
def isDirectory (world : World) (path : Path) : Bool :=
  match world.entry path with
  | .ok entry => entry.isDirectory
  | .error _ => false

/-- The stamp of what stands at the path. -/
def stamp? (world : World) (path : Path) : Option Nat :=
  match world.entry path with
  | .ok entry => entry.stamp?
  | .error _ => none

/-- The bytes of the file at a path. -/
def readBytes (world : World) (path : Path) : Except AccessError ByteArray :=
  match world.entry path with
  | .error error => .error error
  | .ok (.file bytes _) => .ok bytes
  | .ok _ => .error .isDirectory

/-- Write the file at a path; there must be a directory for it. -/
def writeBytes (world : World) (path : Path) (bytes : ByteArray) : Except AccessError World :=
  match world.locate path with
  | .error error => .error error
  | .ok location =>
    match world.store.find? location with
    | some (.directory _) => .error .isDirectory
    | some .dangling => .error .missing
    | _ => .ok { world with store := world.store.writeFile location bytes }

/-- Move what stands at a path to another. -/
def movePath (world : World) (source target : Path) : Except AccessError World :=
  match world.locate source, world.locate target with
  | .error error, _ => .error error
  | _, .error error => .error error
  | .ok source, .ok target => .ok { world with store := world.store.move source target }

/-- The paths of the entries in a directory; elsewhere there are none. -/
def listing (world : World) (path : Path) : List Path :=
  match world.isDirectory path, world.locate path with
  | true, .ok location => (world.store.list location).map path.child
  | _, _ => []

/-- The paths of all entries below a directory; elsewhere there are none. -/
def descendants (world : World) (path : Path) : List Path :=
  match world.isDirectory path, world.locate path with
  | true, .ok location =>
    (world.store.below location).map fun e => { path with names := path.names ++ e.1 }
  | _, _ => []

/-- Follow a name without looking at the files: two points drop the name before. -/
def stepName (location : Location) (name : Text) : Location :=
  if name == ['.', '.'] then location.dropLast else location ++ [name]

/-- The path from the root that leads to the same place, whether or not anything is there. -/
def resolve (world : World) (path : Path) : Path :=
  ⟨.root, path.names.foldl stepName (world.start path)⟩

/-- Add a report. -/
def report (world : World) (notice : Notice) : World :=
  { world with journal := world.journal ++ [notice] }

end World

/-- An operation on the world. -/
abbrev Session (α : Type) := ExceptT Fault (StateM World) α

namespace Session

/-- The value or fault of an operation, and the world after it. -/
def exec {α : Type} (action : Session α) (world : World) : Except Fault α × World :=
  StateT.run (ExceptT.run action) world

/-- Something about the world. -/
def look {α : Type} (view : World → α) : Session α := do return view (← get)

/-- Log a message. -/
def log (level : Level) (message : Text) : Session Unit :=
  modify (·.report (.logged level message))

/-- Print a line. -/
def print (line : Text) : Session Unit := modify (·.report (.printed line))

/-- Print a line beside the output. -/
def warn (line : Text) : Session Unit := modify (·.report (.warned line))

/-- The text of the file at a path; bytes that are no text are a fault. -/
def readText (path : Path) : Session (Except AccessError Text) := do
  match ← look (·.readBytes path) with
  | .error error => return .error error
  | .ok bytes =>
    match decodeText? bytes with
    | none => throw .undecodable
    | some t => return .ok t

/-- Put the world after a change in place of the one before, or fail. -/
def change (path : Path) (act : World → Except AccessError World) : Session Unit := do
  match act (← get) with
  | .error error => throw (.access error path)
  | .ok world => set world

/-- Write a text to the file at a path. -/
def writeText (path : Path) (t : Text) : Session Unit :=
  change path (·.writeBytes path (encodeText t))

/-- Write the text that a string spells to the file at a path. A string that spells none cannot be
encoded, which shows when the file has been emptied for it. -/
def writeSpelled (path : Path) : Option Text → Session Unit
  | some t => writeText path t
  | none => do
    writeText path []
    throw .unencodable

/-- Move what stands at a path to another. -/
def movePath (source target : Path) : Session Unit := change source (·.movePath source target)

end Session

end StyleModules
