import StyleModules.Command.Run

/-!
# The command line

The files that a request is about are loaded into a store, the request is answered there, and what
has changed is written back. While watching, this is done again after every pause, and the stamps
of files that were written are taken from the disk.
-/

namespace StyleModules

/-- The stamp of a time of change. -/
def stampOfTime (time : IO.FS.SystemTime) : Nat :=
  time.sec.toNat * 1000000000 + time.nsec.toNat

/-- A location as the operating system takes it. -/
def diskName (location : Location) : String := String.ofList (Path.toText ⟨.root, location⟩)

/-- What stands at a location on the disk; bytes are only read where they are wanted. -/
def diskEntry (wanted : Bool) (location : Location) : IO (Option Entry) := do
  let path := (← IO.currentDir) / diskName location
  try
    let info ← path.metadata
    let stamp := stampOfTime info.modified
    match info.type with
    | .dir => return some (.directory stamp)
    | .file => return some (.file (← if wanted then IO.FS.readBinFile path else pure ⟨#[]⟩) stamp)
    | _ => return none
  catch _ => return none

/-- Load what stands at a location, and the directories on the way. -/
def loadLocation (location : Location) (store : Store) : IO Store := do
  let mut loaded := store
  for length in List.range location.length do
    let place := location.take (length + 1)
    if let some entry ← diskEntry true place then loaded := loaded.put place entry
  return loaded

/-- Load everything below a directory, but not what is in directories that are left alone. -/
partial def loadBelow (location : Location) (store : Store) : IO Store := do
  let directory := (← IO.currentDir) / diskName location
  let found ← try directory.readDir catch _ => pure #[]
  let mut loaded := store
  for item in found do
    let name := item.fileName.toList
    let place := location ++ [name]
    let wanted := watchedSuffixes.contains (Path.suffix ⟨.root, place⟩)
    match ← diskEntry wanted place with
    | none => loaded := loaded.put place .dangling
    | some entry =>
      loaded := loaded.put place entry
      if entry.isDirectory && name != skippedName then loaded ← loadBelow place loaded
  return loaded

/-- Load the files on the way up from a location that mark the root of a project. -/
def loadProjectFiles (location : Location) (store : Store) : IO Store := do
  let mut loaded := store
  for directory in ancestors location do
    loaded ← loadLocation (directory ++ [projectFile]) loaded
  return loaded

/-- A store whose clock is ahead of all stamps in it. -/
def setClock (store : Store) : Store :=
  let latest := store.entries.foldl (fun n e => max n ((e.2.stamp?).getD 0)) 0
  { store with clock := latest + 1 }

/-- The working directory, with nothing loaded but the way to it. -/
def loadHere : IO World := do
  let here := (Path.ofText (← IO.currentDir).toString.toList).names
  return { store := ← loadLocation here {}, here := here }

/-- Load a file by the path that names it. -/
def loadPath (world : World) (path : Path) : IO World := do
  return { world with store := ← loadLocation (world.resolve path).names world.store }

/-- Load what a request is about. -/
def loadFor (world : World) : Request → IO World
  | .version => return world
  | .format files sort _ _ => (files ++ sort.toList).foldlM (loadPath · <| Path.ofText ·) world
  | .spec sort => sort.toList.foldlM (loadPath · <| Path.ofText ·) world
  | .sync directory _ _ sortFile _ _ _ => do
    let marked := { world with store := ← loadProjectFiles world.here world.store }
    let loaded ← sortFile.toList.foldlM (loadPath · <| Path.ofText ·) marked
    let target := (loaded.targetDirectory ⟨.root, loaded.here⟩ directory).names
    let reached ← loadLocation target loaded.store
    return { loaded with store := ← loadBelow target reached }

/-- Write to the disk what has changed in the store. -/
def saveChanges (before after : Store) : IO Unit := do
  for (location, entry) in after.entries do
    if let .file bytes stamp := entry then
      if (before.find? location).bind Entry.stamp? != some stamp then
        IO.FS.writeBinFile (diskName location) bytes
  for (location, entry) in before.entries do
    if entry.isFile && (after.find? location).isNone then IO.FS.removeFile (diskName location)

/-- Print what has been reported. -/
def showJournal (verbose : Bool) (journal : List Notice) : IO Unit := do
  for notice in journal do
    if let some line := notice.outputLine? then IO.println (String.ofList line)
    if let some line := notice.sideLine? verbose then IO.eprintln (String.ofList line)
  (← IO.getStdout).flush

/-- The words for a fault that ended the work. -/
def Fault.words : Fault → Text
  | .undecodable => "A file is not valid UTF-8".toList
  | .unencodable => "A half of a character cannot be written".toList
  | .access error path => error.message path
  | .interrupted => "Interrupted".toList
  | fault => fault.message?.getD []

/-- Run an operation, write back what it changed and print what it reported. -/
def perform {α : Type} (verbose : Bool) (action : Session α) (world : World) :
    IO (Except Fault α) := do
  let start := { world with store := setClock world.store, journal := [] }
  let (result, after) := action.exec start
  saveChanges start.store after.store
  showJournal verbose after.journal
  if let .error fault := result then IO.eprintln (String.ofList fault.words)
  return result

/-- The snapshot with the stamps on the disk for the files that were written. -/
def restamp (snapshot : Snapshot) (clock : Nat) : IO Snapshot :=
  snapshot.mapM fun (path, stamp) => do
    if stamp < clock then return (path, stamp)
    let entry ← diskEntry false path.names
    return (path, ((entry.bind Entry.stamp?).getD stamp))

/-- Poll after every pause, until the program is ended. -/
partial def watchDisk (verbose : Bool) (request : Request) (pause : Nat)
    (runner : Runner CodeText) (snapshot : Snapshot) : IO UInt32 := do
  IO.sleep pause.toUInt32
  let world ← loadFor (← loadHere) request
  match ← perform verbose (runner.poll snapshot) world with
  | .error _ => return 1
  | .ok next =>
    let fresh ← restamp next (setClock world.store).clock
    watchDisk verbose request pause runner fresh

/-- Sync once, then watch. -/
def syncAndWatch (verbose : Bool) (request : Request) (directory : Text) (modes : Modes)
    (interval : Interval) : IO UInt32 := do
  let scanned ← perform verbose (do
    let runner ← prepareSync directory modes
    let _ ← runner.scan
    Session.log .info "Watching for changes...".toList
    return runner) (← loadFor (← loadHere) request)
  match scanned with
  | .error _ => return 1
  | .ok runner =>
    let world ← loadFor (← loadHere) request
    watchDisk verbose request interval.milliseconds runner (runner.snapshot world)

/-- Answer a command line. -/
def answer (args : List Text) : IO UInt32 := do
  match Invocation.parse args with
  | none =>
    IO.eprintln "Usage: css-sync [-v] [--version] format|sync|spec [OPTIONS] [FILES]"
    return usageError.toUInt32
  | some ⟨verbose, .sync directory generate sort sortFile true headers interval⟩ =>
    syncAndWatch verbose (.sync directory generate sort sortFile true headers interval) directory
      ⟨generate, sort, sortFile.map Path.ofText, true, headers⟩ interval
  | some ⟨verbose, request⟩ =>
    let ended ← perform verbose (request.run []) (← loadFor (← loadHere) request)
    return (exitCode ended).toUInt32

end StyleModules

/-- The command line of the program. -/
def main (args : List String) : IO UInt32 := StyleModules.answer (args.map String.toList)
