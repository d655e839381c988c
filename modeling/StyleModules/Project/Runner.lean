import StyleModules.Category.Load
import StyleModules.Component.Orphan
import StyleModules.Component.Sync
import StyleModules.Project.Config

/-!
# Syncing a source tree

A runner syncs all components below its target directory once, or polls for changes. A snapshot
holds the stamps of the watched files. A poll compares a fresh snapshot with an earlier one,
handles every file that is new or changed, and returns the fresh snapshot with the stamps of the
files it wrote itself; so its own writes are not seen as changes, and changes that others make
meanwhile are.
-/

namespace StyleModules

/-- The suffixes of watched files. -/
def watchedSuffixes : List Text := componentSuffixes ++ [sheetSuffix]

/-- The stamps of files. -/
abbrev Snapshot := List (Path × Nat)

namespace Snapshot

/-- The stamp of a file. -/
def stamp? (snapshot : Snapshot) (path : Path) : Option Nat := List.lookup path snapshot

/-- Forget a file. -/
def erase (snapshot : Snapshot) (path : Path) : Snapshot := snapshot.filter (·.1 != path)

/-- Set the stamp of a file, or forget a file that has none. -/
def set (snapshot : Snapshot) (path : Path) : Option Nat → Snapshot
  | some stamp => snapshot.erase path ++ [(path, stamp)]
  | none => snapshot.erase path

/-- The files in order. -/
def paths (snapshot : Snapshot) : List Path := (snapshot.map (·.1)).mergeSort Path.le

/-- Both snapshots hold the same stamps for the same files. -/
def agrees (a b : Snapshot) : Bool := a.all b.contains && b.all a.contains

end Snapshot

/-- Directories of this name are left alone with all that is in them. -/
def skippedName : Text := "node_modules".toList

/-- The path leads through a directory that is left alone. -/
def Path.isSkipped (path : Path) : Bool := path.parts.contains skippedName

/-- A runner: its configuration, its specification, and whether it has been stopped. -/
structure Runner (σ : Type := Text) where
  /-- The directory to sync, and how. -/
  config : Config
  /-- The specification by which declarations are sorted. -/
  spec : Spec σ := []
  /-- The runner has been asked to stop. -/
  stopped : Bool := false

namespace Runner

/-- A runner for a configuration, with the specification given or the one it names. -/
def make (config : Config) : Option (Spec CodeText) → Session (Runner CodeText)
  | some spec => return { config := config, spec := spec }
  | none => do
    if config.modes.sort then
      let spec ← loadSpecOrBuiltin (config.modes.sortPath.map Path.toText)
      return { config := config, spec := spec }
    else return { config := config }

variable {σ : Type} [Script σ]

/-- The runner with the code points of its specification. -/
def stored (runner : Runner σ) : Runner CodeText :=
  { config := runner.config, spec := runner.spec.stored, stopped := runner.stopped }

/-- How the runner lays out stylesheets. -/
def style (runner : Runner σ) : Style σ := ⟨runner.spec, runner.config.modes.headers⟩

/-- All components below the target directory, in order. -/
def components (runner : Runner σ) (world : World) : List Path :=
  ((world.descendants runner.config.target).filter fun path =>
    world.isFile path && path.isComponent && !path.isSkipped).mergeSort Path.le

/-- Sync one component. -/
def sync (runner : Runner σ) (component : Path) : Session SyncResult :=
  syncComponent runner.style runner.config.modes.generate component

/-- Sync components one after the other. -/
def syncAll (runner : Runner σ) : List Path → Session (List SyncResult)
  | [] => return []
  | component :: rest => do
    let result ← runner.sync component
    let results ← runner.syncAll rest
    return result :: results

/-- Sync every component once; the results are those that changed files. -/
def scan (runner : Runner σ) : Session (List SyncResult) := do
  let target := runner.config.target
  if ← Session.look (·.isDirectory target) then
    let results ← runner.syncAll (← Session.look runner.components)
    return results.filter SyncResult.changed
  else
    Session.log .error ("Error scanning ".toList ++ target.toText ++ ": not a directory".toList)
    return []

/-- The stamps of all watched files below the target directory, in order. -/
def snapshot (runner : Runner σ) (world : World) : Snapshot :=
  let watched := (world.descendants runner.config.target).filter fun path =>
    watchedSuffixes.contains path.suffix && !path.isSkipped
  (watched.mergeSort Path.le).filterMap fun path => (world.stamp? path).map (path, ·)

/-- Handle a file that is new or changed, and tell which files were written. -/
def handle (runner : Runner σ) (path : Path) (isNew : Bool) : Session (List Path) := do
  if path.isComponent then
    let adopted ←
      if isNew && runner.config.modes.generate then adoptOrphan path else pure none
    let result ← runner.sync path
    return adopted.toList ++ result.written
  else if runner.config.modes.sort && path.suffix == sheetSuffix then
    return if ← formatFile runner.style path then [path] else []
  else return []

/-- Handle, one after the other, the files whose stamps differ from an earlier snapshot, and tell
which files were written. -/
def handleAll (runner : Runner σ) (previous : Snapshot) : Snapshot → Session (List Path)
  | [] => return []
  | (path, stamp) :: rest => do
    if previous.stamp? path == some stamp then runner.handleAll previous rest
    else
      let written ← runner.handle path (previous.stamp? path).isNone
      let later ← runner.handleAll previous rest
      return written ++ later

/-- Take over the stamps of files. -/
def absorb (world : World) (snapshot : Snapshot) (written : List Path) : Snapshot :=
  written.foldl (fun current path => current.set path (world.stamp? path)) snapshot

/-- Handle all changes since an earlier snapshot, and return the new one. -/
def poll (runner : Runner σ) (previous : Snapshot) : Session Snapshot := do
  let current ← Session.look runner.snapshot
  let written ← runner.handleAll previous current
  Session.look (absorb · current written)

end Runner

/-- What happens while a runner waits: others change the world, and may ask it to stop. -/
structure Pause where
  /-- The world after the pause. -/
  change : World → World := id
  /-- The runner is asked to stop. -/
  stop : Bool := false

namespace Runner

variable {σ : Type} [Script σ]

/-- Poll after each pause until asked to stop or until the limit on polls is reached. The end of
the pauses is an interruption. The result says whether the runner was asked to stop. -/
def watchFrom (runner : Runner σ) : List Pause → Option Nat → Snapshot → Session Bool
  | _, some 0, _ => return false
  | [], _, _ => throw .interrupted
  | pause :: pauses, limit, snapshot => do
    modify pause.change
    if pause.stop then return true
    let next ← runner.poll snapshot
    runner.watchFrom pauses (limit.map (· - 1)) next

/-- Watch the target directory. A runner that has been stopped does not wait. -/
def watch (runner : Runner σ) (pauses : List Pause) (limit : Option Nat) : Session Bool := do
  Session.log .info "Watching for changes...".toList
  if runner.stopped then return true
  runner.watchFrom pauses limit (← Session.look runner.snapshot)

/-- Scan once, then go on watching if the configuration says so. The truth value says whether the
runner was asked to stop. -/
def run (runner : Runner σ) (pauses : List Pause) : Session (List SyncResult × Bool) := do
  let results ← runner.scan
  if runner.config.modes.watch then
    let stopped ← runner.watch pauses none
    return (results, stopped)
  else return (results, runner.stopped)

end Runner

end StyleModules
