import StyleModules.Command.Request
import StyleModules.Project.Runner
import StyleModules.Text.ControlSequence

/-!
# Answering requests

A request is answered by printing lines, changing files and ending with an exit code: 0 if all
went well, 1 if a check failed or a fault ended the work, 2 for a usage error. Lines are printed
without control sequences. Log records appear beside the output as they are, details only if they
are asked for.
-/

namespace StyleModules

/-- The name of a level in the log. -/
def Level.name : Level → Text
  | debug => "DEBUG".toList
  | info => "INFO".toList
  | warning => "WARNING".toList
  | error => "ERROR".toList

/-- The line printed, if the notice is output. -/
def Notice.outputLine? : Notice → Option Text
  | printed line => some line.withoutControls
  | _ => none

/-- The line printed beside the output, if any. -/
def Notice.sideLine? (verbose : Bool) : Notice → Option Text
  | printed _ => none
  | warned line => some line.withoutControls
  | logged level message =>
    if verbose then some (level.name ++ [' '] ++ message)
    else if level == .debug then none
    else some message

/-- The exit code of a usage error. -/
def usageError : Nat := 2

/-- A file that can be formatted stands at the path, as it was typed. -/
def isFormattable (world : World) (file : Text) : Bool :=
  match world.typedEntry file with
  | .ok entry => !entry.isDirectory
  | .error _ => false

/-- Format a file or check it, and tell whether it is not in canonical layout. -/
def formatOne (style : Style CodeText) (check : Bool) (file : Text) : Session Bool := do
  let path := Path.ofText file
  match ← Session.readText path with
  | .error error => throw (.access error path)
  | .ok css =>
    let out := style.lay (parse css)
    if out == some css then return false
    if check then Session.print ("Would reformat: ".toList ++ file)
    else
      Session.writeSpelled path out
      Session.print ("Formatted: ".toList ++ file)
    return true

/-- Format or check files one after the other, and tell how many are not in canonical layout. -/
def formatEach (style : Style CodeText) (check : Bool) : List Text → Session Nat
  | [] => return 0
  | file :: rest => do
    let differs ← formatOne style check file
    let later ← formatEach style check rest
    return (if differs then 1 else 0) + later

/-- Format or check files. -/
def runFormat (files : List Text) (sort : Option Text) (check headers : Bool) : Session Nat := do
  let spec ← loadSpecOrBuiltin sort
  let count ← formatEach ⟨spec, headers⟩ check files
  if check && count != 0 then
    Session.warn (Text.ofNat count ++ " file(s) would be reformatted".toList)
    return 1
  return 0

/-- The words for a mode that is on or off. -/
def enabled (on : Bool) : Text := if on then "Enabled".toList else "Disabled".toList

/-- Print what a sync is going to do. -/
def announce (config : Config) : Session Unit := do
  Session.print ("Mode: ".toList ++ if config.modes.watch then "Watch".toList else "Scan".toList)
  Session.print ("Dir:  ".toList ++ config.target.toText)
  Session.print ("Gen:  ".toList ++ enabled config.modes.generate)
  Session.print ("Sort: ".toList ++ enabled config.modes.sort)
  Session.print []

/-- The configuration for a directory named on the command line. -/
def configFor (world : World) (directory : Text) (modes : Modes) : Config :=
  ⟨world.targetDirectory ⟨.root, world.here⟩ directory, modes⟩

/-- The results of a run, or nothing if it was interrupted. -/
def runInterruptible (runner : Runner CodeText) (pauses : List Pause) :
    Session (Option (List SyncResult)) :=
  tryCatch (do return some (← runner.run pauses).1) fun
    | .interrupted => return none
    | fault => throw fault

/-- Print how many components were synced. -/
def announceSynced (results : List SyncResult) : Session Unit :=
  Session.print ("Synced ".toList ++ Text.ofNat results.length ++ " component(s)".toList)

/-- Make the runner for a directory named on the command line, and print what it is going to do. -/
def prepareSync (directory : Text) (modes : Modes) : Session (Runner CodeText) := do
  let config ← Session.look (configFor · directory modes)
  let runner ← Runner.make config none
  announce config
  return runner

/-- Sync a source tree. -/
def runSync (directory : Text) (modes : Modes) (pauses : List Pause) : Session Nat := do
  let runner ← prepareSync directory modes
  match ← runInterruptible runner pauses with
  | some results => announceSynced results
  | none => pure ()
  return 0

/-- The program's name and version. -/
def versionLine : Text := "css-sync, version 0.1.0".toList

/-- Answer a request; the result is the exit code. -/
def Request.run (pauses : List Pause) : Request → Session Nat
  | .version => do
    Session.print versionLine
    return 0
  | .format files sort check headers => do
    if ← Session.look fun world => files.all (isFormattable world) then
      runFormat files sort check headers
    else return usageError
  | .sync directory generate sort sortFile watch headers _ =>
    runSync directory ⟨generate, sort, sortFile.map Path.ofText, watch, headers⟩ pauses
  | .spec sort => do
    let spec ← loadSpecOrBuiltin sort
    Session.print spec.write
    return 0

/-- The exit code of an operation that ends with one; a fault ends it with 1. -/
def exitCode : Except Fault Nat → Nat
  | .ok code => code
  | .error _ => 1

end StyleModules
