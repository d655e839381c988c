import StyleModules.Files.World

/-!
# What to sync, and how

A configuration names the directory whose components are synced, and the modes. A directory that
is named on the command line is taken as it is from inside a directory of that name, and otherwise
below the project's root: the nearest directory upwards that holds a `package.json`.
-/

namespace StyleModules

/-- How a run works. -/
structure Modes where
  /-- Missing stylesheets and imports are made. -/
  generate : Bool := false
  /-- Declarations are sorted by a specification. -/
  sort : Bool := false
  /-- The file of the specification; without one the built-in specification is used. -/
  sortPath : Option Path := none
  /-- The run goes on watching for changes. -/
  watch : Bool := false
  /-- Groups of declarations are labelled. -/
  headers : Bool := true
  deriving DecidableEq, Repr

/-- The directory to sync, and how. -/
structure Config where
  /-- The directory whose components are synced. -/
  target : Path
  /-- How the run works. -/
  modes : Modes := {}
  deriving DecidableEq, Repr

/-- The file that marks the root of a project. -/
def projectFile : Text := "package.json".toList

/-- The location without its last names, from all of them kept to none. -/
def ancestors (location : Location) : List Location :=
  (List.range (location.length + 1)).map fun n => location.take (location.length - n)

namespace World

/-- The nearest directory upwards that holds a project file, or the start itself. -/
def projectRoot (world : World) (start : Path) : Path :=
  let current := world.resolve start
  let found := (ancestors current.names).find? fun location =>
    world.pathExists ⟨.root, location ++ [projectFile]⟩
  ⟨.root, found.getD current.names⟩

/-- The directory that a name denotes for someone who works in a directory. -/
def targetDirectory (world : World) (workingDirectory : Path) (name : Text) : Path :=
  let current := world.resolve workingDirectory
  if current.name == name then current
  else world.resolve ((world.projectRoot current).join (Path.ofText name))

end World

end StyleModules
