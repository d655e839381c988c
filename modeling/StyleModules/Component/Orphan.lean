import StyleModules.Component.Naming
import StyleModules.Files.World

/-!
# Stylesheets without a component

When a component is renamed, its stylesheet is left behind. A new component takes over the only
such stylesheet beside it, unless it has one already. With several to choose from nothing is done.
-/

namespace StyleModules

/-- Some component beside the stylesheet has its base name. -/
def hasComponent (world : World) (directory : Path) (base : Text) : Bool :=
  componentSuffixes.any fun suffix => world.pathExists (directory.child (base ++ suffix))

/-- The stylesheets in a directory that belong to no component there, in order. -/
def World.orphans (world : World) (directory : Path) : List Path :=
  let sheets := (world.listing directory).filter (sheetEnding.isSuffixOf ·.name)
  (sheets.mergeSort Path.le).filter fun sheet =>
    !hasComponent world directory (sheet.name.take (sheet.name.length - sheetEnding.length))

/-- Give a new component the only stylesheet beside it that belongs to none. -/
def adoptOrphan (component : Path) : Session (Option Path) := do
  match ← Session.look (·.orphans component.parent) with
  | [] => return none
  | [orphan] =>
    let target ← component.moduleSheet
    if ← Session.look (·.pathExists target) then return none
    Session.movePath orphan target
    Session.log .info ("Renamed: ".toList ++ orphan.name ++ " -> ".toList ++ target.name)
    return some target
  | orphans =>
    Session.log .warning
      ("Multiple orphan ".toList ++ sheetEnding ++ " files in ".toList ++
        component.parent.toText ++ "; skipping rename: ".toList ++
        Text.join ", ".toList (orphans.map Path.name))
    return none

end StyleModules
