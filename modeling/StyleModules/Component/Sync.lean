import StyleModules.Component.ImportLine
import StyleModules.Component.Naming
import StyleModules.Component.Reorder
import StyleModules.Files.World
import StyleModules.Layout.Lines

/-!
# Bringing a stylesheet in line with its component

Syncing a component reads the classes it uses and puts its stylesheet in their order and in
canonical layout. Where stylesheets may be generated, a missing one is made, and the component's
styles import is kept canonical. Files that cannot be reached are reported and skipped. A file is
written only if its text changes.
-/

namespace StyleModules

variable {σ : Type} [Script σ]

/-- What a sync did. -/
structure SyncResult where
  /-- The component. -/
  component : Path
  /-- Its stylesheet, if it has one. -/
  sheet : Option Path := none
  /-- The stylesheet was made. -/
  created : Bool := false
  /-- The stylesheet was written anew. -/
  sheetChanged : Bool := false
  /-- The component was written anew, with a canonical import. -/
  importChanged : Bool := false
  deriving DecidableEq, Repr

/-- The sync changed a file. -/
def SyncResult.changed (result : SyncResult) : Bool :=
  result.created || result.sheetChanged || result.importChanged

/-- The files the sync wrote. -/
def SyncResult.written (result : SyncResult) : List Path :=
  (if result.importChanged then [result.component] else []) ++
    (if result.created || result.sheetChanged then result.sheet.toList else [])

/-- Report a file that cannot be reached. -/
def reportUnreadable (path : Path) (error : AccessError) : Session Unit :=
  Session.log .warning
    ("Cannot read ".toList ++ path.toText ++ ": ".toList ++ error.message path)

/-- The stylesheet of a component, which is made if it is missing and may be generated. The truth
value says whether it was made. -/
def resolveSheet (component : Path) (generate : Bool) : Session (Option Path × Bool) := do
  let sheet ← component.moduleSheet
  if ← Session.look (·.pathExists sheet) then return (some sheet, false)
  if generate && isPascalCase component.stem then
    Session.writeText sheet (generatedMarker ++ ['\n'])
    Session.log .info ("Generated: ".toList ++ sheet.toText)
    return (some sheet, true)
  return (none, false)

/-- Lay out a stylesheet in its file, and tell whether the file was written. -/
def formatFile (style : Style σ) (path : Path) : Session Bool := do
  match ← Session.readText path with
  | .error error =>
    reportUnreadable path error
    return false
  | .ok css =>
    let out := style.lay (parse css)
    if out == some css then return false
    Session.writeSpelled path out
    Session.log .info ("Formatted: ".toList ++ path.toText)
    return true

/-- Write the component's canonical import, and tell whether the file was written. -/
def updateImport (component sheet : Path) (source : Text) : Session Bool := do
  let updated := setImport source sheet.name
  if updated == source then return false
  Session.writeText component updated
  Session.log .debug ("Updated styles import: ".toList ++ component.toText)
  return true

/-- The canonical text of a stylesheet for the classes used. -/
def syncText (style : Style) (used : List Text) (css : Text) : Text :=
  ((parse css).orderByUse used).format style

/-- Write the stylesheet for the classes used, and tell whether the file was written. -/
def updateSheet (style : Style σ) (used : List Text) (sheet : Path) (css : Text) :
    Session Bool := do
  let out := style.lay ((parse css).orderByUse used)
  if out == some css then return false
  Session.writeSpelled sheet out
  Session.log .info ("Updated: ".toList ++ sheet.toText)
  return true

/-- Sync a component whose stylesheet is there. -/
def syncSheet (style : Style σ) (generate : Bool) (component : Path) (source : Text) (sheet : Path)
    (created : Bool) : Session SyncResult := do
  match ← Session.readText sheet with
  | .error error =>
    reportUnreadable sheet error
    return { component := component, sheet := some sheet, created := created }
  | .ok css =>
    let used := extractClasses source
    let importChanged ←
      if generate && !used.isEmpty then updateImport component sheet source else pure false
    let sheetChanged ← updateSheet style used sheet css
    return ⟨component, some sheet, created, sheetChanged, importChanged⟩

/-- A component that uses no class needs no stylesheet made for it. -/
def needsNone (generate : Bool) (component : Path) (used : List Text) : Session Bool := do
  if generate && used.isEmpty then
    let sheet ← component.moduleSheet
    return !(← Session.look (·.pathExists sheet))
  return false

/-- Bring a component's stylesheet in line with the classes it uses. -/
def syncComponent (style : Style σ) (generate : Bool) (component : Path) :
    Session SyncResult := do
  match ← Session.readText component with
  | .error error =>
    reportUnreadable component error
    return { component := component }
  | .ok source =>
    if ← needsNone generate component (extractClasses source) then
      return { component := component }
    match ← resolveSheet component generate with
    | (none, _) => return { component := component }
    | (some sheet, created) => syncSheet style generate component source sheet created

/-- By a specification of texts a stylesheet is laid out as a text. -/
theorem formatFile_text (style : Style) (path : Path) :
    formatFile style path = (do
      match ← Session.readText path with
      | .error error =>
        reportUnreadable path error
        return false
      | .ok css =>
        if formatText style css == css then return false
        Session.writeText path (formatText style css)
        Session.log .info ("Formatted: ".toList ++ path.toText)
        return true) := by
  simp only [formatFile, Style.lay_text, Option.some_beq_some]
  rfl

/-- By a specification of texts a component's stylesheet is laid out as a text. -/
theorem updateSheet_text (style : Style) (used : List Text) (sheet : Path) (css : Text) :
    updateSheet style used sheet css = (do
      if syncText style used css == css then return false
      Session.writeText sheet (syncText style used css)
      Session.log .info ("Updated: ".toList ++ sheet.toText)
      return true) := by
  simp only [updateSheet, Style.lay_text, Option.some_beq_some]
  rfl

end StyleModules
