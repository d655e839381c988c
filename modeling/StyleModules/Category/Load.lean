import StyleModules.Category.Default
import StyleModules.Category.Json
import StyleModules.Files.World
import StyleModules.Json.Printer

/-!
# Loading a specification

A specification is read from a file, with the code points of its strings. Only its outermost shape
is checked: it must be an array. Where a specification is merely wished for, the built-in one stands
in for one that cannot be loaded, and for none; but bytes that are no text and an integer of too
many digits are faults there as well.
-/

namespace StyleModules

/-- The specification of a document, or the fault that it is. -/
def Spec.read (document : Text) : Except Fault (Spec CodeText) :=
  match JsonValue.read document with
  | .error (.malformed failure) => .error (.spec (.malformed failure document))
  | .error (.longInteger digits) => .error (.longInteger digits)
  | .ok (.array items) => .ok (items.map Category.ofJson)
  | .ok _ => .error (.spec .notArray)

/-- The document of a specification. -/
def Spec.write {σ : Type} [Script σ] (spec : Spec σ) : Text := spec.toJson.write

/-- The specification in a file, or why there is none. -/
def tryLoadSpec (path : Path) : Session (Except SpecError (Spec CodeText)) := do
  match ← Session.readText path with
  | .error error => return .error (.unreadable error path)
  | .ok document =>
    match Spec.read document with
    | .ok spec => return .ok spec
    | .error (.spec error) => return .error error
    | .error fault => throw fault

/-- The specification in a file. -/
def loadSpec (path : Path) : Session (Spec CodeText) := do
  match ← tryLoadSpec path with
  | .error error => throw (.spec error)
  | .ok spec => return spec

/-- The number of categories, in words. -/
def countedCategories {σ : Type} (spec : Spec σ) : Text :=
  " (".toList ++ Text.ofNat spec.length ++ " categories)".toList

/-- The specification in the file of this name, or else the built-in one. -/
def loadSpecOrBuiltin : Option Text → Session (Spec CodeText)
  | none => do
    let spec := Spec.stored Spec.builtin
    Session.log .info ("Loaded default sort spec".toList ++ countedCategories spec)
    return spec
  | some file => do
    match ← tryLoadSpec (Path.ofText file) with
    | .error error =>
      Session.log .warning
        ("Custom spec failed (".toList ++ error.message ++
          "). Falling back to default...".toList)
      return Spec.stored Spec.builtin
    | .ok spec =>
      Session.log .info ("Loaded sort spec: ".toList ++ file ++ countedCategories spec)
      return spec

end StyleModules
