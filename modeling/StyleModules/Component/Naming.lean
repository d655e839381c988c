import StyleModules.Files.Fault

/-!
# Names of components and their stylesheets

A component is a file with suffix `.jsx` or `.tsx`. Its stylesheet stands beside it and has its
stem with `.module.css` behind it. Only components whose stem starts with a capital and holds no
space get a stylesheet made for them.
-/

namespace StyleModules

/-- The suffixes of components. -/
def componentSuffixes : List Text := [".jsx".toList, ".tsx".toList]

/-- The ending of a component's stylesheet. -/
def sheetEnding : Text := ".module.css".toList

/-- The suffix of stylesheets. -/
def sheetSuffix : Text := ".css".toList

/-- The file is a component. -/
def Path.isComponent (path : Path) : Bool := componentSuffixes.contains path.suffix

/-- The stylesheet of a component; a path without a last name has none. -/
def Path.moduleSheet (component : Path) : Except Fault Path :=
  match component.withName? (component.stem ++ sheetEnding) with
  | some sheet => .ok sheet
  | none => .error (.emptyName component)

/-- The stem starts with a capital and holds no space. -/
def isPascalCase : Text → Bool
  | [] => false
  | c :: rest => c.isUpper && !rest.contains ' '

/-- A component has a stylesheet exactly when it has a name. -/
theorem Path.moduleSheet_eq_error_iff (component : Path) (fault : Fault) :
    component.moduleSheet = .error fault ↔
      component.names = [] ∧ fault = .emptyName component := by
  unfold moduleSheet withName?
  by_cases h : component.names = []
  · simp [h, eq_comm]
  · simp [h]

end StyleModules
