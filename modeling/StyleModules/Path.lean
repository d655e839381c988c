import StyleModules.Text.Quoted

/-!
# Paths

A path is a list of names below the working directory, below the root, or below the root written
with two slashes. Empty names and single points are dropped when a path is read; two points stay,
because what they mean depends on the files. Paths are ordered by their names, one after the
other.
-/

namespace StyleModules

/-- Where a path starts. -/
inductive Anchor where
  /-- At the working directory. -/
  | relative
  /-- At the root. -/
  | root
  /-- At the root, written with two slashes. -/
  | doubleRoot
  deriving DecidableEq, Repr

/-- The slashes of an anchor. -/
def Anchor.text : Anchor → Text
  | relative => []
  | root => ['/']
  | doubleRoot => ['/', '/']

/-- A path. -/
structure Path where
  /-- Where the path starts. -/
  anchor : Anchor := .relative
  /-- The names on the way. -/
  names : List Text := []
  deriving DecidableEq, Repr

namespace Path

/-- Exactly two slashes at the start are kept apart from one, or three and more. -/
def anchorOf : Text → Anchor
  | '/' :: '/' :: '/' :: _ => .root
  | '/' :: '/' :: _ => .doubleRoot
  | '/' :: _ => .root
  | _ => .relative

/-- A name that counts: neither empty nor a single point. -/
def isProperName (name : Text) : Bool := !name.isEmpty && name != ['.']

/-- The path that a text denotes. -/
def ofText (t : Text) : Path := ⟨anchorOf t, (Text.splitAll '/' t).filter isProperName⟩

/-- The text of a path; the working directory is a point. -/
def toText (path : Path) : Text :=
  let t := path.anchor.text ++ Text.join ['/'] path.names
  if t.isEmpty then ['.'] else t

/-- The parts by which paths are compared: the slashes at the start, if any, and the names. -/
def parts (path : Path) : List Text :=
  if path.anchor == .relative then path.names else path.anchor.text :: path.names

/-- The order of lists of names, a proper beginning first. -/
def namesLe : List Text → List Text → Bool
  | [], _ => true
  | _ :: _, [] => false
  | a :: s, b :: t => if a == b then namesLe s t else Text.le a b

/-- The order of paths. -/
def le (p q : Path) : Bool := namesLe p.parts q.parts

/-- The last name, or nothing. -/
def name (path : Path) : Text := path.names.getLast?.getD []

/-- The path without its last name. -/
def parent (path : Path) : Path := { path with names := path.names.dropLast }

/-- The path of a name below this one. -/
def child (path : Path) (name : Text) : Path := { path with names := path.names ++ [name] }

/-- The other path, seen from this one. -/
def join (path other : Path) : Path :=
  if other.anchor == .relative then { path with names := path.names ++ other.names } else other

/-- Cut a name before its last point. -/
def cutLastPoint : Text → Option (Text × Text)
  | [] => none
  | c :: rest =>
    match cutLastPoint rest with
    | some (front, back) => some (c :: front, back)
    | none => if c == '.' then some ([], c :: rest) else none

/-- The last point of a name divides stem and suffix, unless it stands first or last. -/
def splitName (name : Text) : Text × Text :=
  match cutLastPoint name with
  | some (front, back) =>
    if front.isEmpty || back.length == 1 then (name, []) else (front, back)
  | none => (name, [])

/-- The last name up to its suffix. -/
def stem (path : Path) : Text := (splitName path.name).1

/-- The suffix of the last name, with its point. -/
def suffix (path : Path) : Text := (splitName path.name).2

/-- The path with another last name, if it has one. -/
def withName? (path : Path) (name : Text) : Option Path :=
  if path.names.isEmpty then none else some (path.parent.child name)

/-- The parts around the last point, with the point, are the name. -/
theorem append_of_cutLastPoint {name front back : Text}
    (h : cutLastPoint name = some (front, back)) : front ++ back = name := by
  induction name generalizing front back with
  | nil => simp [cutLastPoint] at h
  | cons c rest ih =>
    rw [cutLastPoint] at h
    split at h
    · next stem extension hs =>
      simp only [Option.some.injEq, Prod.mk.injEq] at h
      obtain ⟨rfl, rfl⟩ := h
      rw [List.cons_append, ih hs]
    · split at h
      · simp only [Option.some.injEq, Prod.mk.injEq] at h
        obtain ⟨rfl, rfl⟩ := h
        rfl
      · simp at h

/-- Stem and suffix make up the name. -/
theorem splitName_append (name : Text) : (splitName name).1 ++ (splitName name).2 = name := by
  unfold splitName
  split
  · next front back h =>
    split
    · simp
    · exact append_of_cutLastPoint h
  · simp

end Path

end StyleModules
