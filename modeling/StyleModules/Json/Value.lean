import StyleModules.Text.CodePoint

/-!
# Values of the data format

A sort specification is stored as JSON. A value keeps what reading can tell apart: numbers stay in
the spelling they were read in, and an object keeps all its members in order. Looking up a key
finds its last member. The strings of a value are texts, or strings of code points as they are read
from a document.
-/

namespace StyleModules

/-- A value of the data format. -/
inductive JsonValue (σ : Type := Text) where
  /-- The null value. -/
  | null
  /-- A truth value. -/
  | bool (value : Bool)
  /-- A number, by its spelling. -/
  | number (literal : Text)
  /-- A string. -/
  | string (value : σ)
  /-- An array. -/
  | array (items : List (JsonValue σ))
  /-- An object with its members in order. -/
  | object (members : List (σ × JsonValue σ))
  deriving Inhabited

namespace JsonValue

variable {σ : Type}

/-- The last member of the key. -/
def lookupLast [BEq σ] (key : σ) : List (σ × JsonValue σ) → Option (JsonValue σ)
  | [] => none
  | (name, value) :: rest =>
    match lookupLast key rest with
    | some later => some later
    | none => if name == key then some value else none

/-- The value of a key, if this is an object that has it. -/
def get? [BEq σ] (value : JsonValue σ) (key : σ) : Option (JsonValue σ) :=
  match value with
  | object members => lookupLast key members
  | _ => none

/-- The string, if this is one. -/
def string? : JsonValue σ → Option σ
  | string value => some value
  | _ => none

/-- The items, if this is an array. -/
def array? : JsonValue σ → Option (List (JsonValue σ))
  | array items => some items
  | _ => none

variable [Script σ]

mutual

/-- The value with the code points of its strings. -/
def stored : JsonValue σ → JsonValue CodeText
  | null => null
  | bool value => bool value
  | number literal => number literal
  | string value => string (Script.points value)
  | array items => array (storedItems items)
  | object members => object (storedMembers members)

/-- The items with the code points of their strings. -/
def storedItems : List (JsonValue σ) → List (JsonValue CodeText)
  | [] => []
  | item :: rest => item.stored :: storedItems rest

/-- The members with the code points of their strings. -/
def storedMembers : List (σ × JsonValue σ) → List (CodeText × JsonValue CodeText)
  | [] => []
  | (key, value) :: rest => (Script.points key, value.stored) :: storedMembers rest

end

/-- Items are stored one by one. -/
theorem storedItems_eq_map (items : List (JsonValue σ)) : storedItems items = items.map stored := by
  induction items with
  | nil => rfl
  | cons item rest ih => rw [storedItems, List.map_cons, ih]

/-- Members are stored one by one. -/
theorem storedMembers_eq_map (members : List (σ × JsonValue σ)) :
    storedMembers members = members.map fun member =>
      (Script.points member.1, member.2.stored) := by
  induction members with
  | nil => rfl
  | cons member rest ih => rw [storedMembers, List.map_cons, ih]

end JsonValue

end StyleModules
