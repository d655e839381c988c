import StyleModules.Json.Value
import StyleModules.Text.Quoted

/-!
# Writing the data format

A document is written in ASCII with one item or member to a line, two spaces deeper than what
holds it. Characters outside the printable part of ASCII are written by code, those beyond the
first plane as two halves. A half that stands alone is written by its code.
-/

namespace StyleModules

/-- An escape by code. -/
def codeEscape (unit : Nat) : Text := ['\\', 'u'] ++ hexDigits 4 unit

/-- One character of a string in a document. -/
def jsonChar (c : Char) : Text :=
  if c == '"' || c == '\\' then ['\\', c]
  else if c == '\n' then ['\\', 'n']
  else if c == '\r' then ['\\', 'r']
  else if c == '\t' then ['\\', 't']
  else if c == '\x08' then ['\\', 'b']
  else if c == '\x0c' then ['\\', 'f']
  else if 0x20 ≤ c.toNat && c.toNat < 0x7F then [c]
  else if c.toNat < 0x10000 then codeEscape c.toNat
  else
    let offset := c.toNat - 0x10000
    codeEscape (0xD800 + offset / 0x400) ++ codeEscape (0xDC00 + offset % 0x400)

/-- One code point of a string in a document. -/
def jsonPoint : CodePoint → Text
  | .char c => jsonChar c
  | .half offset => codeEscape (CodePoint.half offset).code

/-- A string in a document. -/
def jsonString {σ : Type} [Script σ] (s : σ) : Text :=
  '"' :: (Script.points s).flatMap jsonPoint ++ ['"']

/-- A line end and the indentation at a depth. -/
def jsonBreak (depth : Nat) : Text := '\n' :: List.replicate (2 * depth) ' '

/-- The parts of an array or object between its brackets. -/
def jsonEnclosed (opening closing : Char) (depth : Nat) (parts : List Text) : Text :=
  if parts.isEmpty then [opening, closing]
  else
    [opening] ++ jsonBreak (depth + 1) ++ Text.join (',' :: jsonBreak (depth + 1)) parts ++
      jsonBreak depth ++ [closing]

namespace JsonValue

variable {σ : Type} [Script σ]

mutual

/-- The text of a value that stands at a depth. -/
def writeAt (depth : Nat) : JsonValue σ → Text
  | null => "null".toList
  | bool true => "true".toList
  | bool false => "false".toList
  | number literal => literal
  | string value => jsonString value
  | array items => jsonEnclosed '[' ']' depth (writeItems (depth + 1) items)
  | object members => jsonEnclosed '\x7b' '\x7d' depth (writeMembers (depth + 1) members)

/-- The texts of the items of an array. -/
def writeItems (depth : Nat) : List (JsonValue σ) → List Text
  | [] => []
  | item :: rest => writeAt depth item :: writeItems depth rest

/-- The texts of the members of an object. -/
def writeMembers (depth : Nat) : List (σ × JsonValue σ) → List Text
  | [] => []
  | (key, value) :: rest =>
    (jsonString key ++ ": ".toList ++ writeAt depth value) :: writeMembers depth rest

end

/-- The document of a value. -/
def write (value : JsonValue σ) : Text := writeAt 0 value

/-- Items are written one by one. -/
theorem writeItems_eq_map (depth : Nat) (items : List (JsonValue σ)) :
    writeItems depth items = items.map (writeAt depth) := by
  induction items with
  | nil => rfl
  | cons item rest ih => rw [writeItems, List.map_cons, ih]

mutual

/-- A value is written by the code points of its strings. -/
theorem writeAt_stored (depth : Nat) : ∀ value : JsonValue σ,
    value.stored.writeAt depth = value.writeAt depth
  | null => rfl
  | bool true => rfl
  | bool false => rfl
  | number _ => rfl
  | string _ => rfl
  | array items => congrArg (jsonEnclosed '[' ']' depth) (writeItems_stored (depth + 1) items)
  | object members =>
    congrArg (jsonEnclosed '\x7b' '\x7d' depth) (writeMembers_stored (depth + 1) members)

/-- Items are written by the code points of their strings. -/
theorem writeItems_stored (depth : Nat) : ∀ items : List (JsonValue σ),
    writeItems depth (storedItems items) = writeItems depth items
  | [] => rfl
  | item :: rest => by
    rw [storedItems, writeItems, writeItems, writeAt_stored depth item,
      writeItems_stored depth rest]

/-- Members are written by the code points of their strings. -/
theorem writeMembers_stored (depth : Nat) : ∀ members : List (σ × JsonValue σ),
    writeMembers depth (storedMembers members) = writeMembers depth members
  | [] => rfl
  | (key, value) :: rest => by
    rw [storedMembers, writeMembers, writeMembers, writeAt_stored depth value,
      writeMembers_stored depth rest]
    rfl

end

/-- The document of a value is that of its code points. -/
theorem write_stored (value : JsonValue σ) : value.stored.write = value.write :=
  writeAt_stored 0 value

end JsonValue

end StyleModules
