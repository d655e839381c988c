import StyleModules.Text.Basic

/-!
# Leftmost occurrences in a text

A recogniser looks at one place of a text: it is given the character before the place and the text
from there on, and answers the length of what it recognises together with a value. Cutting a text
into segments applies it from left to right; after an occurrence the search goes on behind it.
-/

namespace StyleModules

/-- What a recogniser finds at a place: the length of the occurrence, and what it means. -/
abbrev Recogniser (α : Type) := Option Char → Text → Option (Nat × α)

/-- A piece of a text: an occurrence, or one character outside every occurrence. -/
inductive Segment (α : Type) where
  /-- A character that belongs to no occurrence. -/
  | plain (c : Char)
  /-- An occurrence, by its meaning. -/
  | found (value : α)
  deriving DecidableEq, Repr

/-- Cut a text after the first `skip` characters, knowing the character before it. -/
def segmentsFrom {α : Type} (recognise : Recogniser α) :
    Nat → Option Char → Text → List (Segment α)
  | _, _, [] => []
  | skip + 1, _, c :: rest => segmentsFrom recognise skip (some c) rest
  | 0, previous, c :: rest =>
    match recognise previous (c :: rest) with
    | some (length, value) =>
      .found value :: segmentsFrom recognise (length - 1) (some c) rest
    | none => .plain c :: segmentsFrom recognise 0 (some c) rest

/-- Cut a text into its leftmost occurrences and the characters between them. -/
def segments {α : Type} (recognise : Recogniser α) (t : Text) : List (Segment α) :=
  segmentsFrom recognise 0 none t

/-- The meanings of the occurrences, in order. -/
def occurrences {α : Type} (recognise : Recogniser α) (t : Text) : List α :=
  (segments recognise t).filterMap fun
    | .plain _ => none
    | .found value => some value

/-- Put a text in the place of every occurrence. -/
def replaceOccurrences (recognise : Recogniser Text) (t : Text) : Text :=
  (segments recognise t).flatMap fun
    | .plain c => [c]
    | .found value => value

end StyleModules
