import StyleModules.Text.Segment

/-!
# Control sequences

Terminals take an escape character with a bracket behind it for the start of a control sequence:
parameters, intermediate characters and one final character follow. Output that is not for a
terminal goes without these sequences. A text without an escape character is left as it is.
-/

namespace StyleModules

/-- The character that starts a control sequence. -/
def escapeChar : Char := '\x1b'

/-- A character of the parameters of a control sequence. -/
def isParameterChar (c : Char) : Bool := inRanges [(0x30, 0x3F)] c.toNat

/-- A character between the parameters and the final character. -/
def isIntermediateChar (c : Char) : Bool := inRanges [(0x20, 0x2F)] c.toNat

/-- A character that ends a control sequence. -/
def isFinalChar (c : Char) : Bool := inRanges [(0x40, 0x7E)] c.toNat

/-- A control sequence that has its final character. Nothing is put in its place. -/
def recogniseControlSequence : Recogniser Text
  | _, c :: '[' :: rest =>
    let parameters := rest.takeWhile isParameterChar
    let rest := rest.dropWhile isParameterChar
    let intermediates := rest.takeWhile isIntermediateChar
    if c == escapeChar && (rest.dropWhile isIntermediateChar).head?.any isFinalChar then
      some (parameters.length + intermediates.length + 3, [])
    else none
  | _, _ => none

/-- Remove the control sequences. -/
def Text.withoutControls (t : Text) : Text := replaceOccurrences recogniseControlSequence t

end StyleModules
