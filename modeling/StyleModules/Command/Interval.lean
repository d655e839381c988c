import StyleModules.Text.Digit

/-!
# Lengths of time

A length of time is a decimal number of seconds: digits of any script with perhaps a point, an
exponent and a sign, and single underscores between digits. The words for infinity and for no
number are taken as well. Blanks around the number do not count, but the ASCII separators are no
blanks here.
-/

namespace StyleModules

/-- A number of seconds. -/
inductive Interval where
  /-- A decimal number: whether it is negative, its digits, and the power of ten they count. -/
  | finite (negative : Bool) (digits : Nat) (exponent : Int)
  /-- Longer than any number, or no number at all. -/
  | unbounded
  deriving DecidableEq, Repr

namespace Interval

/-- A digit of any script becomes an ASCII digit. -/
def plainDigit (c : Char) : Char :=
  match digitValue? c with
  | some value => Char.ofNat (0x30 + value)
  | none => c

/-- Every underscore stands between two digits. The truth value says whether a digit stands just
before. -/
def underscoresFit : Bool → Text → Bool
  | _, [] => true
  | afterDigit, '_' :: rest =>
    afterDigit && rest.head?.any Char.isDigit && underscoresFit false rest
  | _, c :: rest => underscoresFit c.isDigit rest

/-- The number that digits spell. -/
def digitsValue (digits : Text) : Nat :=
  digits.foldl (fun n c => 10 * n + (c.toNat - '0'.toNat)) 0

/-- Take a sign from the start; the truth value says whether it is a minus. -/
def takeSign : Text → Bool × Text
  | '-' :: rest => (true, rest)
  | '+' :: rest => (false, rest)
  | t => (false, t)

/-- The exponent that a text spells, which must be all of it. -/
def readExponent? : Text → Option Int
  | [] => some 0
  | c :: rest =>
    let (negative, digits) := takeSign rest
    if (c == 'e' || c == 'E') && !digits.isEmpty && digits.all Char.isDigit then
      some (if negative then -(digitsValue digits : Int) else digitsValue digits)
    else none

/-- Read a number without a sign. -/
def readUnsigned? (negative : Bool) (t : Text) : Option Interval := do
  if ["inf".toList, "infinity".toList, "nan".toList].contains (t.map Char.toLower) then
    return unbounded
  let whole := t.takeWhile Char.isDigit
  let rest := t.dropWhile Char.isDigit
  let (fraction, rest) := match rest with
    | '.' :: more => (more.takeWhile Char.isDigit, more.dropWhile Char.isDigit)
    | _ => ([], rest)
  if whole.isEmpty && fraction.isEmpty then none
  let exponent ← readExponent? rest
  return finite negative (digitsValue (whole ++ fraction)) (exponent - fraction.length)

/-- A character that may stand around a number: a blank other than the four separators of ASCII. -/
def isPadding (c : Char) : Bool := isBlank c && !inRanges [(0x1C, 0x1F)] c.toNat

/-- The number of seconds that a text spells. -/
def read? (t : Text) : Option Interval :=
  let plain := (Text.dropEndWhile isPadding (t.dropWhile isPadding)).map plainDigit
  if underscoresFit false plain then
    let (negative, rest) := takeSign (plain.filter (· != '_'))
    readUnsigned? negative rest
  else none

/-- Half a second. -/
def half : Interval := finite false 5 (-1)

/-- The longest wait, in milliseconds. -/
def longest : Nat := 1000000000

/-- A power of ten. -/
def tenTo : Nat → Nat
  | 0 => 1
  | n + 1 => 10 * tenTo n

/-- The whole number of milliseconds to wait; a negative time is no wait. -/
def milliseconds : Interval → Nat
  | unbounded => longest
  | finite true _ _ => 0
  | finite false digits exponent =>
    if digits == 0 then 0
    else if 9 < exponent then longest
    else if exponent < -60 then 0
    else if 0 ≤ exponent + 3 then min longest (digits * tenTo (exponent + 3).toNat)
    else min longest (digits / tenTo (-(exponent + 3)).toNat)

end Interval

end StyleModules
