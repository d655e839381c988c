import StyleModules.Json.Value

/-!
# Reading the data format

A document is one value with spaces around it. Besides the standard grammar the words `NaN`,
`Infinity` and `-Infinity` are numbers. A number is read as far as it is valid. A document that is
malformed is refused with the problem and the place where it shows, counted in characters, lines
and columns. An integer of too many digits ends reading as well, without a place. How deep values
may be nested is left to the machine.

A string is read as code points. Two escapes by code may give the halves of one character; a half
without its other half is kept as it is.

Readers take a text and give back what is left of it. A problem is recorded with the number of
characters from its place to the end, so no reader needs to know where it stands.
-/

namespace StyleModules

/-- What can be wrong with a document. -/
inductive JsonProblem where
  /-- The document starts with a byte order mark. -/
  | byteOrderMark
  /-- A value should start here. -/
  | expectedValue
  /-- A key should start here. -/
  | expectedKey
  /-- A colon should stand here. -/
  | expectedColon
  /-- A comma should stand here. -/
  | expectedComma
  /-- Something follows the value. -/
  | extraData
  /-- The string that starts here does not end. -/
  | unterminatedString
  /-- A control character stands in a string. -/
  | controlCharacter
  /-- A backslash is followed by a letter that means nothing. -/
  | unknownEscape
  /-- An escape by code has not four hexadecimal digits. -/
  | badCodeEscape
  deriving DecidableEq, Repr

/-- The words for a problem. -/
def JsonProblem.message : JsonProblem → Text
  | byteOrderMark => "Unexpected UTF-8 BOM (decode using utf-8-sig)".toList
  | expectedValue => "Expecting value".toList
  | expectedKey => "Expecting property name enclosed in double quotes".toList
  | expectedColon => "Expecting ':' delimiter".toList
  | expectedComma => "Expecting ',' delimiter".toList
  | extraData => "Extra data".toList
  | unterminatedString => "Unterminated string starting at".toList
  | controlCharacter => "Invalid control character at".toList
  | unknownEscape => "Invalid \\escape".toList
  | badCodeEscape => "Invalid \\uXXXX escape".toList

/-- A problem and the number of characters from its place to the end of the document. -/
structure JsonFailure where
  /-- What is wrong. -/
  problem : JsonProblem
  /-- The number of characters from the place to the end. -/
  remaining : Nat
  deriving DecidableEq, Repr

/-- Words, line, column and position of a failure in its document. -/
def JsonFailure.message (failure : JsonFailure) (document : Text) : Text :=
  let position := document.length - failure.remaining
  let before := document.take position
  let line := before.count '\n' + 1
  let column := (before.reverse.takeWhile (· != '\n')).length + 1
  failure.problem.message ++ ": line ".toList ++ Text.ofNat line ++ " column ".toList ++
    Text.ofNat column ++ " (char ".toList ++ Text.ofNat position ++ [')']

/-- Why reading a document ends without a value. -/
inductive JsonError where
  /-- The document is malformed. -/
  | malformed (failure : JsonFailure)
  /-- An integer has this many digits, more than are made into a number. -/
  | longInteger (digits : Nat)
  deriving DecidableEq, Repr

namespace JsonReader

/-- A reader's result: the value read and the text left, or why there is none. -/
abbrev Result (α : Type) := Except JsonError (α × Text)

/-- Refuse so many characters before the end. -/
def refuseAt {α : Type} (problem : JsonProblem) (remaining : Nat) : Result α :=
  .error (.malformed ⟨problem, remaining⟩)

/-- Refuse at the start of the text. -/
def refuse {α : Type} (problem : JsonProblem) (t : Text) : Result α := refuseAt problem t.length

/-- The spaces of the format: space, tab, line feed and carriage return. -/
def isJsonSpace (c : Char) : Bool := c == ' ' || c == '\t' || c == '\n' || c == '\r'

/-- The text behind spaces. -/
def skipSpaces (t : Text) : Text := t.dropWhile isJsonSpace

/-- The value of a hexadecimal digit. -/
def hexValue? (c : Char) : Option Nat :=
  if '0' ≤ c && c ≤ '9' then some (c.toNat - '0'.toNat)
  else if 'a' ≤ c && c ≤ 'f' then some (c.toNat - 'a'.toNat + 10)
  else if 'A' ≤ c && c ≤ 'F' then some (c.toNat - 'A'.toNat + 10)
  else none

/-- The value of four hexadecimal digits. -/
def codeUnit? (a b c d : Char) : Option Nat := do
  let a ← hexValue? a
  let b ← hexValue? b
  let c ← hexValue? c
  let d ← hexValue? d
  return ((a * 16 + b) * 16 + c) * 16 + d

/-- The character that a letter behind a backslash means. -/
def escaped? (c : Char) : Option Char :=
  if c == '"' || c == '\\' || c == '/' then some c
  else if c == 'b' then some '\x08'
  else if c == 'f' then some '\x0c'
  else if c == 'n' then some '\n'
  else if c == 'r' then some '\r'
  else if c == 't' then some '\t'
  else none

/-- Put a number in front of what a reader has read. -/
def consUnit (unit : Nat) : Result (List Nat) → Result (List Nat)
  | .ok (units, rest) => .ok (unit :: units, rest)
  | .error error => .error error

/-- Read a string behind its opening quote into code points and halves of code points. The first
argument is the number of characters from the quote to the end. -/
def readUnits (start : Nat) : Text → Result (List Nat)
  | [] => refuseAt .unterminatedString start
  | '"' :: rest => .ok ([], rest)
  | ['\\'] => refuseAt .unterminatedString start
  | '\\' :: 'u' :: a :: b :: c :: d :: rest =>
    match codeUnit? a b c d, rest.isEmpty with
    | some unit, false => consUnit unit (readUnits start rest)
    | _, _ => refuseAt .badCodeEscape (rest.length + 5)
  | '\\' :: 'u' :: rest => refuseAt .badCodeEscape (rest.length + 1)
  | '\\' :: c :: rest =>
    match escaped? c with
    | some meant => consUnit meant.toNat (readUnits start rest)
    | none => refuseAt .unknownEscape (rest.length + 2)
  | c :: rest =>
    if c.toNat ≤ 0x1F then refuseAt .controlCharacter (rest.length + 1)
    else consUnit c.toNat (readUnits start rest)

/-- The number is the first half of a code point. -/
def isHighHalf (n : Nat) : Bool := 0xD800 ≤ n && n ≤ 0xDBFF

/-- The number is the second half of a code point. -/
def isLowHalf (n : Nat) : Bool := 0xDC00 ≤ n && n ≤ 0xDFFF

/-- The character of two halves. -/
def joinedChar (high low : Nat) : Char :=
  Char.ofNat (0x10000 + (high - 0xD800) * 0x400 + (low - 0xDC00))

/-- Join halves that stand together; a half that stands alone stays. -/
def joinHalves : List Nat → CodeText
  | [] => []
  | [n] => [CodePoint.ofCode n]
  | high :: low :: rest =>
    if isHighHalf high && isLowHalf low then .char (joinedChar high low) :: joinHalves rest
    else CodePoint.ofCode high :: joinHalves (low :: rest)

/-- Read a string behind its opening quote. -/
def readString (t : Text) : Result CodeText :=
  match readUnits (t.length + 1) t with
  | .ok (units, rest) => .ok (joinHalves units, rest)
  | .error error => .error error

/-- The length of digits at the start. -/
def digitRun (t : Text) : Nat := (t.takeWhile Char.isDigit).length

/-- The length of the digits before the point; a leading zero stands alone. -/
def wholeLength : Text → Nat
  | [] => 0
  | c :: rest => if c == '0' then 1 else digitRun (c :: rest)

/-- The length of a point with digits behind it. -/
def fractionLength : Text → Nat
  | '.' :: rest => if digitRun rest == 0 then 0 else digitRun rest + 1
  | _ => 0

/-- The length of an exponent with digits, and perhaps a sign, in it. -/
def exponentLength : Text → Nat
  | [] => 0
  | c :: rest =>
    let sign := match rest with
      | d :: _ => if d == '+' || d == '-' then 1 else 0
      | [] => 0
    let digits := digitRun (rest.drop sign)
    if (c == 'e' || c == 'E') && digits != 0 then 1 + sign + digits else 0

/-- The length of the number at the start, or zero if there is none. -/
def numberLength (t : Text) : Nat :=
  let sign := match t with
    | '-' :: _ => 1
    | _ => 0
  let whole := wholeLength (t.drop sign)
  if whole == 0 then 0
  else
    let fraction := fractionLength (t.drop (sign + whole))
    sign + whole + fraction + exponentLength (t.drop (sign + whole + fraction))

/-- The number of digits of an integer. A number with a point or an exponent is none. -/
def integerDigits (literal : Text) : Nat :=
  if literal.all fun c => c.isDigit || c == '-' then literal.countP Char.isDigit else 0

/-- An integer may have so many digits. -/
def digitLimit : Nat := 4300

/-- The words that stand for values. -/
def words : List (Text × JsonValue CodeText) :=
  [("null".toList, .null), ("true".toList, .bool true), ("false".toList, .bool false),
    ("NaN".toList, .number "NaN".toList), ("Infinity".toList, .number "Infinity".toList),
    ("-Infinity".toList, .number "-Infinity".toList)]

/-- Read a word or a number. -/
def readScalar (t : Text) : Result (JsonValue CodeText) :=
  match words.find? (·.1.isPrefixOf t) with
  | some (word, value) => .ok (value, t.drop word.length)
  | none =>
    let length := numberLength t
    let digits := integerDigits (t.take length)
    if length == 0 then refuse .expectedValue t
    else if digitLimit < digits then .error (.longInteger digits)
    else .ok (.number (t.take length), t.drop length)

/-- Read a key with its colon and the spaces around that. -/
def readKey : Text → Result CodeText
  | '"' :: rest =>
    match readString rest with
    | .error error => .error error
    | .ok (key, rest) =>
      match skipSpaces rest with
      | ':' :: rest => .ok (key, skipSpaces rest)
      | rest => refuse .expectedColon rest
  | t => refuse .expectedKey t

mutual

/-- Read a value, nested at most as deep as the first argument. -/
def readValue : Nat → Text → Result (JsonValue CodeText)
  | 0, t => refuse .expectedValue t
  | fuel + 1, t =>
    match t with
    | '"' :: rest =>
      match readString rest with
      | .ok (value, rest) => .ok (.string value, rest)
      | .error error => .error error
    | '[' :: rest =>
      match skipSpaces rest with
      | ']' :: rest => .ok (.array [], rest)
      | rest =>
        match readItems fuel rest with
        | .ok (items, rest) => .ok (.array items, rest)
        | .error error => .error error
    | '\x7b' :: rest =>
      match skipSpaces rest with
      | '\x7d' :: rest => .ok (.object [], rest)
      | rest =>
        match readMembers fuel rest with
        | .ok (members, rest) => .ok (.object members, rest)
        | .error error => .error error
    | _ => readScalar t

/-- Read the items of an array, one at least, and its end. -/
def readItems : Nat → Text → Result (List (JsonValue CodeText))
  | 0, t => refuse .expectedValue t
  | fuel + 1, t =>
    match readValue fuel t with
    | .error error => .error error
    | .ok (item, rest) =>
      match skipSpaces rest with
      | ']' :: rest => .ok ([item], rest)
      | ',' :: rest =>
        match readItems fuel (skipSpaces rest) with
        | .ok (items, rest) => .ok (item :: items, rest)
        | .error error => .error error
      | rest => refuse .expectedComma rest

/-- Read the members of an object, one at least, and its end. -/
def readMembers : Nat → Text → Result (List (CodeText × JsonValue CodeText))
  | 0, t => refuse .expectedKey t
  | fuel + 1, t =>
    match readKey t with
    | .error error => .error error
    | .ok (key, rest) =>
      match readValue fuel rest with
      | .error error => .error error
      | .ok (value, rest) =>
        match skipSpaces rest with
        | '\x7d' :: rest => .ok ([(key, value)], rest)
        | ',' :: rest =>
          match readMembers fuel (skipSpaces rest) with
          | .ok (members, rest) => .ok ((key, value) :: members, rest)
          | .error error => .error error
        | rest => refuse .expectedComma rest

end

end JsonReader

open JsonReader in
/-- Read a document. Every step of reading takes a character, so the document's length bounds the
number of steps. -/
def JsonValue.read (document : Text) : Except JsonError (JsonValue CodeText) :=
  if document.head? == some '\uFEFF' then .error (.malformed ⟨.byteOrderMark, document.length⟩)
  else match readValue (2 * document.length + 1) (skipSpaces document) with
    | .error error => .error error
    | .ok (value, rest) =>
      match skipSpaces rest with
      | [] => .ok value
      | rest => .error (.malformed ⟨.extraData, rest.length⟩)

end StyleModules
