import StyleModules.Component.Usage

/-!
# The styles import of a component

A component names its stylesheet in one line, `import styles from "./Name.module.css";`. Setting
it removes every such line and puts the new one behind the leading comments and the client
directive, if there are any.
-/

namespace StyleModules

/-- The line that imports a stylesheet, without its line end. -/
def importLine (name : Text) : Text := "import styles from \"./".toList ++ name ++ "\";".toList

/-- The text behind at least one blank. -/
def afterBlanks? : Text → Option Text
  | [] => none
  | c :: rest => if isBlank c then some (rest.dropWhile isBlank) else none

/-- The text behind a quote. -/
def afterQuote? : Text → Option Text
  | [] => none
  | c :: rest => if isQuote c then some rest else none

/-- Remove the character from the start, if it stands there. -/
def dropOne (c : Char) : Text → Text
  | [] => []
  | d :: rest => if d == c then rest else d :: rest

/-- The text behind what may end a line: a semicolon, spaces and tabs, a line feed. -/
def afterLineEnd (t : Text) : Text :=
  dropOne '\n' ((dropOne ';' t).dropWhile fun c => c == ' ' || c == '\t')

/-- The text behind a styles import, with whatever path. -/
def afterImport? (t : Text) : Option Text := do
  let t ← "import".toList.isPrefixOf? t
  let t ← afterBlanks? t
  let t ← "styles".toList.isPrefixOf? t
  let t ← afterBlanks? t
  let t ← "from".toList.isPrefixOf? t
  let t ← afterBlanks? t
  let path ← afterQuote? t
  let close := path.dropWhile (!isQuote ·)
  if close.length < path.length then
    let t ← afterQuote? close
    return afterLineEnd t
  else none

/-- A styles import at the start of a line. -/
def recogniseImport : Recogniser Text := fun previous t =>
  if previous == none || previous == some '\n' then
    (afterImport? t).map fun after => (t.length - after.length, [])
  else none

/-- Where a scan of leading comments stands. -/
inductive MarginState where
  /-- Between comments. -/
  | between
  /-- Inside a block comment that is closed further on. -/
  | block
  /-- Inside a comment to the end of the line. -/
  | line
  deriving DecidableEq, Repr

/-- Cut behind the leading blanks and comments. A block comment that is never closed is none. -/
def cutMargin : MarginState → Text → Text × Text
  | _, [] => ([], [])
  | .block, '*' :: '/' :: rest =>
    let cut := cutMargin .between rest
    ('*' :: '/' :: cut.1, cut.2)
  | .block, c :: rest =>
    let cut := cutMargin .block rest
    (c :: cut.1, cut.2)
  | .line, c :: rest =>
    let cut := cutMargin (if c == '\n' then .between else .line) rest
    (c :: cut.1, cut.2)
  | .between, '/' :: '/' :: rest =>
    let cut := cutMargin .line rest
    ('/' :: '/' :: cut.1, cut.2)
  | .between, '/' :: '*' :: rest =>
    if (afterCommentEnd? rest).isSome then
      let cut := cutMargin .block rest
      ('/' :: '*' :: cut.1, cut.2)
    else ([], '/' :: '*' :: rest)
  | .between, c :: rest =>
    if isBlank c then
      let cut := cutMargin .between rest
      (c :: cut.1, cut.2)
    else ([], c :: rest)

/-- The text behind a client directive. -/
def afterDirective? (t : Text) : Option Text := do
  let t ← afterQuote? t
  let t ← "use client".toList.isPrefixOf? t
  let t ← afterQuote? t
  return afterLineEnd t

/-- The length of the leading comments and the client directive. -/
def preambleLength (t : Text) : Nat :=
  let rest := (cutMargin .between t).2
  t.length - ((afterDirective? rest).getD rest).length

/-- End the last line, if it is not ended. -/
def endLine (t : Text) : Text :=
  if t.isEmpty || t.getLast? == some '\n' then t else t ++ ['\n']

/-- The component's source with exactly one styles import, of the stylesheet of this name. -/
def setImport (source name : Text) : Text :=
  let bare := replaceOccurrences recogniseImport source
  let place := preambleLength bare
  endLine (bare.take place) ++ importLine name ++ ['\n'] ++ bare.drop place

end StyleModules
