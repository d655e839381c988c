import StyleModules.Category.Basic
import StyleModules.Text.Upper

/-!
# Comments that the layout owns

A laid-out sheet labels groups of declarations with header comments. These are written afresh each
time, so those that a sheet already has are left out. A comment counts as a header if it names a
category of the specification, in any case, or if it is all capitals, underscores and blanks: so
labels left by another specification disappear as well. The marker of a freshly made sheet is
left out too.
-/

namespace StyleModules

/-- The comment in a freshly made sheet. -/
def generatedMarker : Text := "/* Auto-generated */".toList

/-- The name of the group of declarations without a category. -/
def elseName : Text := "ELSE".toList

/-- The comment that labels a category. -/
def headerComment (name : Text) : Text := "/* ".toList ++ name ++ " */".toList

/-- Remove the opening delimiter, with all the asterisks that follow its slash. -/
def dropOpeningDelimiter : Text → Text
  | '/' :: '*' :: rest => rest.dropWhile (· == '*')
  | t => t

/-- Remove the closing delimiter, with all the asterisks before its slash. -/
def dropClosingDelimiter (t : Text) : Text :=
  if ['*', '/'].isSuffixOf t then Text.dropEndWhile (· == '*') t.dropLast else t

/-- Remove one line feed from the end, if there is one. -/
def dropFinalNewline (t : Text) : Text := if t.getLast? == some '\n' then t.dropLast else t

/-- The text of a comment without delimiters and surrounding blanks. The opening delimiter is
taken first, so the asterisks of a comment without text all belong to it. -/
def commentText (comment : Text) : Text :=
  Text.trim (dropClosingDelimiter (dropFinalNewline (dropOpeningDelimiter comment)))

/-- A text that only labels use: capitals, underscores and blanks. -/
def isAllCaps (t : Text) : Bool := t.all fun c => c.isUpper || c == '_' || isBlank c

/-- The names that make a comment a header, in upper case. -/
def headerNames (names : List Text) : List Text :=
  elseName :: (names.filter (!·.isEmpty)).map Text.upper

/-- The comment is a header for categories of these names. -/
def isHeader (names : List Text) (comment : Text) : Bool :=
  let text := commentText comment
  !text.isEmpty && ((headerNames names).contains (Text.upper text) || isAllCaps text)

/-- The comment is left out of a laid-out sheet. -/
def isSuppressed (names : List Text) (comment : Text) : Bool :=
  Text.trim comment == generatedMarker || isHeader names comment

/-- The names of a specification's categories. -/
def Spec.names (spec : Spec) : List Text := spec.map Category.name

end StyleModules
