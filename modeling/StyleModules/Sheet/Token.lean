import StyleModules.Text.Basic

/-!
# Tokens of a stylesheet

A sheet is cut into tokens from left to right. Between statements there are runs of spaces and
comments. A statement begins with a head: text up to the first brace or semicolon that is neither
quoted nor escaped. A head before an opening brace opens a block; any other head is a statement,
which may lack its semicolon before a closing brace or at the end of the sheet. A comment or a
quote that is never closed does no harm: the comment runs to the end of the sheet, the quote to
the end of its line.

Main statement: the texts of the tokens, one after the other, are the sheet (`flatMap_scan`).
-/

namespace StyleModules

/-- The spaces between statements: space, tab, line feed, carriage return and form feed. -/
def isSpace (c : Char) : Bool :=
  c == ' ' || c == '\t' || c == '\n' || c == '\r' || c == '\x0c'

/-- The characters that end a head when they are neither quoted nor escaped. -/
def endsHead (c : Char) : Bool := c == '\x7b' || c == ';' || c == '\x7d'

/-- A token of a stylesheet. -/
inductive Token where
  /-- A run of spaces. -/
  | space (run : Text)
  /-- A comment, with its delimiters as far as they are there. -/
  | comment (text : Text)
  /-- The head of a block, with the brace that opens it. -/
  | opening (head : Text)
  /-- The head of a statement, with its semicolon if it has one. -/
  | statement (head : Text) (ended : Bool)
  /-- A closing brace. -/
  | closing
  deriving DecidableEq, Repr

namespace Token

/-- The text that a token was cut from. -/
def text : Token → Text
  | space run => run
  | comment text => text
  | opening head => head ++ ['\x7b']
  | statement head true => head ++ [';']
  | statement head false => head
  | closing => ['\x7d']

/-- Cut behind the first end of a comment, or at the end of the text. -/
def cutComment : Text → Text × Text
  | [] => ([], [])
  | '*' :: '/' :: rest => (['*', '/'], rest)
  | c :: rest =>
    let cut := cutComment rest
    (c :: cut.1, cut.2)

/-- Cut a head from a text, given the quote that is open. A backslash takes the next character
along, inside quotes too; a quote ends at its like or at the end of the line. -/
def cutHead : Option Char → Text → Text × Text
  | _, [] => ([], [])
  | quote, '\\' :: c :: rest =>
    let cut := cutHead quote rest
    ('\\' :: c :: cut.1, cut.2)
  | some quote, c :: rest =>
    let cut := cutHead (if c == quote || c == '\n' then none else some quote) rest
    (c :: cut.1, cut.2)
  | none, c :: rest =>
    if endsHead c then ([], c :: rest)
    else
      let cut := cutHead (if isQuote c then some c else none) rest
      (c :: cut.1, cut.2)

/-- Cut a head, and what ends it, from a text. -/
def cutStatement (t : Text) : Token × Text :=
  match cutHead none t with
  | (head, '\x7b' :: rest) => (opening head, rest)
  | (head, ';' :: rest) => (statement head true, rest)
  | (head, rest) => (statement head false, rest)

/-- Cut the first token from a text that begins with the character. -/
def cut (c : Char) (rest : Text) : Token × Text :=
  if isSpace c then (space (c :: rest.takeWhile isSpace), rest.dropWhile isSpace)
  else match c, rest with
    | '/', '*' :: body =>
      let cut := cutComment body
      (comment ('/' :: '*' :: cut.1), cut.2)
    | '\x7d', _ => (closing, rest)
    | _, _ => cutStatement (c :: rest)

/-- Cutting a comment off loses nothing. -/
theorem cutComment_append (t : Text) : (cutComment t).1 ++ (cutComment t).2 = t := by
  fun_induction cutComment t with
  | case1 => rfl
  | case2 rest => rfl
  | case3 c rest _ cut ih => simp [ih, cut]

/-- Cutting a head off loses nothing. -/
theorem cutHead_append (quote : Option Char) (t : Text) :
    (cutHead quote t).1 ++ (cutHead quote t).2 = t := by
  fun_induction cutHead quote t with
  | case1 => rfl
  | case2 quote c rest cut ih => exact congrArg ('\\' :: c :: ·) ih
  | case3 quote c rest cut _ ih => exact congrArg (c :: ·) ih
  | case4 => rfl
  | case5 c rest _ _ cut ih => exact congrArg (c :: ·) ih

/-- A head is not empty if the text before it starts with an ordinary character. -/
theorem cutHead_fst_ne_nil {c : Char} (rest : Text) (h : endsHead c = false) :
    (cutHead none (c :: rest)).1 ≠ [] := by
  rw [cutHead.eq_def]
  split <;> simp_all

/-- Cutting a statement loses no text. -/
theorem cutStatement_append (t : Text) : (cutStatement t).1.text ++ (cutStatement t).2 = t := by
  have h := cutHead_append none t
  unfold cutStatement
  split <;> simp_all [text]

/-- Cutting a token loses no text. -/
theorem cut_append (c : Char) (rest : Text) :
    (cut c rest).1.text ++ (cut c rest).2 = c :: rest := by
  unfold cut
  split
  · simp [text]
  · split
    · simp [text, cutComment_append]
    · simp [text]
    · exact cutStatement_append (c :: rest)

/-- A statement that is cut from a text is not empty. -/
theorem cutStatement_text_ne_nil {c : Char} (rest : Text) (h : c ≠ '\x7d') :
    (cutStatement (c :: rest)).1.text ≠ [] := by
  unfold cutStatement
  split
  · simp [text]
  · simp [text]
  · next head tail hopen hended he =>
    intro hn
    have hh : (cutHead none (c :: rest)).1 = [] := by rw [he]; exact hn
    cases hc : endsHead c with
    | false => exact cutHead_fst_ne_nil rest hc hh
    | true =>
      have ha := cutHead_append none (c :: rest)
      rw [hh, he, List.nil_append] at ha
      simp only [endsHead, Bool.or_eq_true, beq_iff_eq] at hc
      rcases hc with (hc | hc) | hc
      · exact hopen rest (hc ▸ ha)
      · exact hended rest (hc ▸ ha)
      · exact h hc

/-- Every token takes some text. -/
theorem cut_snd_length_lt (c : Char) (rest : Text) :
    (cut c rest).2.length < (c :: rest).length := by
  have ha := congrArg List.length (cut_append c rest)
  have hne : (cut c rest).1.text ≠ [] := by
    unfold cut
    split
    · simp [text]
    · split
      · simp [text]
      · simp [text]
      · next hs hc _ => exact cutStatement_text_ne_nil rest (by simpa using hc)
  have hp := List.length_pos_iff.2 hne
  rw [List.length_append] at ha
  omega

end Token

/-- The tokens of a text, in order. -/
def scan : Text → List Token
  | [] => []
  | c :: rest => (Token.cut c rest).1 :: scan (Token.cut c rest).2
termination_by t => t.length
decreasing_by exact Token.cut_snd_length_lt c rest

/-- Scanning loses no text: the tokens' texts make up the whole. -/
theorem flatMap_scan (t : Text) : (scan t).flatMap Token.text = t := by
  fun_induction scan t with
  | case1 => rfl
  | case2 c rest ih => rw [List.flatMap_cons, ih, Token.cut_append]

end StyleModules
