import StyleModules.Text.Segment
import StyleModules.Text.Word

/-!
# The classes a component uses

A component takes its classes from an object `styles`, by `styles.name` or by `styles["name"]`.
Uses inside comments and string literals do not count. Comments are blanked first. A key in
brackets is itself a string literal, so it is turned into a mark that names it before string
literals are blanked. What is left is searched for marks and for names behind a point.
-/

namespace StyleModules

/-- The text behind the first end of a block comment. -/
def afterCommentEnd? : Text → Option Text
  | [] => none
  | '*' :: '/' :: rest => some rest
  | _ :: rest => afterCommentEnd? rest

/-- There is no end of a comment exactly if its two characters never stand together. -/
theorem afterCommentEnd?_eq_none_iff {t : Text} :
    afterCommentEnd? t = none ↔ ¬ ['*', '/'] <:+: t := by
  fun_induction afterCommentEnd? t with
  | case1 => simp
  | case2 rest => simp [List.infix_cons_iff]
  | case3 c rest hne ih =>
    have hstart : ¬ ['*', '/'] <+: c :: rest := by
      rintro ⟨more, hmore⟩
      obtain ⟨rfl, hrest⟩ := List.cons.inj hmore
      exact hne more rfl hrest.symm
    rw [ih, List.infix_cons_iff, or_iff_right hstart]

/-- What stands before the end of a comment does not end one. -/
theorem exists_of_afterCommentEnd? {t back : Text} (h : afterCommentEnd? t = some back) :
    ∃ body, t = body ++ '*' :: '/' :: back ∧ ¬ ['*', '/'] <:+: body := by
  fun_induction afterCommentEnd? t with
  | case1 => cases h
  | case2 rest => exact ⟨[], by rw [Option.some.inj h]; rfl, by simp⟩
  | case3 c rest hne ih =>
    obtain ⟨body, rfl, hbody⟩ := ih h
    refine ⟨c :: body, rfl, ?_⟩
    rw [List.infix_cons_iff, not_or]
    refine ⟨?_, hbody⟩
    rintro ⟨more, hmore⟩
    obtain ⟨rfl, rfl⟩ := List.cons.inj hmore
    exact hne _ rfl rfl

/-- Where a text holds no end of a comment, the end is the first one behind it. -/
theorem afterCommentEnd?_append_of_none {t back : Text} (h : afterCommentEnd? t = none)
    (hback : back.head? ≠ some '/') : afterCommentEnd? (t ++ back) = afterCommentEnd? back := by
  fun_induction afterCommentEnd? t with
  | case1 => rfl
  | case2 rest => cases h
  | case3 c rest hne ih =>
    rw [List.cons_append, afterCommentEnd?, ih h]
    rintro tail rfl hrest
    cases rest with
    | nil =>
      rw [List.nil_append] at hrest
      rw [hrest] at hback
      exact hback rfl
    | cons d rest =>
      obtain ⟨rfl, _⟩ := List.cons.inj hrest
      exact hne rest rfl rfl

/-- A block comment that is closed. -/
def recogniseBlockComment : Recogniser Text
  | _, '/' :: '*' :: rest =>
    (afterCommentEnd? rest).map fun after => (rest.length + 2 - after.length, [' '])
  | _, _ => none

/-- A comment to the end of the line. -/
def recogniseLineComment : Recogniser Text
  | _, '/' :: '/' :: rest => some ((rest.takeWhile (· != '\n')).length + 2, [' '])
  | _, _ => none

/-- A word may start behind the character. -/
def startsWord (previous : Option Char) : Bool := !previous.any isWord

/-- The mark that stands for a key in brackets. -/
def keyMark (name : Text) : Text := " __SB_".toList ++ name ++ "__ ".toList

/-- A use by a key in brackets. -/
def recogniseKey : Recogniser Text := fun previous t =>
  match startsWord previous, "styles[".toList.isPrefixOf? t with
  | true, some (quote :: rest) =>
    let name := rest.takeWhile isNameChar
    if isQuote quote && !name.isEmpty && [quote, ']'].isPrefixOf (rest.dropWhile isNameChar) then
      some (name.length + 10, keyMark name)
    else none
  | _, _ => none

/-- The text behind the end of a string literal. A backslash takes the next character along unless
that is a line feed; but where the literal would never end otherwise, the last quote behind a
backslash ends it. -/
def afterString? (quote : Char) : Text → Option Text
  | [] => none
  | '\\' :: c :: rest =>
    if c == '\n' then afterString? quote rest
    else match afterString? quote rest with
      | some after => some after
      | none => if c == quote then some rest else none
  | c :: rest => if c == quote then some rest else afterString? quote rest

/-- A string literal. -/
def recogniseString : Recogniser Text
  | _, c :: rest =>
    if isQuote c then
      (afterString? c rest).map fun after => (rest.length + 1 - after.length, [' '])
    else none
  | _, [] => none

/-- The longest name that is not empty and has the end of a mark behind it. -/
def markedName? : Text → Option Text
  | [] => none
  | c :: rest =>
    match markedName? rest with
    | some name => some (c :: name)
    | none => if ['_', '_'].isPrefixOf rest then some [c] else none

/-- A use: a mark, or a name behind a point. -/
def recogniseUsage : Recogniser Text := fun previous t =>
  match "__SB_".toList.isPrefixOf? t with
  | some rest => (markedName? (rest.takeWhile isNameChar)).map fun name => (name.length + 7, name)
  | none =>
    match startsWord previous, "styles.".toList.isPrefixOf? t with
    | true, some (c :: rest) =>
      if isNameStart c then
        let tail := rest.takeWhile isWord
        some (tail.length + 8, c :: tail)
      else none
    | _, _ => none

/-- A component's code with comments and string literals blanked and keys marked. -/
def exposeUsages (code : Text) : Text :=
  replaceOccurrences recogniseString
    (replaceOccurrences recogniseKey
      (replaceOccurrences recogniseLineComment
        (replaceOccurrences recogniseBlockComment code)))

/-- The classes a component uses, in the order of first use. -/
def extractClasses (code : Text) : List Text :=
  (occurrences recogniseUsage (exposeUsages code)).eraseDups

end StyleModules
