/-!
# Text

Texts are lists of characters, so that scanning is plain recursion. This module holds the notion
of a blank character, trimming at either end, searching for a word inside a text, and the
comparison of texts by code point, which is a linear order (`le_total`, `le_trans`,
`le_antisymm`).
-/

namespace StyleModules

/-- A text is the list of its characters. -/
abbrev Text := List Char

/-- The code point lies in one of the closed ranges. -/
def inRanges (ranges : List (Nat × Nat)) (n : Nat) : Bool :=
  ranges.any fun range => range.1 ≤ n && n ≤ range.2

/-- The ranges of blank characters, in increasing order. -/
def blankRanges : List (Nat × Nat) :=
  [(0x09, 0x0D), (0x1C, 0x20), (0x85, 0x85), (0xA0, 0xA0), (0x1680, 0x1680), (0x2000, 0x200A),
    (0x2028, 0x2029), (0x202F, 0x202F), (0x205F, 0x205F), (0x3000, 0x3000)]

/-- A blank character is a space, tab, line end or separator of any kind. -/
def isBlank (c : Char) : Bool := inRanges blankRanges c.toNat

/-- The quotes are the single and the double one. -/
def isQuote (c : Char) : Bool := c == '\'' || c == '"'

namespace Text

/-- Remove the longest run of characters with the property from the end. -/
def dropEndWhile (p : Char → Bool) : Text → Text
  | [] => []
  | c :: rest =>
    match dropEndWhile p rest with
    | [] => if p c then [] else [c]
    | d :: kept => c :: d :: kept

/-- Remove blanks from the start. -/
def trimStart (t : Text) : Text := t.dropWhile isBlank

/-- Remove blanks from the end. -/
def trimEnd (t : Text) : Text := t.dropEndWhile isBlank

/-- Remove blanks from both ends. -/
def trim (t : Text) : Text := trimEnd (trimStart t)

/-- Every character is blank; the empty text is blank. -/
def isBlankText (t : Text) : Bool := t.all isBlank

/-- The text before the first occurrence of the character, or all of it. -/
def before (c : Char) (t : Text) : Text := t.takeWhile (· != c)

/-- The text after the first occurrence of the character, or nothing. -/
def after (c : Char) (t : Text) : Text := (t.dropWhile (· != c)).drop 1

/-- The word stands somewhere in the text. -/
def occursIn (word : Text) : Text → Bool
  | [] => word.isEmpty
  | c :: rest => word.isPrefixOf (c :: rest) || occursIn word rest

/-- The order of texts by code point, a proper beginning first. -/
def le : Text → Text → Bool
  | [], _ => true
  | _ :: _, [] => false
  | a :: s, b :: t =>
    if a.toNat < b.toNat then true else if b.toNat < a.toNat then false else le s t

/-- The texts with a separator between neighbours. -/
def join (separator : Text) : List Text → Text
  | [] => []
  | [t] => t
  | t :: u :: rest => t ++ separator ++ join separator (u :: rest)

/-- The pieces between occurrences of a character; there is one more piece than occurrences. -/
def splitAll (c : Char) : Text → List Text
  | [] => [[]]
  | d :: rest =>
    match splitAll c rest with
    | [] => [[d]]
    | piece :: pieces => if d == c then [] :: piece :: pieces else (d :: piece) :: pieces

/-- The decimal numeral of a number. -/
def ofNat (n : Nat) : Text := Nat.toDigits 10 n

/-- Nothing is dropped from the empty text. -/
@[simp] theorem dropEndWhile_nil (p : Char → Bool) : dropEndWhile p [] = [] := rfl

/-- What is removed from the end has the property, and nothing else is removed. -/
theorem dropEndWhile_append (p : Char → Bool) (t : Text) :
    ∃ removed, t = dropEndWhile p t ++ removed ∧ removed.all p = true := by
  induction t with
  | nil => exact ⟨[], rfl, rfl⟩
  | cons c rest ih =>
    obtain ⟨removed, he, hr⟩ := ih
    rw [dropEndWhile]
    split
    · next h =>
      rw [h] at he
      by_cases hc : p c = true
      · exact ⟨c :: rest, by simp [hc], by rw [he]; simpa [hc] using hr⟩
      · refine ⟨removed, ?_, hr⟩
        rw [if_neg hc, List.singleton_append]
        exact congrArg (c :: ·) he
    · next d kept h =>
      exact ⟨removed, by rw [h] at he; simp [he], hr⟩

/-- Trimming the end twice is trimming it once. -/
theorem dropEndWhile_idem (p : Char → Bool) (t : Text) :
    dropEndWhile p (dropEndWhile p t) = dropEndWhile p t := by
  induction t with
  | nil => rfl
  | cons c rest ih =>
    rw [dropEndWhile]
    split
    · by_cases hc : p c = true <;> simp [hc, dropEndWhile]
    · next d kept h =>
      rw [h] at ih
      rw [dropEndWhile, ih]

/-- Of two texts one comes first. -/
theorem le_total (s t : Text) : (le s t || le t s) = true := by
  induction s generalizing t with
  | nil => rfl
  | cons a s ih =>
    cases t with
    | nil => rfl
    | cons b t =>
      rw [le, le]
      by_cases hab : a.toNat < b.toNat
      · simp [hab]
      · by_cases hba : b.toNat < a.toNat
        · simp [hba]
        · simpa [hab, hba] using ih t

/-- The order of texts is transitive. -/
theorem le_trans {s t u : Text} (hst : le s t = true) (htu : le t u = true) : le s u = true := by
  induction s generalizing t u with
  | nil => rfl
  | cons a s ih =>
    cases t with
    | nil => simp [le] at hst
    | cons b t =>
      cases u with
      | nil => simp [le] at htu
      | cons c u =>
        rw [le] at hst htu ⊢
        split at hst
        · split at htu
          · rw [if_pos (by omega)]
          · split at htu
            · simp at htu
            · rw [if_pos (by omega)]
        · split at hst
          · simp at hst
          · split at htu
            · rw [if_pos (by omega)]
            · split at htu
              · simp at htu
              · rw [if_neg (by omega), if_neg (by omega)]
                exact ih hst htu

/-- Texts that each come before the other are equal. -/
theorem le_antisymm {s t : Text} (hst : le s t = true) (hts : le t s = true) : s = t := by
  induction s generalizing t with
  | nil =>
    cases t with
    | nil => rfl
    | cons b t => simp [le] at hts
  | cons a s ih =>
    cases t with
    | nil => simp [le] at hst
    | cons b t =>
      rw [le] at hst hts
      by_cases hab : a.toNat < b.toNat
      · rw [if_neg (by omega), if_pos hab] at hts
        simp at hts
      · by_cases hba : b.toNat < a.toNat
        · rw [if_neg hab, if_pos hba] at hst
          simp at hst
        · rw [if_neg hab, if_neg hba] at hst
          rw [if_neg hba, if_neg hab] at hts
          have hc : a = b := Char.toNat_inj.1 (by omega)
          rw [hc, ih hst hts]

end Text

end StyleModules
