import Mathlib.Data.List.Basic
import StyleModules.Component.ImportLine

/-!
# The pattern of a styles import

A styles import is opened by its words and a quote (`importPath?`) and closed by the next quote
(`afterPath?`). Its words contain no line end, but its blanks and its path may. So an import that
starts in a line may go on in a later one, which then decides only whether its path is closed: a
line that could not be the middle of an import itself closes every path that is opened before it
(`isSome_afterImport?_append`). The canonical line is such a line, and an import of its own
(`afterImport?_importLine`).
-/

namespace StyleModules

/-- The text behind blanks and a word. -/
def afterWord? (word t : Text) : Option Text := (afterBlanks? t).bind word.isPrefixOf?

/-- The text behind the opening quote of a styles import. -/
def importPath? (t : Text) : Option Text := do
  let t ← "import".toList.isPrefixOf? t
  let t ← afterWord? "styles".toList t
  let t ← afterWord? "from".toList t
  let t ← afterBlanks? t
  afterQuote? t

/-- The text behind a path, which is not empty, its closing quote and the line end. -/
def afterPath? (path : Text) : Option Text := do
  let close := path.dropWhile (!isQuote ·)
  if close.length < path.length then
    let t ← afterQuote? close
    return afterLineEnd t
  else none

/-- An import is what stands before its path, and the path. -/
theorem afterImport?_eq (t : Text) : afterImport? t = (importPath? t).bind afterPath? := by
  simp only [afterImport?, importPath?, afterWord?, Option.bind_eq_bind, Option.bind_assoc]
  rfl

/-- A quote is found if there is one. -/
theorem isSome_afterQuote?_dropWhile (t : Text) :
    (afterQuote? (t.dropWhile (!isQuote ·))).isSome = t.any isQuote := by
  induction t with
  | nil => rfl
  | cons c t ih =>
    by_cases hc : isQuote c = true
    · simp [hc, afterQuote?]
    · rw [List.dropWhile_cons_of_pos (by simpa using hc), ih, List.any_cons,
        eq_false_of_ne_true hc, Bool.false_or]

/-- A path is closed if it has a quote, but not as its first character. -/
theorem isSome_afterPath?_iff {path : Text} :
    (afterPath? path).isSome ↔ path.any isQuote = true ∧ path.head?.any isQuote = false := by
  cases path with
  | nil => simp [afterPath?]
  | cons c path =>
    by_cases hc : isQuote c = true
    · simp [afterPath?, hc]
    · have hlength : (path.dropWhile (!isQuote ·)).length < (c :: path).length :=
        Nat.lt_succ_of_le (List.dropWhile_suffix _).length_le
      rw [afterPath?, List.dropWhile_cons_of_pos (by simpa using hc), if_pos hlength,
        bind_pure_comp, Option.map_eq_map, Option.isSome_map, isSome_afterQuote?_dropWhile]
      simp [hc]

/-- A word without the character stands in front of the character, or not at all. -/
theorem isPrefixOf?_append_cons {word : Text} {c : Char} (hc : c ∉ word) (t back : Text) :
    word.isPrefixOf? (t ++ c :: back) = (word.isPrefixOf? t).map (· ++ c :: back) := by
  induction word generalizing t with
  | nil => rfl
  | cons d word ih =>
    rw [List.mem_cons, not_or] at hc
    cases t with
    | nil => simp [List.isPrefixOf?, Ne.symm hc.1]
    | cons e t =>
      simp only [List.cons_append, List.isPrefixOf?]
      split
      · exact ih hc.2 t
      · rfl

/-- A quote is read in a line as in the lines from it on. -/
theorem afterQuote?_append (t back : Text) :
    afterQuote? (t ++ '\n' :: back) = (afterQuote? t).map (· ++ '\n' :: back) := by
  cases t with
  | nil => rfl
  | cons c t =>
    simp only [List.cons_append, afterQuote?]
    split <;> rfl

/-- A text that starts with no blank has none to drop. -/
theorem dropWhile_isBlank_of_head? {t : Text} (h : t.head?.any isBlank = false) :
    t.dropWhile isBlank = t := by
  cases t with
  | nil => rfl
  | cons c t => exact List.dropWhile_cons_of_neg (by simpa using h)

/-- Blanks end in front of the line end, or there is nothing else in front of it. -/
theorem afterBlanks?_append {back : Text} (hback : back.head?.any isBlank = false) (t : Text) :
    afterBlanks? (t ++ '\n' :: back) = (afterBlanks? t).map (· ++ '\n' :: back) ∨
      afterBlanks? (t ++ '\n' :: back) = some back ∧
        ∀ rest, afterBlanks? t = some rest → rest = [] := by
  have hfeed : isBlank '\n' = true := by decide
  cases t with
  | nil =>
    refine .inr ⟨?_, nofun⟩
    rw [List.nil_append, afterBlanks?, if_pos hfeed, dropWhile_isBlank_of_head? hback]
  | cons c t =>
    rw [List.cons_append, afterBlanks?, afterBlanks?]
    split
    · rw [List.dropWhile_append]
      split
      · next hall =>
        refine .inr ⟨?_, fun rest hrest => ?_⟩
        · rw [List.dropWhile_cons_of_pos hfeed, dropWhile_isBlank_of_head? hback]
        · rw [← Option.some.inj hrest]
          exact List.isEmpty_iff.mp hall
      · exact .inl rfl
    · exact .inl rfl

/-- A word is read in a line as in the lines from it on. -/
theorem afterWord?_append {word back : Text} (hword : '\n' ∉ word)
    (hother : word.isPrefixOf? back = none) (hback : back.head?.any isBlank = false) (t : Text) :
    afterWord? word (t ++ '\n' :: back) = (afterWord? word t).map (· ++ '\n' :: back) := by
  rw [afterWord?, afterWord?]
  obtain hlift | ⟨hall, hrest⟩ := afterBlanks?_append hback t
  · rw [hlift, Option.bind_map, Option.map_bind]
    exact congrArg _ (funext fun rest => isPrefixOf?_append_cons hword rest back)
  · rw [hall, Option.bind_some, hother]
    cases hblanks : afterBlanks? t with
    | none => rfl
    | some rest =>
      cases word with
      | nil => cases hother
      | cons c word =>
        rw [hrest rest hblanks]
        rfl

/-- A text that closes the path of an import opened in an earlier line, and is neither the middle of
an import nor its path. -/
structure ClosesImport (t : Text) : Prop where
  not_blank : t.head?.any isBlank = false
  not_styles : "styles".toList.isPrefixOf? t = none
  not_from : "from".toList.isPrefixOf? t = none
  no_path : (afterQuote? t).bind afterPath? = none
  quote : t.any isQuote = true

/-- A quote cannot go on an import. -/
theorem closesImport_quote : ClosesImport ['"'] := by
  constructor <;> decide

/-- The line that imports a stylesheet, by its words. -/
theorem importLine_eq (name : Text) :
    importLine name = "import".toList ++ ' ' :: ("styles".toList ++ ' ' :: ("from".toList ++
      ' ' :: '"' :: '.' :: '/' :: (name ++ ['"', ';']))) := by
  have hwords : "import styles from \"./".toList = "import".toList ++ ' ' :: ("styles".toList ++
      ' ' :: ("from".toList ++ [' ', '"', '.', '/'])) := by decide
  change "import styles from \"./".toList ++ name ++ "\";".toList = _
  rw [hwords]
  simp only [List.append_assoc, List.cons_append, List.nil_append]
  rfl

/-- An import line cannot go on an import. -/
theorem closesImport_importLine (name back : Text) : ClosesImport (importLine name ++ back) := by
  rw [importLine_eq]
  exact {
    not_blank := rfl
    not_styles := rfl
    not_from := rfl
    no_path := rfl
    quote := List.any_eq_true.mpr ⟨'"', by simp, by decide⟩ }

/-- An import is opened in front of the line end, or its words are all that stands there. -/
theorem importPath?_append {back : Text} (hback : ClosesImport back) (t : Text) :
    importPath? (t ++ '\n' :: back) = (importPath? t).map (· ++ '\n' :: back) ∨
      importPath? (t ++ '\n' :: back) = afterQuote? back ∧ importPath? t = none := by
  simp only [importPath?, Option.bind_eq_bind]
  rw [isPrefixOf?_append_cons (by decide), Option.bind_map]
  cases "import".toList.isPrefixOf? t with
  | none => exact .inl rfl
  | some t =>
    rw [Option.bind_some, Option.bind_some, Function.comp_apply,
      afterWord?_append (by decide) hback.not_styles hback.not_blank, Option.bind_map]
    cases afterWord? "styles".toList t with
    | none => exact .inl rfl
    | some t =>
      rw [Option.bind_some, Option.bind_some, Function.comp_apply,
        afterWord?_append (by decide) hback.not_from hback.not_blank, Option.bind_map]
      cases afterWord? "from".toList t with
      | none => exact .inl rfl
      | some t =>
        rw [Option.bind_some, Option.bind_some, Function.comp_apply]
        obtain hlift | ⟨hall, hrest⟩ := afterBlanks?_append hback.not_blank t
        · refine .inl ?_
          rw [hlift, Option.bind_map, Option.map_bind]
          exact congrArg _ (funext fun rest => afterQuote?_append rest back)
        · refine .inr ⟨by rw [hall, Option.bind_some], ?_⟩
          cases hblanks : afterBlanks? t with
          | none => rfl
          | some rest =>
            rw [hrest rest hblanks]
            rfl

/-- Whether there is an import depends only on the text in front of a line that closes it. -/
theorem isSome_afterImport?_append {back : Text} (hback : ClosesImport back) (t : Text) :
    (afterImport? (t ++ '\n' :: back)).isSome ↔
      ∃ path, importPath? t = some path ∧ path.head?.any isQuote = false := by
  rw [afterImport?_eq]
  obtain hlift | ⟨hall, hnone⟩ := importPath?_append hback t
  · rw [hlift, Option.bind_map]
    cases importPath? t with
    | none => simp
    | some path =>
      have hhead : (path ++ '\n' :: back).head?.any isQuote = path.head?.any isQuote := by
        cases path <;> rfl
      rw [Option.bind_some, Function.comp_apply, isSome_afterPath?_iff, hhead]
      simp [hback.quote]
  · rw [hall, hnone, hback.no_path]
    simp

/-- A word is read at its own start. -/
theorem isPrefixOf?_append_self (word t : Text) : word.isPrefixOf? (word ++ t) = some t :=
  List.isPrefixOf?_eq_some_iff_append_eq.mpr rfl

/-- A space is read as a blank. -/
theorem afterBlanks?_space {t : Text} (h : t.head?.any isBlank = false) :
    afterBlanks? (' ' :: t) = some t := by
  rw [afterBlanks?, if_pos (by decide), dropWhile_isBlank_of_head? h]

/-- A word is read behind a space. -/
theorem afterWord?_space {word : Text} (h : ∀ t, (word ++ t).head?.any isBlank = false)
    (t : Text) : afterWord? word (' ' :: (word ++ t)) = some t := by
  rw [afterWord?, afterBlanks?_space (h t), Option.bind_some, isPrefixOf?_append_self]

/-- A path in quotes is read up to the end of its line. -/
theorem afterPath?_append {path : Text} (hne : path ≠ []) (h : ∀ c ∈ path, isQuote c = false)
    (back : Text) : afterPath? (path ++ '"' :: back) = some (afterLineEnd back) := by
  have hclose : (path ++ '"' :: back).dropWhile (!isQuote ·) = '"' :: back := by
    rw [List.dropWhile_append_of_pos fun c hc => by simp [h c hc],
      List.dropWhile_cons_of_neg (by decide)]
  have hlength := List.length_pos_of_ne_nil hne
  rw [afterPath?, hclose, if_pos (by rw [List.length_append]; omega)]
  rfl

/-- The canonical line is a styles import, up to its line end. -/
theorem afterImport?_importLine {name : Text} (hname : ∀ c ∈ name, isQuote c = false)
    (back : Text) : afterImport? (importLine name ++ '\n' :: back) = some back := by
  have hstyles : ∀ t, afterWord? "styles".toList (' ' :: ("styles".toList ++ t)) = some t :=
    afterWord?_space fun _ => rfl
  have hfrom : ∀ t, afterWord? "from".toList (' ' :: ("from".toList ++ t)) = some t :=
    afterWord?_space fun _ => rfl
  have hpath : importPath? (importLine name ++ '\n' :: back) =
      some ('.' :: '/' :: name ++ '"' :: ';' :: '\n' :: back) := by
    simp only [importLine_eq, List.append_assoc, List.cons_append, List.nil_append, importPath?,
      Option.bind_eq_bind, isPrefixOf?_append_self, Option.bind_some, hstyles, hfrom]
    rfl
  rw [afterImport?_eq, hpath, Option.bind_some, afterPath?_append (List.cons_ne_nil _ _)]
  · rfl
  · intro c hc
    obtain rfl | rfl | hc := by simpa using hc
    exacts [rfl, rfl, hname c hc]

end StyleModules
