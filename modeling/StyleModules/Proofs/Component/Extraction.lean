import StyleModules.Proofs.Component.UsagePass

/-!
# Reading the classes off a component's code

Code is written in pieces, one after another on lines of their own: uses, comments, string literals
and other text (`CodePiece`). Each of the five searches turns such code into code of the same shape
and leaves each piece on its line (`exposeUsages_codeOf`). So the classes used are the names of the
uses in the order of the pieces, whatever is written in the comments and the string literals between
them (`extractClasses_codeOf`).
-/

namespace StyleModules

/-- A piece of code. -/
inductive CodePiece where
  /-- A use of a name behind a point. -/
  | pointUse (name : Text)
  /-- A use of a name as a key in brackets, between quotes. -/
  | keyUse (quote : Char) (name : Text)
  /-- A comment between delimiters. -/
  | blockComment (body : Text)
  /-- A comment to the end of the line. -/
  | lineComment (body : Text)
  /-- A string literal, between quotes. -/
  | literal (quote : Char) (body : Text)
  /-- Code without uses, comments and string literals. -/
  | other (text : Text)
  deriving DecidableEq, Repr

namespace CodePiece

/-- The piece as it is written. -/
def text : CodePiece → Text
  | .pointUse name => "styles.".toList ++ name
  | .keyUse quote name => keyText quote name
  | .blockComment body => '/' :: '*' :: (body ++ ['*', '/'])
  | .lineComment body => '/' :: '/' :: body
  | .literal quote body => quote :: (body ++ [quote])
  | .other text => text

/-- The name that the piece uses. -/
def name? : CodePiece → Option Text
  | .pointUse name => some name
  | .keyUse _ name => some name
  | _ => none

/-- The piece is written as its kind demands: nothing inside ends it early or opens a comment. -/
def WellFormed : CodePiece → Prop
  | .pointUse name => name.head?.any isNameStart = true ∧ ∀ c ∈ name, isWord c = true
  | .keyUse quote name => IsKey quote name
  | .blockComment body => ¬ ['*', '/'] <:+: body
  | .lineComment body => '\n' ∉ body ∧ ¬ ['/', '*'] <:+: '/' :: '/' :: body
  | .literal quote body =>
    isQuote quote = true ∧ quote ∉ body ∧ '\\' ∉ body ∧ '\n' ∉ body ∧
      ¬ ['/', '/'] <:+: body ∧ ¬ ['/', '*'] <:+: body
  | .other text =>
    (∀ c ∈ text, isQuote c = false) ∧ '/' ∉ text ∧ ¬ "styles".toList <:+: text ∧
      ¬ "__SB_".toList <:+: text

instance (piece : CodePiece) : Decidable piece.WellFormed :=
  match piece with
  | .pointUse name =>
    haveI := List.decidableBAll (isWord · = true) name
    inferInstanceAs (Decidable (_ ∧ _))
  | .keyUse .. => inferInstanceAs (Decidable (IsKey ..))
  | .blockComment _ => inferInstanceAs (Decidable (¬ _))
  | .lineComment _ => inferInstanceAs (Decidable (_ ∧ _))
  | .literal .. => inferInstanceAs (Decidable (_ ∧ _))
  | .other text =>
    haveI := List.decidableBAll (isQuote · = false) text
    inferInstanceAs (Decidable (_ ∧ _))

/-- The piece behind the search for block comments. -/
def afterBlocks : CodePiece → Text
  | .blockComment _ => [' ']
  | piece => piece.text

/-- The piece behind the search for line comments. -/
def afterLines : CodePiece → Text
  | .lineComment _ => [' ']
  | piece => piece.afterBlocks

/-- The piece behind the search for keys, which finds keys in string literals too. -/
def afterKeys : CodePiece → Text
  | .keyUse _ name => keyMark name
  | .literal quote body =>
    quote :: (readFrom Segment.fill recogniseKey (some quote) body ++ [quote])
  | piece => piece.afterLines

/-- The piece behind the search for string literals. -/
def exposed : CodePiece → Text
  | .literal .. => [' ']
  | piece => piece.afterKeys

end CodePiece

section Characters

variable {c quote : Char} {word body name t : Text}

/-- A word does not occur in a text that lacks one of its characters. -/
theorem not_infix_of_not_mem (hc : c ∈ word) (h : c ∉ t) : ¬ word <:+: t :=
  fun hword => h (hword.subset hc)

/-- Quotes around a text add no word without quotes. -/
theorem not_infix_quoted (hne : word ≠ []) (hquote : quote ∉ word) (h : ¬ word <:+: body) :
    ¬ word <:+: quote :: (body ++ [quote]) := by
  rw [List.infix_cons_iff, List.infix_concat_iff, List.suffix_concat_iff, not_or, not_or, not_or]
  refine ⟨fun hstart => ?_, ⟨hne, ?_⟩, h⟩
  · obtain ⟨d, word, rfl⟩ := List.exists_cons_of_ne_nil hne
    obtain ⟨rfl, _⟩ := List.cons_prefix_cons.mp hstart
    exact hquote List.mem_cons_self
  · rintro ⟨front, rfl, _⟩
    exact hquote (by simp)

/-- A text without quotes lacks each quote. -/
theorem quote_not_mem (hquote : isQuote quote = true) (h : t.all (!isQuote ·) = true) :
    quote ∉ t := by
  intro hmem
  have hplain := List.all_eq_true.mp h quote hmem
  rw [hquote] at hplain
  cases hplain

/-- A mark for a key is made of spaces and parts of names. -/
theorem mem_keyMark (hname : ∀ d ∈ name, isNameChar d = true) (hc : c ∈ keyMark name) :
    c = ' ' ∨ isNameChar c = true := by
  have hwords : ∀ d ∈ " __SB_".toList ++ "__ ".toList, d = ' ' ∨ isNameChar d = true :=
    List.all_iff_forall_prop.mp (by decide)
  unfold keyMark at hc
  rw [List.mem_append, List.mem_append] at hc
  rcases hc with (hc | hc) | hc
  · exact hwords c (List.mem_append_left _ hc)
  · exact Or.inr (hname c hc)
  · exact hwords c (List.mem_append_right _ hc)

end Characters

section LiteralKeys

variable {quote : Char} {body back : Text}

/-- Within a string literal that ends its line, no key goes beyond the closing quote. -/
theorem keyText_isPrefix_iff {other : Char} {name rest : Text} (hkey : IsKey other name)
    (hquote : isQuote quote = true) (hrest : quote ∉ rest) (hback : LineEnd back) :
    keyText other name <+: rest ++ quote :: back ↔ keyText other name <+: rest := by
  refine ⟨fun h => ?_, fun h => h.trans (List.prefix_append _ _)⟩
  have hname := isNameChar_of_isQuote hquote
  have hbrackets : quote ≠ '[' ∧ quote ≠ ']' := by
    constructor <;> rintro rfl <;> exact absurd hquote (by decide)
  rcases eq_or_ne quote other with rfl | hdiff
  · -- The key's first quote would close the literal, but no name follows at the end of a line.
    have hbefore {t : Text} (ht : quote ∉ t) (u : Text) : Text.before quote (t ++ quote :: u) = t :=
      takeWhile_append_of_stop (fun c hc => bne_iff_ne.mpr (ne_of_mem_of_not_mem hc ht)) (by simp)
    have hword : quote ∉ "styles[".toList := quote_not_mem hquote (by decide)
    obtain ⟨more, hmore⟩ := h
    rw [keyText_append] at hmore
    obtain rfl : rest = "styles[".toList := by
      rw [← hbefore hrest back, ← hmore, hbefore hword]
    rw [List.append_cancel_left_eq, List.cons.injEq] at hmore
    obtain ⟨c, name, rfl⟩ := List.exists_cons_of_ne_nil hkey.ne_nil
    have hfeed : c = '\n' := hback.eq_feed (by rw [← hmore.2]; rfl)
    exact absurd (hkey.chars c List.mem_cons_self) (by rw [hfeed]; decide)
  · refine isPrefix_of_isPrefix_append (fun c hc => ?_) h
    rw [← Option.some.inj hc]
    exact not_mem_keyText hkey hname hdiff hbrackets

/-- Within a literal that ends its line, keys are recognised from the literal alone. -/
theorem isLocal_recogniseKey (hquote : isQuote quote = true) (hbody : quote ∉ body)
    (hback : LineEnd back) : IsLocal recogniseKey body (quote :: back) where
  same previous rest hrest _ := by
    have hin : quote ∉ rest := fun hmem => hbody (hrest.subset hmem)
    ext ⟨length, value⟩
    simp only [recogniseKey_eq_some_iff]
    refine and_congr_right fun _ => exists_congr fun other => exists_congr fun name => ?_
    exact and_congr_right fun hkey =>
      and_congr_left fun _ => keyText_isPrefix_iff hkey hquote hin hback
  within previous rest length value hrest h := by
    obtain ⟨_, other, name, _, hkey, rfl, _⟩ := recogniseKey_eq_some_iff.mp h
    exact hkey.length_le

/-- Searching a string literal for keys puts no quote of its kind and no backslash into it. -/
theorem not_mem_readFrom_key {c : Char} (hc : isPlain c = false) (hbody : c ∉ body)
    (previous : Option Char) : c ∉ readFrom Segment.fill recogniseKey previous body := by
  intro hmem
  rcases mem_of_mem_readFrom_fill hmem with hmem | ⟨before, rest, length, value, hr, hmem⟩
  · exact hbody hmem
  · obtain ⟨_, quote, name, hkey, _, _, rfl⟩ := recogniseKey_eq_some_iff.mp hr
    rcases mem_keyMark hkey.chars hmem with rfl | hword
    · exact absurd hc (by decide)
    · rw [isPlain_of_isNameChar hword] at hc
      cases hc

/-- The search for keys stays within a string literal that stands on its line. -/
theorem gives_recogniseKey_literal (hquote : isQuote quote = true) (hbody : quote ∉ body) :
    Gives Segment.fill recogniseKey (quote :: (body ++ [quote]))
      (quote :: (readFrom Segment.fill recogniseKey (some quote) body ++ [quote])) := by
  intro previous back _ hback
  have hword : ∀ word ∈ ["styles[".toList], quote ∉ word :=
    List.forall_mem_singleton.mpr (quote_not_mem hquote (by decide))
  have hplain := beginsWith_key.cons_eq_none hword
  rw [lastOf_cons, lastOf_concat, List.cons_append, List.append_assoc, List.singleton_append,
    readFrom_cons (hplain _ _), (isLocal_recogniseKey hquote hbody hback).readFrom_append,
    readFrom_cons (hplain _ _)]
  simp only [Segment.fill, List.cons_append, List.nil_append, List.append_assoc]

/-- A string literal is blanked, whatever the search for keys has put into it. -/
theorem gives_recogniseString_literal (hquote : isQuote quote = true) (hbody : quote ∉ body)
    (hescape : '\\' ∉ body) :
    Gives Segment.fill recogniseString
      (quote :: (readFrom Segment.fill recogniseKey (some quote) body ++ [quote])) [' '] := by
  have hplain : isPlain quote = false := by simp [isPlain, hquote]
  have hbody := not_mem_readFrom_key hplain hbody (some quote)
  have hescape := not_mem_readFrom_key (by decide) hescape (some quote)
  refine Gives.of_recognised (List.cons_ne_nil _ _) fun previous back _ _ => ?_
  rw [List.cons_append, List.append_assoc, List.singleton_append,
    recogniseString_literal hquote hbody hescape, List.length_cons, List.length_append]
  rfl

end LiteralKeys

section Uses

variable {quote : Char} {name : Text}

/-- A word may start at the start of a line. -/
theorem LineStart.startsWord {previous : Option Char} (h : LineStart previous) :
    startsWord previous = true := by
  rcases h with rfl | rfl <;> decide

/-- A use by key is read as its mark. -/
theorem gives_recogniseKey_key (h : IsKey quote name) :
    Gives Segment.fill recogniseKey (keyText quote name) (keyMark name) :=
  Gives.of_recognised (keyText_ne_nil quote name) fun _ _ hprevious _ =>
    recogniseKey_eq_some_iff.mpr
      ⟨hprevious.startsWord, quote, name, h, List.prefix_append _ _, rfl, rfl⟩

/-- The mark of a key counts as a use of its name, between blanks that do not count. -/
theorem gives_recogniseUsage_mark (hne : name ≠ []) (hname : ∀ c ∈ name, isNameChar c = true) :
    Gives Segment.values recogniseUsage (keyMark name) [name] := by
  intro previous back _ _
  have hblank : ∀ word ∈ ["__SB_".toList, "styles.".toList], ' ' ∉ word := by decide
  have hplain := beginsWith_usage.cons_eq_none hblank
  have hmark : keyMark name = ' ' :: ("__SB_".toList ++ (name ++ ['_', '_']) ++ [' ']) := by
    unfold keyMark
    simp
  have hlength : name.length + 7 = ("__SB_".toList ++ (name ++ ['_', '_'])).length := by
    simp
  have hfound := recogniseUsage_mark hne hname (some ' ') back
  rw [hlength] at hfound
  rw [hmark, lastOf_cons, lastOf_concat, List.cons_append, List.append_assoc,
    List.singleton_append, readFrom_cons (hplain _ _),
    readFrom_of_recognised (List.append_ne_nil_of_left_ne_nil (by decide) _) hfound,
    readFrom_cons (hplain _ _)]
  rfl

/-- A name behind a point counts as a use of it. -/
theorem gives_recogniseUsage_point (hstart : name.head?.any isNameStart = true)
    (hname : ∀ c ∈ name, isWord c = true) :
    Gives Segment.values recogniseUsage ("styles.".toList ++ name) [name] := by
  cases name with
  | nil => cases hstart
  | cons c name =>
    have hlength : ("styles.".toList ++ c :: name).length = name.length + 8 := by
      rw [List.length_append, List.length_cons, Nat.add_comm]
      rfl
    refine Gives.of_recognised (List.append_ne_nil_of_left_ne_nil (by decide) _)
      fun previous back hprevious hback => ?_
    rw [hlength]
    refine recogniseUsage_point hstart (fun d hd => hname d (List.mem_cons_of_mem c hd))
      hprevious.startsWord fun d hd => ?_
    rw [hback.eq_feed hd]
    decide

end Uses

/-- No search for string literals finds anything in a text without quotes. -/
theorem gives_recogniseString {t : Text} (h : ∀ c ∈ t, isQuote c = false) :
    Gives Segment.fill recogniseString t t := by
  refine beginsWith_string.gives_fill fun word hword hin => ?_
  simp only [List.mem_cons, List.not_mem_nil, or_false] at hword
  rcases hword with rfl | rfl <;>
    exact absurd (h _ (hin.subset List.mem_cons_self)) (by decide)

namespace CodePiece

variable {piece : CodePiece} {quote : Char} {name : Text}

/-- A use by point holds points, words and nothing else. -/
theorem not_mem_pointUse {c : Char} (h : (pointUse name).WellFormed) (hc : isWord c = false)
    (hpoint : c ≠ '.') : c ∉ (pointUse name).text := by
  have hword : ∀ d ∈ "styles.".toList, isWord d = true ∨ d = '.' :=
    List.all_iff_forall_prop.mp (by decide)
  intro hmem
  rcases List.mem_append.mp hmem with hmem | hmem
  · rcases hword c hmem with hmem | hmem
    · simp [hc] at hmem
    · exact hpoint hmem
  · simp [h.2 c hmem] at hc

/-- A use by point holds no slash. -/
theorem slash_not_mem_pointUse (h : (pointUse name).WellFormed) : '/' ∉ (pointUse name).text :=
  not_mem_pointUse h (by decide) (by decide)

/-- A use by key holds no slash. -/
theorem slash_not_mem_keyUse (h : (keyUse quote name).WellFormed) :
    '/' ∉ (keyUse quote name).text := by
  refine not_mem_keyText h (by decide) ?_ (by decide)
  rintro rfl
  exact absurd h.quoted (by decide)

/-- Only block comments are found by the search for them. -/
theorem WellFormed.gives_afterBlocks (h : piece.WellFormed) :
    Gives Segment.fill recogniseBlockComment piece.text piece.afterBlocks := by
  have hfree {t : Text} (ht : ¬ ['/', '*'] <:+: t) : Gives Segment.fill recogniseBlockComment t t :=
    beginsWith_blockComment.gives_fill (List.forall_mem_singleton.mpr ht)
  cases piece with
  | pointUse name =>
    exact hfree (not_infix_of_not_mem List.mem_cons_self (slash_not_mem_pointUse h))
  | keyUse quote name =>
    exact hfree (not_infix_of_not_mem List.mem_cons_self (slash_not_mem_keyUse h))
  | blockComment body =>
    exact Gives.of_recognised (List.cons_ne_nil _ _) fun previous back _ _ => by
      have hlength : (blockComment body).text.length = body.length + 4 := by
        show (body ++ ['*', '/']).length + 2 = _
        rw [List.length_append]
        rfl
      rw [hlength, ← recogniseBlockComment_closed h previous back]
      exact congrArg (fun u => recogniseBlockComment previous ('/' :: '*' :: u))
        (List.append_assoc ..)
  | lineComment body => exact hfree h.2
  | literal quote body =>
    have hquote : quote ∉ ['/', '*'] := quote_not_mem h.1 (by decide)
    exact hfree (not_infix_quoted (List.cons_ne_nil _ _) hquote h.2.2.2.2.2)
  | other text => exact hfree (not_infix_of_not_mem List.mem_cons_self h.2.1)

/-- Only line comments are found by the search for them. -/
theorem WellFormed.gives_afterLines (h : piece.WellFormed) :
    Gives Segment.fill recogniseLineComment piece.afterBlocks piece.afterLines := by
  have hfree {t : Text} (ht : ¬ ['/', '/'] <:+: t) : Gives Segment.fill recogniseLineComment t t :=
    beginsWith_lineComment.gives_fill (List.forall_mem_singleton.mpr ht)
  cases piece with
  | pointUse name =>
    exact hfree (not_infix_of_not_mem List.mem_cons_self (slash_not_mem_pointUse h))
  | keyUse quote name =>
    exact hfree (not_infix_of_not_mem List.mem_cons_self (slash_not_mem_keyUse h))
  | blockComment body => exact hfree (t := [' ']) (by decide)
  | lineComment body =>
    exact Gives.of_recognised (List.cons_ne_nil _ _) fun previous back _ hback =>
      recogniseLineComment_line h.1 hback previous
  | literal quote body =>
    have hquote : quote ∉ ['/', '/'] := quote_not_mem h.1 (by decide)
    exact hfree (not_infix_quoted (List.cons_ne_nil _ _) hquote h.2.2.2.2.1)
  | other text => exact hfree (not_infix_of_not_mem List.mem_cons_self h.2.1)

/-- Keys become marks, in uses and in string literals. -/
theorem WellFormed.gives_afterKeys (h : piece.WellFormed) :
    Gives Segment.fill recogniseKey piece.afterLines piece.afterKeys := by
  have hfree {t : Text} (ht : ¬ "styles[".toList <:+: t) : Gives Segment.fill recogniseKey t t :=
    beginsWith_key.gives_fill (List.forall_mem_singleton.mpr ht)
  cases piece with
  | pointUse name =>
    refine hfree (not_infix_of_not_mem (c := '[') (by decide) ?_)
    exact not_mem_pointUse h (by decide) (by decide)
  | keyUse quote name => exact gives_recogniseKey_key h
  | blockComment body => exact hfree (t := [' ']) (by decide)
  | lineComment body => exact hfree (t := [' ']) (by decide)
  | literal quote body => exact gives_recogniseKey_literal h.1 h.2.1
  | other text =>
    exact hfree fun hin => h.2.2.1 (List.IsInfix.trans (by decide) hin)

/-- String literals are blanked, whatever the search for keys has put into them. -/
theorem WellFormed.gives_exposed (h : piece.WellFormed) :
    Gives Segment.fill recogniseString piece.afterKeys piece.exposed := by
  cases piece with
  | pointUse name =>
    refine gives_recogniseString fun c hc => Bool.eq_false_iff.mpr fun hquote => ?_
    have hword := isNameChar_of_isQuote hquote
    rw [isNameChar, Bool.or_eq_false_iff] at hword
    refine not_mem_pointUse h hword.1 ?_ hc
    rintro rfl
    exact absurd hquote (by decide)
  | keyUse quote name =>
    refine gives_recogniseString fun c hc => ?_
    rcases mem_keyMark h.chars hc with rfl | hname
    · decide
    · refine Bool.eq_false_iff.mpr fun hquote => ?_
      rw [isNameChar_of_isQuote hquote] at hname
      cases hname
  | blockComment body => exact gives_recogniseString (List.forall_mem_singleton.mpr (by decide))
  | lineComment body => exact gives_recogniseString (List.forall_mem_singleton.mpr (by decide))
  | literal quote body => exact gives_recogniseString_literal h.1 h.2.1 h.2.2.1
  | other text => exact gives_recogniseString h.1

/-- What is left shows the uses. -/
theorem WellFormed.gives_name? (h : piece.WellFormed) :
    Gives Segment.values recogniseUsage piece.exposed piece.name?.toList := by
  have hfree {t : Text} (hmark : ¬ "__SB_".toList <:+: t) (hpoint : ¬ "styles.".toList <:+: t) :
      Gives Segment.values recogniseUsage t [] :=
    beginsWith_usage.gives_values
      (List.forall_mem_cons.mpr ⟨hmark, List.forall_mem_singleton.mpr hpoint⟩)
  cases piece with
  | pointUse name => exact gives_recogniseUsage_point h.1 h.2
  | keyUse quote name => exact gives_recogniseUsage_mark h.ne_nil h.chars
  | blockComment body => exact hfree (t := [' ']) (by decide) (by decide)
  | lineComment body => exact hfree (t := [' ']) (by decide) (by decide)
  | literal quote body => exact hfree (t := [' ']) (by decide) (by decide)
  | other text => exact hfree h.2.2.2 fun hin => h.2.2.1 (List.IsInfix.trans (by decide) hin)

end CodePiece

/-- Code in pieces, each on lines of its own. -/
def codeOf (pieces : List CodePiece) : Text := Text.join ['\n'] (pieces.map CodePiece.text)

/-- The searches leave each piece on its line. -/
theorem exposeUsages_codeOf {pieces : List CodePiece} (h : ∀ piece ∈ pieces, piece.WellFormed) :
    exposeUsages (codeOf pieces) = Text.join ['\n'] (pieces.map CodePiece.exposed) := by
  rw [exposeUsages, codeOf,
    replaceOccurrences_join beginsWith_blockComment fun piece hp => (h piece hp).gives_afterBlocks,
    replaceOccurrences_join beginsWith_lineComment fun piece hp => (h piece hp).gives_afterLines,
    replaceOccurrences_join beginsWith_key fun piece hp => (h piece hp).gives_afterKeys,
    replaceOccurrences_join beginsWith_string fun piece hp => (h piece hp).gives_exposed]

/-- The classes used by code in pieces are the names of its uses in the order of first use. What
comments and string literals say does not count, and a name may look like a mark. -/
theorem extractClasses_codeOf {pieces : List CodePiece} (h : ∀ piece ∈ pieces, piece.WellFormed) :
    extractClasses (codeOf pieces) = (pieces.filterMap CodePiece.name?).eraseDups := by
  rw [extractClasses, exposeUsages_codeOf h,
    occurrences_join beginsWith_usage fun piece hp => (h piece hp).gives_name?,
    List.filterMap_eq_flatMap_toList]

/-- Uses between comments and string literals that mention other uses. -/
def guardedUses : List CodePiece :=
  [.pointUse "one".toList, .blockComment " styles.no *".toList, .keyUse '"' "__SB_x__".toList,
    .lineComment " styles.no \"".toList, .literal '\'' "styles.no styles[\"no\"]".toList,
    .pointUse "_styles".toList, .literal '"' "x styles[".toList, .keyUse '\'' "two-x_".toList,
    .other "f(1);\n\nmystyle.no".toList, .pointUse "one".toList]

/-- Uses by point and by key are found in order, and what comments and literals mention is not. -/
theorem extractClasses_guardedUses :
    (∀ piece ∈ guardedUses, piece.WellFormed) ∧ extractClasses (codeOf guardedUses) =
      ["one".toList, "__SB_x__".toList, "_styles".toList, "two-x_".toList] := by
  have h : ∀ piece ∈ guardedUses, piece.WellFormed := by decide +kernel
  exact ⟨h, (extractClasses_codeOf h).trans (by decide +kernel)⟩

end StyleModules
