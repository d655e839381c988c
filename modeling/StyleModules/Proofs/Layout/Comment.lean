import StyleModules.Layout.Lines
import StyleModules.Proofs.Sheet.Closed

/-!
# Comments in a layout

A comment of a sheet is closed, or open because it runs to the end of the sheet. A closed comment is
written as it is, an open one is closed, and in either case the text of the comment stays the same.
So a comment counts as a header before it is written exactly when it does afterwards
(`isHeader_closeComment`); only the marker of a freshly made sheet can come to light by closing.

The label of a category has the trimmed name of the category as its text. It is closed if the name
holds no end of a comment, and it is left out of later layouts if the name is in capitals, or if the
name is trimmed and still in the specification.
-/

namespace StyleModules

/-- A word occurs in a text if it is a part of it. -/
theorem Text.occursIn_iff (word t : Text) : Text.occursIn word t = true ↔ word <:+: t := by
  induction t with
  | nil => simp [Text.occursIn]
  | cons c t ih =>
    rw [Text.occursIn, Bool.or_eq_true, List.isPrefixOf_iff_prefix, ih, List.infix_cons_iff]

/-- The comment has an opening delimiter and no end. -/
def isOpenComment : Text → Bool
  | '/' :: '*' :: body => !Text.occursIn ['*', '/'] body
  | _ => false

/-- A body without an end of a comment makes a closed comment. -/
theorem isClosedComment_of_body {body : Text}
    (h : Text.occursIn ['*', '/'] (body ++ ['*']) = false) :
    isClosedComment ('/' :: '*' :: (body ++ ['*', '/'])) = true := by
  have hdrop : (body ++ ['*', '/']).dropLast = body ++ ['*'] := by
    rw [List.dropLast_append_of_ne_nil (by simp)]
    rfl
  rw [isClosedComment, hdrop, h, List.isSuffixOf_iff_suffix.mpr (List.suffix_append _ _)]
  rfl

/-- An open comment is its start and a body without an end of a comment. -/
theorem exists_of_isOpenComment {comment : Text} (h : isOpenComment comment = true) :
    ∃ body, comment = '/' :: '*' :: body ∧ Text.occursIn ['*', '/'] body = false := by
  unfold isOpenComment at h
  split at h
  · exact ⟨_, rfl, by simpa using h⟩
  · simp at h

section Scan

/-- The text up to the first end of a comment ends there, or has no end. -/
theorem Token.cutComment_cases (t : Text) :
    (∃ body, (Token.cutComment t).1 = body ++ ['*', '/'] ∧
        Text.occursIn ['*', '/'] (body ++ ['*']) = false) ∨
      Text.occursIn ['*', '/'] (Token.cutComment t).1 = false := by
  fun_induction Token.cutComment t with
  | case1 => exact Or.inr rfl
  | case2 rest => exact Or.inl ⟨[], rfl, rfl⟩
  | case3 c rest hne cut ih =>
    -- An end at the very start would have been cut off.
    have hstart : ∀ tail : Text, (∃ more, rest = tail ++ more) →
        ['*', '/'].isPrefixOf (c :: tail) = false := by
      rintro tail ⟨more, hrest⟩
      cases tail with
      | nil => simp [List.isPrefixOf]
      | cons d tail =>
        rw [Bool.eq_false_iff, ne_eq, List.isPrefixOf_iff_prefix, List.cons_prefix_cons,
          List.cons_prefix_cons]
        rintro ⟨rfl, rfl, _⟩
        exact hne (tail ++ more) rfl hrest
    have hrest := (Token.cutComment_append rest).symm
    rcases ih with ⟨body, hbody, hfirst⟩ | hopen
    · refine Or.inl ⟨c :: body, by rw [hbody]; rfl, ?_⟩
      rw [hbody] at hrest
      rw [List.cons_append, Text.occursIn, hfirst, hstart (body ++ ['*']) ⟨_, by
        rw [hrest]; simp only [List.append_assoc, List.cons_append, List.nil_append]; rfl⟩]
      rfl
    · refine Or.inr ?_
      rw [Text.occursIn, hopen, hstart _ ⟨_, hrest⟩]
      rfl

/-- A token that is a comment was cut behind its start. -/
theorem Token.exists_of_cut_eq_comment {c : Char} {rest text : Text}
    (h : (Token.cut c rest).1 = .comment text) :
    ∃ body, text = '/' :: '*' :: (Token.cutComment body).1 := by
  have hstatement : ∀ s, (Token.cutStatement s).1 ≠ .comment text := by
    intro s
    unfold Token.cutStatement
    split <;> simp
  unfold Token.cut at h
  split at h
  · simp at h
  · split at h
    · exact ⟨_, (Token.comment.inj h).symm⟩
    · simp at h
    · exact absurd h (hstatement _)

/-- Every comment of a sheet is closed or open. -/
theorem isClosedComment_or_isOpenComment {t text : Text} (h : .comment text ∈ scan t) :
    isClosedComment text = true ∨ isOpenComment text = true := by
  fun_induction scan t with
  | case1 => simp at h
  | case2 c rest ih =>
    rcases List.mem_cons.mp h with h | h
    · obtain ⟨body, rfl⟩ := Token.exists_of_cut_eq_comment h.symm
      rcases Token.cutComment_cases body with ⟨inner, hinner, hfirst⟩ | hopen
      · rw [hinner]
        exact Or.inl (isClosedComment_of_body hfirst)
      · exact Or.inr (by simpa [isOpenComment] using hopen)
    · exact ih h

end Scan

section Close

/-- A closed comment is written as it is. -/
theorem closeComment_of_closed {comment : Text} (h : isClosedComment comment = true) :
    closeComment comment = comment := by
  obtain ⟨body, rfl, _⟩ := exists_of_isClosedComment h
  have hsuffix : ['*', '/'] <:+ '/' :: '*' :: (body ++ ['*', '/']) := ⟨'/' :: '*' :: body, rfl⟩
  rw [closeComment, List.isSuffixOf_iff_suffix.mpr hsuffix, if_pos]
  simp only [List.length_cons, List.length_append, List.length_nil, Bool.and_true,
    decide_eq_true_eq]
  omega

/-- A character that is not blank keeps what is trimmed behind it. -/
theorem trimEnd_cons_of_not_blank {c : Char} (h : isBlank c = false) (t : Text) :
    Text.trimEnd (c :: t) = c :: Text.trimEnd t := by
  rw [Text.trimEnd, Text.dropEndWhile]
  split
  · next he => simp [h, Text.trimEnd, he]
  · next he => rw [Text.trimEnd, he]

/-- An open comment is written without the blanks at its end, and with a delimiter. -/
theorem closeComment_of_open {body : Text} (h : Text.occursIn ['*', '/'] body = false) :
    closeComment ('/' :: '*' :: body) = '/' :: '*' :: (Text.trimEnd body ++ " */".toList) := by
  have hopen : (4 ≤ ('/' :: '*' :: body).length &&
      ['*', '/'].isSuffixOf ('/' :: '*' :: body)) = false := by
    rw [Bool.eq_false_iff, ne_eq, Bool.and_eq_true, decide_eq_true_eq,
      List.isSuffixOf_iff_suffix]
    rintro ⟨hlen, hsuffix⟩
    have hbody : ['*', '/'] <:+ body := by
      refine List.suffix_of_suffix_length_le hsuffix
        ((List.suffix_cons '*' body).trans (List.suffix_cons '/' _)) ?_
      simp only [List.length_cons, List.length_nil] at hlen ⊢
      omega
    rw [← Bool.not_eq_true, Text.occursIn_iff] at h
    exact h hbody.isInfix
  rw [closeComment, hopen, if_neg (by simp), trimEnd_cons_of_not_blank (by decide),
    trimEnd_cons_of_not_blank (by decide)]
  rfl

/-- A blank and an asterisk behind a text end no comment. -/
theorem occursIn_end_append_gap (t : Text) :
    Text.occursIn ['*', '/'] (t ++ [' ', '*']) = Text.occursIn ['*', '/'] t := by
  induction t with
  | nil => rfl
  | cons c t ih =>
    rw [List.cons_append, Text.occursIn, Text.occursIn, ih]
    cases t with
    | nil => simp [List.isPrefixOf]
    | cons d t => rfl

/-- A comment without an end is closed by a space and a delimiter. -/
theorem isClosedComment_append_end {body : Text} (h : Text.occursIn ['*', '/'] body = false) :
    isClosedComment ('/' :: '*' :: (body ++ " */".toList)) = true := by
  have hgap : Text.occursIn ['*', '/'] (body ++ [' '] ++ ['*']) = false := by
    rw [List.append_assoc]
    exact (occursIn_end_append_gap body).trans h
  have hclosed := isClosedComment_of_body hgap
  rwa [List.append_assoc] at hclosed

/-- A word that does not occur in a text does not occur in its start. -/
theorem occursIn_of_isPrefix {word s t : Text} (h : s <+: t)
    (ht : Text.occursIn word t = false) : Text.occursIn word s = false := by
  rw [← Bool.not_eq_true, Text.occursIn_iff] at ht ⊢
  exact fun hs => ht (hs.trans h.isInfix)

/-- Trimming at the end leaves a start of the text. -/
theorem trimEnd_isPrefix (t : Text) : Text.trimEnd t <+: t := by
  rw [Text.trimEnd, Text.dropEndWhile_eq_rdropWhile]
  exact List.rdropWhile_prefix ..

/-- Every comment of a sheet is written as a closed comment. -/
theorem isClosedComment_closeComment {comment : Text}
    (h : isClosedComment comment = true ∨ isOpenComment comment = true) :
    isClosedComment (closeComment comment) = true := by
  rcases h with h | h
  · rwa [closeComment_of_closed h]
  · obtain ⟨body, rfl, hbody⟩ := exists_of_isOpenComment h
    rw [closeComment_of_open hbody]
    exact isClosedComment_append_end (occursIn_of_isPrefix (trimEnd_isPrefix body) hbody)

end Close

section CommentText

/-- The text of a comment that is closed by a space and a delimiter. -/
theorem commentText_append_end (body : Text) :
    commentText ('/' :: '*' :: (body ++ " */".toList)) =
      Text.trim (body.dropWhile (· == '*')) := by
  have hopening : dropOpeningDelimiter ('/' :: '*' :: (body ++ " */".toList)) =
      body.dropWhile (· == '*') ++ " */".toList := by
    rw [dropOpeningDelimiter, List.dropWhile_append]
    split
    · next he => rw [List.isEmpty_iff.mp he]; rfl
    · rfl
  generalize body.dropWhile (· == '*') = inner at hopening ⊢
  have hnewline : dropFinalNewline (inner ++ " */".toList) = inner ++ " */".toList := by
    rw [dropFinalNewline, List.getLast?_append]
    rfl
  have hclosing : dropClosingDelimiter (inner ++ " */".toList) = inner ++ [' '] := by
    have hsuffix : ['*', '/'] <:+ inner ++ " */".toList := ⟨inner ++ [' '], by simp⟩
    have hdrop : (inner ++ " */".toList).dropLast = inner ++ [' '] ++ ['*'] := by
      rw [List.dropLast_append_of_ne_nil (by simp), List.append_assoc]
      rfl
    rw [dropClosingDelimiter, if_pos (List.isSuffixOf_iff_suffix.mpr hsuffix), hdrop,
      Text.dropEndWhile_concat, if_pos (by decide), Text.dropEndWhile_concat,
      if_neg (by decide)]
  rw [commentText, hopening, hnewline, hclosing]
  exact Text.trim_append_blank (by decide) _

/-- Asterisks at the start and blanks at the end are dropped in any order. -/
theorem dropWhile_trimEnd (t : Text) :
    (Text.trimEnd t).dropWhile (· == '*') = Text.trimEnd (t.dropWhile (· == '*')) := by
  induction t with
  | nil => rfl
  | cons c t ih =>
    by_cases hc : c = '*'
    · subst hc
      rw [trimEnd_cons_of_not_blank (by decide), List.dropWhile_cons_of_pos (by decide),
        List.dropWhile_cons_of_pos (by decide), ih]
    · rw [List.dropWhile_cons_of_neg (by simpa using hc)]
      generalize hs : Text.trimEnd (c :: t) = s
      cases s with
      | nil => rfl
      | cons d s =>
        obtain ⟨rest, hrest⟩ := hs ▸ trimEnd_isPrefix (c :: t)
        have hd : d = c := (List.cons.inj hrest).1
        rw [List.dropWhile_cons_of_neg (by simpa [hd] using hc)]

/-- Trimming at the end first changes nothing. -/
theorem trim_trimEnd (t : Text) : Text.trim (Text.trimEnd t) = Text.trim t := by
  obtain ⟨blanks, ht, hblanks⟩ := Text.dropEndWhile_append isBlank t
  conv_rhs => rw [ht, Text.trim_append_blank hblanks]
  rfl

/-- Dropping a final line feed leaves a start of the text. -/
theorem dropFinalNewline_isPrefix (t : Text) : dropFinalNewline t <+: t := by
  rw [dropFinalNewline]
  split
  · exact List.dropLast_prefix t
  · exact List.prefix_refl t

/-- A final line feed is trimmed as well. -/
theorem trim_dropFinalNewline (t : Text) : Text.trim (dropFinalNewline t) = Text.trim t := by
  rw [dropFinalNewline]
  split
  · next h =>
    rw [beq_iff_eq, List.getLast?_eq_some_iff] at h
    obtain ⟨s, rfl⟩ := h
    rw [List.dropLast_concat, Text.trim_append_blank (by decide)]
  · rfl

/-- The text of a comment that is open. -/
theorem commentText_of_open {body : Text} (h : Text.occursIn ['*', '/'] body = false) :
    commentText ('/' :: '*' :: body) = Text.trim (body.dropWhile (· == '*')) := by
  have hinner : ¬ ['*', '/'] <:+ dropFinalNewline (body.dropWhile (· == '*')) := by
    intro hsuffix
    rw [← Bool.not_eq_true, Text.occursIn_iff] at h
    exact h ((hsuffix.isInfix.trans (dropFinalNewline_isPrefix _).isInfix).trans
      (List.dropWhile_suffix _).isInfix)
  rw [commentText, dropOpeningDelimiter, dropClosingDelimiter,
    if_neg (mt List.isSuffixOf_iff_suffix.mp hinner), trim_dropFinalNewline]

/-- Closing a comment keeps its text. -/
theorem commentText_closeComment {comment : Text}
    (h : isClosedComment comment = true ∨ isOpenComment comment = true) :
    commentText (closeComment comment) = commentText comment := by
  rcases h with h | h
  · rw [closeComment_of_closed h]
  · obtain ⟨body, rfl, hbody⟩ := exists_of_isOpenComment h
    rw [closeComment_of_open hbody, commentText_append_end, commentText_of_open hbody,
      dropWhile_trimEnd, trim_trimEnd]

/-- A comment is a header exactly when it is one as it is written. -/
theorem isHeader_closeComment (names : List Text) {comment : Text}
    (h : isClosedComment comment = true ∨ isOpenComment comment = true) :
    isHeader names (closeComment comment) = isHeader names comment := by
  rw [isHeader, isHeader, commentText_closeComment h]

end CommentText

section Marker

/-- The marker of a freshly made sheet as far as it goes before its closing delimiter. -/
def openMarker : Text := "/* Auto-generated".toList

/-- The marker without its end is closed to the marker. -/
theorem closeComment_of_openMarker {comment : Text} (h : Text.trimEnd comment = openMarker) :
    closeComment comment = generatedMarker := by
  have hopen : ¬ ['*', '/'] <:+ comment := by
    rintro ⟨body, rfl⟩
    rw [Text.trimEnd, ← List.singleton_append, ← List.append_assoc, Text.dropEndWhile_concat,
      if_neg (by decide)] at h
    have hlast := congrArg List.getLast? h
    rw [List.getLast?_concat] at hlast
    exact absurd hlast (by decide)
  rw [closeComment, if_neg (by simp [List.isSuffixOf_iff_suffix, hopen]), h]
  rfl

/-- A comment is written as the marker only if it is the marker, with or without its end. -/
theorem eq_or_eq_of_closeComment_eq_marker {comment : Text}
    (h : closeComment comment = generatedMarker) :
    comment = generatedMarker ∨ Text.trimEnd comment = openMarker := by
  rw [closeComment] at h
  split at h
  · exact Or.inl h
  · exact Or.inr (List.append_cancel_right h)

/-- A closed comment has nothing to trim. -/
theorem trim_of_closed {comment : Text} (h : isClosedComment comment = true) :
    Text.trim comment = comment := by
  obtain ⟨body, rfl, _⟩ := exists_of_isClosedComment h
  have hlast : ('/' :: '*' :: (body ++ ['*', '/'])).getLast? = some '/' := by
    rw [show '/' :: '*' :: (body ++ ['*', '/']) = '/' :: '*' :: body ++ ['*'] ++ ['/'] by simp,
      List.getLast?_concat]
  refine (Text.trim_eq_self_iff _).mpr ⟨fun c hc => ?_, fun c hc => ?_⟩
  · rw [← Option.some.inj hc]
    decide
  · rw [hlast] at hc
    rw [← Option.some.inj hc]
    decide

/-- The generated marker is always suppressed. -/
theorem isSuppressed_generatedMarker (names : List Text) :
    isSuppressed names generatedMarker = true := by
  have htrim : Text.trim generatedMarker = generatedMarker := by decide +kernel
  rw [isSuppressed, htrim, beq_self_eq_true, Bool.true_or]

/-- A comment that is kept is kept as it is written, unless it is the marker without its end. -/
theorem isSuppressed_closeComment {names : List Text} {comment : Text}
    (h : isClosedComment comment = true ∨ isOpenComment comment = true)
    (hkept : isSuppressed names comment = false) (hmarker : Text.trimEnd comment ≠ openMarker) :
    isSuppressed names (closeComment comment) = false := by
  have hheader : isHeader names comment = false := (Bool.or_eq_false_iff.mp hkept).2
  have hne : closeComment comment ≠ generatedMarker := by
    intro he
    rcases eq_or_eq_of_closeComment_eq_marker he with rfl | he
    · rw [isSuppressed_generatedMarker] at hkept
      cases hkept
    · exact hmarker he
  rw [isSuppressed, trim_of_closed (isClosedComment_closeComment h), isHeader_closeComment names h,
    hheader, Bool.or_false]
  simpa using hne

/-- The marker without its end is kept, unless a category is named like it. -/
theorem isSuppressed_of_openMarker {names : List Text} {comment : Text}
    (h : isClosedComment comment = true ∨ isOpenComment comment = true)
    (hmarker : Text.trimEnd comment = openMarker)
    (hnames : isHeader names generatedMarker = false) : isSuppressed names comment = false := by
  have htrim : Text.trim comment = openMarker := by
    rw [← trim_trimEnd, hmarker]
    decide +kernel
  have hheader : isHeader names comment = false := by
    rw [← isHeader_closeComment names h, closeComment_of_openMarker hmarker, hnames]
  rw [isSuppressed, htrim, hheader]
  decide +kernel

end Marker

section Label

/-- The text of a label is the name of its category, trimmed. -/
theorem commentText_headerComment (name : Text) :
    commentText (headerComment name) = Text.trim name := by
  have hspace : [' '].all isBlank = true := by decide
  have hcomment := commentText_append_end (' ' :: name)
  rw [List.dropWhile_cons_of_neg (by decide)] at hcomment
  exact hcomment.trans (Text.trim_blank_append hspace name)

/-- A label is closed if the name of its category holds no end of a comment. -/
theorem isClosedComment_headerComment {name : Text}
    (h : Text.occursIn ['*', '/'] name = false) : isClosedComment (headerComment name) = true := by
  have hbody : Text.occursIn ['*', '/'] (' ' :: name) = false := by
    rw [Text.occursIn, h]
    rfl
  exact isClosedComment_append_end hbody

/-- A text that is not blank is not trimmed to nothing. -/
theorem trim_ne_nil_of_not_blank {t : Text} (h : Text.isBlankText t = false) :
    Text.trim t ≠ [] := by
  intro ht
  obtain ⟨before, after, he, hbefore, hafter⟩ := Text.exists_trim t
  rw [ht, List.append_nil] at he
  rw [he, Text.isBlankText, List.all_append, hbefore, hafter] at h
  cases h

/-- A label in capitals is left out of every layout. -/
theorem isSuppressed_headerComment_of_caps (names : List Text) {name : Text}
    (hcaps : isAllCaps name = true) (hblank : Text.isBlankText name = false) :
    isSuppressed names (headerComment name) = true := by
  have hne : (Text.trim name).isEmpty = false := by
    simpa using trim_ne_nil_of_not_blank hblank
  have htrim : isAllCaps (Text.trim name) = true := by
    obtain ⟨before, after, he, _, _⟩ := Text.exists_trim name
    rw [he, isAllCaps, List.all_append, List.all_append, Bool.and_eq_true,
      Bool.and_eq_true] at hcaps
    exact hcaps.1.2
  simp only [isSuppressed, isHeader, commentText_headerComment, hne, htrim, Bool.not_false,
    Bool.or_true, Bool.and_self]

/-- A label is a header while its category has a trimmed name. -/
theorem isHeader_headerComment {names : List Text} {name : Text} (hmem : name ∈ names)
    (hne : name ≠ []) (htrim : Text.trim name = name) :
    isHeader names (headerComment name) = true := by
  have hempty : name.isEmpty = false := by simpa using hne
  have hupper : (headerNames names).contains (Text.upper name) = true := by
    rw [List.contains_iff_mem]
    refine List.mem_cons_of_mem _ (List.mem_map_of_mem (List.mem_filter.mpr ⟨hmem, ?_⟩))
    rw [hempty]
    rfl
  simp only [isHeader, commentText_headerComment, htrim, hempty, hupper, Bool.not_false,
    Bool.true_or, Bool.and_self]

/-- Such a label is left out of later layouts. -/
theorem isSuppressed_headerComment {names : List Text} {name : Text} (hmem : name ∈ names)
    (hne : name ≠ []) (htrim : Text.trim name = name) :
    isSuppressed names (headerComment name) = true := by
  rw [isSuppressed, isHeader_headerComment hmem hne htrim, Bool.or_true]

/-- A text in capitals holds no end of a comment. -/
theorem occursIn_end_of_caps {t : Text} (h : isAllCaps t = true) :
    Text.occursIn ['*', '/'] t = false := by
  rw [← Bool.not_eq_true, Text.occursIn_iff]
  intro hinfix
  have hstar : '*' ∈ t := hinfix.subset List.mem_cons_self
  exact absurd (List.all_eq_true.mp h '*' hstar) (by decide)

end Label

end StyleModules
