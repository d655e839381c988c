import StyleModules.Proofs.Component.CommentBlanking

/-!
# When the body of a string literal counts

Comments are blanked before string literals, and keys are marked before them. So the body of a
string literal is not always without influence on the classes used. It has none, whatever code
stands around the literal, exactly if it opens no comment that it does not close and does not end
like the start of a key (`extractClasses_withLiteral_iff`).
-/

namespace StyleModules

/-- The text has no quote and no backslash. -/
def IsUnquoted (t : Text) : Prop := ∀ c ∈ t, isQuote c = false ∧ c ≠ '\\'

/-- What may stand between quotes on a line. -/
def IsLiteralBody (body : Text) : Prop := IsUnquoted body ∧ '\n' ∉ body

/-- What stands in front of a string literal: no quote and no slash, nor a key that is begun. -/
structure IsPlainFront (front : Text) : Prop where
  /-- There is no quote. -/
  no_quote : ∀ c ∈ front, isQuote c = false
  /-- There is no slash. -/
  no_slash : '/' ∉ front
  /-- The literal is no key. -/
  no_key : ¬ "styles[".toList <:+ front

/-- Code with a string literal in it. -/
def withLiteral (front body back : Text) : Text := front ++ '"' :: (body ++ '"' :: back)

/-- The body opens no comment that it does not close, and does not end like the start of a key. -/
structure IsInert (body : Text) : Prop where
  /-- Every block comment is closed. -/
  no_block : ¬ ['/', '*'] <:+: withoutBlocks body
  /-- There is no line comment. -/
  no_line : ¬ ['/', '/'] <:+: withoutBlocks body
  /-- No key begins at the end. -/
  no_key : ∀ before, withoutBlocks body = before ++ "styles[".toList →
    startsWord before.getLast? = false

namespace IsUnquoted

variable {s t : Text}

/-- A text with fewer characters is unquoted as well. -/
theorem mono (h : IsUnquoted t) (hsub : s ⊆ t) : IsUnquoted s := fun c hc => h c (hsub hc)

/-- Unquoted texts in a row are unquoted. -/
theorem append (hs : IsUnquoted s) (ht : IsUnquoted t) : IsUnquoted (s ++ t) := by
  intro c hc
  rcases List.mem_append.mp hc with hc | hc
  · exact hs c hc
  · exact ht c hc

/-- A character that is no quote and no backslash is unquoted. -/
theorem singleton {c : Char} (h : isQuote c = false ∧ c ≠ '\\') : IsUnquoted [c] :=
  fun _ hd => List.mem_singleton.mp hd ▸ h

/-- Blanking adds no quote and no backslash. -/
theorem readFrom {recognise : Recogniser Text} (h : IsUnquoted t) (hblank : Blanks recognise)
    (previous : Option Char) : IsUnquoted (readFrom Segment.fill recognise previous t) := by
  intro c hc
  rcases hblank.mem_of_mem hc with hc | rfl
  · exact h c hc
  · decide

/-- Comments are taken out of an unquoted text without adding a quote. -/
theorem withoutBlocks (h : IsUnquoted t) : IsUnquoted (withoutBlocks t) :=
  h.readFrom blanks_blockComment none

end IsUnquoted

section Literal

variable {front body back : Text}

/-- Where nothing is recognised up to the end of the literal, only what stands behind it is
replaced. -/
theorem replaceOccurrences_withLiteral {recognise : Recogniser Text}
    (h : Unrecognised recognise none (front ++ '"' :: (body ++ ['"'])) back) :
    replaceOccurrences recognise (withLiteral front body back) =
      withLiteral front body (readFrom Segment.fill recognise (some '"') back) := by
  have hsplit (u : Text) : withLiteral front body u = front ++ '"' :: (body ++ ['"']) ++ u := by
    simp [withLiteral]
  have hlast : lastOf none (front ++ '"' :: (body ++ ['"'])) = some '"' := by
    rw [lastOf_append, lastOf_cons, lastOf_concat]
  rw [replaceOccurrences_eq, hsplit, h.readFrom_fill, hlast, hsplit]

/-- Behind a text without quotes, a literal is a key only if the text ends like the start of one. -/
theorem unrecognised_recogniseKey {previous : Option Char} (hquote : ∀ c ∈ body, isQuote c = false)
    (hkey : ∀ before, body = before ++ "styles[".toList →
      startsWord (lastOf previous before) = false) (back : Text) :
    Unrecognised recogniseKey previous body ('"' :: back) := by
  intro before rest hsplit _
  by_contra hfound
  obtain ⟨hbare, hstart⟩ := bare_of_recogniseKey hfound
  have hrest : (rest ++ '"' :: back).takeWhile (!isQuote ·) = rest :=
    takeWhile_append_of_stop
      (fun c hc => by simp [hquote c (hsplit ▸ List.mem_append_right before hc)]) (by simp; decide)
  rw [hrest] at hbare
  rw [hkey before (by rw [hsplit, hbare])] at hstart
  cases hstart

/-- Behind a quote a word may start just as at the start of a text. -/
theorem startsWord_lastOf_quote (before : Text) :
    startsWord (lastOf (some '"') before) = startsWord before.getLast? := by
  rw [lastOf]
  cases before.getLast? with
  | none => decide
  | some c => rfl

/-- No string starts where there is no quote. -/
theorem unrecognised_recogniseString {t : Text} (h : ∀ c ∈ t, isQuote c = false)
    (previous : Option Char) (back : Text) : Unrecognised recogniseString previous t back := by
  intro before rest hsplit hne
  obtain ⟨c, rest, rfl⟩ := List.exists_cons_of_ne_nil hne
  rw [List.cons_append, recogniseString, h c (hsplit ▸ by simp)]
  rfl

/-- The searches for keys and for string literals blank a literal that is no key, whatever its
body. -/
theorem blank_withLiteral (hfront : IsPlainFront front) (hbody : IsUnquoted body)
    (hkey : ∀ before, body = before ++ "styles[".toList → startsWord before.getLast? = false)
    (back : Text) :
    replaceOccurrences recogniseString (replaceOccurrences recogniseKey
        (withLiteral front body back)) =
      front ++ ' ' :: readFrom Segment.fill recogniseString (some '"')
        (readFrom Segment.fill recogniseKey (some '"') back) := by
  have hquote := beginsWith_key.cons_eq_none (c := '"') (by decide)
  have hkeys : Unrecognised recogniseKey none (front ++ '"' :: (body ++ ['"'])) back := by
    rw [unrecognised_append_iff, unrecognised_cons_iff, unrecognised_append_iff,
      unrecognised_cons_iff]
    refine ⟨?_, hquote _ _, ?_, hquote _ _, unrecognised_nil _ _⟩
    · exact unrecognised_recogniseKey hfront.no_quote
        (fun before hsplit => absurd ⟨before, hsplit.symm⟩ hfront.no_key) _
    · refine unrecognised_recogniseKey (fun c hc => (hbody c hc).1) (fun before hsplit => ?_) _
      rw [startsWord_lastOf_quote]
      exact hkey before hsplit
  have hquoteBody : '"' ∉ body := fun hmem => absurd (hbody _ hmem).1 (by decide)
  have hescape : '\\' ∉ body := fun hmem => (hbody _ hmem).2 rfl
  rw [replaceOccurrences_withLiteral hkeys]
  generalize readFrom Segment.fill recogniseKey (some '"') back = rest
  have hfound := recogniseString_literal rfl hquoteBody hescape (lastOf none front) rest
  have hsplit : '"' :: (body ++ '"' :: rest) = '"' :: (body ++ ['"']) ++ rest := by simp
  rw [hsplit, show body.length + 2 = ('"' :: (body ++ ['"'])).length by simp] at hfound
  rw [replaceOccurrences_eq, withLiteral,
    (unrecognised_recogniseString hfront.no_quote _ _).readFrom_fill, hsplit,
    readFrom_of_recognised (List.cons_ne_nil _ _) hfound, lastOf_cons, lastOf_concat]
  rfl

end Literal

section Inert

variable {front body back : Text}

/-- Uses are exposed by four passes in a row. -/
theorem exposeUsages_eq (code : Text) :
    exposeUsages code = replaceOccurrences recogniseString (replaceOccurrences recogniseKey
      (replaceOccurrences recogniseLineComment (withoutBlocks code))) := rfl

/-- What the searches leave of the code behind a string literal. -/
def exposeBehind (back : Text) : Text :=
  readFrom Segment.fill recogniseString (some '"')
    (readFrom Segment.fill recogniseKey (some '"')
      (readFrom Segment.fill recogniseLineComment (some '"') (withoutBlocks back)))

/-- The search for block comments treats the body of a literal apart from the code around it, if
the body closes its comments. -/
theorem withoutBlocks_withLiteral (hfront : '/' ∉ front)
    (h : ¬ ['/', '*'] <:+: withoutBlocks body) (back : Text) :
    withoutBlocks (withLiteral front body back) =
      withLiteral front (withoutBlocks body) (withoutBlocks back) := by
  have hquote (rest : Text) : withoutBlocks ('"' :: rest) = '"' :: withoutBlocks rest :=
    withoutBlocks_plain (by simp)
  rw [withLiteral, withoutBlocks_append_of_no_slash hfront, hquote,
    withoutBlocks_append h (by simp), hquote, withLiteral]

/-- The search for line comments does not touch a literal whose body has none. -/
theorem lineComment_withLiteral (hfront : '/' ∉ front) (h : ¬ ['/', '/'] <:+: body)
    (back : Text) :
    replaceOccurrences recogniseLineComment (withLiteral front body back) =
      withLiteral front body (readFrom Segment.fill recogniseLineComment (some '"') back) := by
  have hquote := beginsWith_lineComment.cons_eq_none (c := '"') (by decide)
  have hfree {t : Text} (ht : ¬ ['/', '/'] <:+: t) (previous : Option Char) (rest : Text) :
      Unrecognised recogniseLineComment previous t ('"' :: rest) :=
    beginsWith_lineComment.unrecognised (List.forall_mem_singleton.mpr ht) (by simp) previous
  refine replaceOccurrences_withLiteral ?_
  rw [unrecognised_append_iff, unrecognised_cons_iff, unrecognised_append_iff,
    unrecognised_cons_iff]
  exact ⟨hfree (fun hin => hfront (hin.subset List.mem_cons_self)) _ _, hquote _ _, hfree h _ _,
    hquote _ _, unrecognised_nil _ _⟩

/-- Around a literal with an inert body, the searches leave what they leave around any other. -/
theorem exposeUsages_withLiteral (hfront : IsPlainFront front) (hbody : IsLiteralBody body)
    (h : IsInert body) (back : Text) :
    exposeUsages (withLiteral front body back) = front ++ ' ' :: exposeBehind back := by
  rw [exposeUsages_eq, withoutBlocks_withLiteral hfront.no_slash h.no_block,
    lineComment_withLiteral hfront.no_slash h.no_line,
    blank_withLiteral hfront hbody.1.withoutBlocks h.no_key]
  rfl

end Inert

section Probes

variable {body : Text}

/-- Code that is used behind a literal unless the literal hides it. -/
def hiddenUse : Text := " styles.a */\n\"".toList

/-- The rest of a key that is begun in a literal. -/
def keyRest : Text := "a\"]".toList

/-- Nothing in front is plain. -/
theorem isPlainFront_nil : IsPlainFront [] where
  no_quote := by simp
  no_slash := by simp
  no_key := by decide

/-- Nothing between the quotes is inert. -/
theorem isInert_nil : IsInert [] where
  no_block := by decide
  no_line := by decide
  no_key before hsplit := by
    have hlength := congrArg List.length (show [] = before ++ "styles[".toList from hsplit)
    simp at hlength

/-- Nothing may stand between quotes. -/
theorem isLiteralBody_nil : IsLiteralBody [] := ⟨by simp [IsUnquoted], by simp⟩

/-- Nothing is used where a literal that is closed in the next line takes up all the code. -/
theorem extractClasses_of_closing {code t : Text}
    (hcode : withoutBlocks code = '"' :: (t ++ ['\n', '"']))
    (ht : IsUnquoted (readFrom Segment.fill recogniseLineComment (some '"') t)) :
    extractClasses code = [] := by
  have hquote := beginsWith_lineComment.cons_eq_none (c := '"') (by decide)
  have hlines : replaceOccurrences recogniseLineComment (withoutBlocks code) =
      withLiteral [] (readFrom Segment.fill recogniseLineComment (some '"') t ++ ['\n']) [] := by
    rw [hcode, replaceOccurrences_eq, readFrom_cons (hquote _ _),
      (isLocal_recogniseLineComment (Or.inr ⟨_, rfl⟩)).readFrom_append]
    simp [withLiteral, Segment.fill]
    rfl
  have hbody := ht.append (.singleton (c := '\n') (by decide))
  have hkey (before : Text)
      (hsplit : readFrom Segment.fill recogniseLineComment (some '"') t ++ ['\n'] =
        before ++ "styles[".toList) : startsWord before.getLast? = false := by
    have hlast := congrArg List.getLast? hsplit
    simp at hlast
  rw [extractClasses, exposeUsages_eq, hlines, blank_withLiteral isPlainFront_nil hbody hkey]
  decide +kernel

/-- Behind a literal that opens a block comment, what is used up to the end of the comment is
hidden. -/
theorem extractClasses_of_open (hbody : IsLiteralBody body)
    (h : ['/', '*'] <:+: withoutBlocks body) :
    extractClasses (withLiteral [] body hiddenUse) = [] := by
  have hafter : afterCommentEnd? ('"' :: hiddenUse) = some ['\n', '"'] := by decide +kernel
  obtain ⟨front, hfront, hopen⟩ := exists_of_open h (by simp) hafter
  have hcode : withoutBlocks (withLiteral [] body hiddenUse) =
      '"' :: (withoutBlocks front ++ [' '] ++ ['\n', '"']) := by
    have hrest : withoutBlocks ['\n', '"'] = ['\n', '"'] := by decide
    rw [withLiteral, List.nil_append, withoutBlocks_plain (by simp), hopen, hrest]
    simp
  have hkept : IsUnquoted (withoutBlocks front ++ [' ']) :=
    (hbody.1.mono hfront.subset).withoutBlocks.append (.singleton (by decide))
  exact extractClasses_of_closing hcode (hkept.readFrom blanks_lineComment _)

/-- Behind a literal with a line comment, what is used in the same line is hidden. -/
theorem extractClasses_of_line (hbody : IsLiteralBody body)
    (hblock : ¬ ['/', '*'] <:+: withoutBlocks body) (h : ['/', '/'] <:+: withoutBlocks body) :
    extractClasses (withLiteral [] body hiddenUse) = [] := by
  have hcode : withoutBlocks (withLiteral [] body hiddenUse) =
      '"' :: (withoutBlocks body ++ "\" styles.a */".toList ++ ['\n', '"']) := by
    have hrest : withoutBlocks hiddenUse = " styles.a */".toList ++ ['\n', '"'] := by decide +kernel
    rw [withoutBlocks_withLiteral (by simp) hblock, hrest]
    simp [withLiteral]
  have hline : '\n' ∉ withoutBlocks body ++ "\" styles.a */".toList := by
    intro hmem
    rcases List.mem_append.mp hmem with hmem | hmem
    · rcases blanks_blockComment.mem_of_mem hmem with hmem | hmem
      · exact hbody.2 hmem
      · cases hmem
    · exact absurd hmem (by decide)
  obtain ⟨front, hfront, hread⟩ := exists_of_lineComment h hline (some '"')
  refine extractClasses_of_closing hcode ?_
  rw [hread]
  exact (hbody.1.withoutBlocks.mono hfront.subset).append (.singleton (by decide))

/-- A key that begins in a literal is marked all the same. -/
theorem recogniseKey_in_literal {before name : Text} (hbefore : IsUnquoted before)
    (hstart : startsWord before.getLast? = true) (hkey : IsKey '"' name) :
    replaceOccurrences recogniseKey ('"' :: before ++ keyText '"' name) =
      '"' :: before ++ keyMark name := by
  have hplain : Unrecognised recogniseKey none ('"' :: before) (keyText '"' name) := by
    refine unrecognised_cons_iff.mpr
      ⟨beginsWith_key.cons_eq_none (by decide) _ _, fun first rest hsplit hne => ?_⟩
    by_contra hfound
    -- Only the word itself may stand up to the first quote, so nothing is left for the rest.
    have hbare := (bare_of_recogniseKey hfound).1
    have hword : ∀ c ∈ rest ++ "styles[".toList, (!isQuote c) = true := by
      intro c hc
      rcases List.mem_append.mp hc with hc | hc
      · simp [(hbefore c (hsplit ▸ List.mem_append_right first hc)).1]
      · exact List.all_eq_true.mp (show "styles[".toList.all (!isQuote ·) = true by decide) c hc
    have htake : (rest ++ keyText '"' name).takeWhile (!isQuote ·) = rest ++ "styles[".toList := by
      unfold keyText
      rw [← List.append_assoc]
      exact takeWhile_append_of_stop hword (by simp; decide)
    rw [htake] at hbare
    exact hne (List.append_left_eq_self.mp hbare)
  have hfound : recogniseKey (lastOf none ('"' :: before)) (keyText '"' name ++ []) =
      some ((keyText '"' name).length, keyMark name) := by
    refine recogniseKey_eq_some_iff.mpr
      ⟨?_, '"', name, hkey, List.prefix_append _ _, rfl, rfl⟩
    rw [lastOf_cons, startsWord_lastOf_quote, hstart]
  rw [replaceOccurrences_eq, hplain.readFrom_fill, ← List.append_nil (keyText '"' name),
    readFrom_of_recognised (keyText_ne_nil _ _) hfound, readFrom_nil, List.append_nil]
  rfl

/-- A mark is a use wherever it stands. -/
theorem occurrences_keyMark {name : Text} (front : Text) (hne : name ≠ [])
    (hname : ∀ c ∈ name, isNameChar c = true) :
    occurrences recogniseUsage (front ++ keyMark name) ≠ [] := by
  intro hnone
  have hplace := occurrences_eq_nil_iff.mp hnone (front ++ [' '])
    ("__SB_".toList ++ (name ++ ['_', '_']) ++ [' ']) (by unfold keyMark; simp) (by simp)
  rw [List.append_nil, recogniseUsage_mark hne hname] at hplace
  cases hplace

/-- A quote that is never closed opens no literal. -/
theorem recogniseString_open {t : Text} (h : ∀ c ∈ t, isQuote c = false) :
    replaceOccurrences recogniseString ('"' :: t) = '"' :: t := by
  have hopen : recogniseString none ('"' :: t) = none := by
    rw [recogniseString, afterString?_eq_none fun hmem => absurd (h _ hmem) (by decide),
      Option.map_none, ite_self]
  have hrest := (unrecognised_recogniseString h (some '"') []).readFrom_fill
  rw [List.append_nil, readFrom_nil, List.append_nil] at hrest
  rw [replaceOccurrences_eq, readFrom_cons hopen, hrest]
  rfl

/-- A literal that ends like the start of a key makes a key of what stands behind it. -/
theorem extractClasses_of_key {before : Text} (hbody : IsLiteralBody body)
    (hblock : ¬ ['/', '*'] <:+: withoutBlocks body) (hline : ¬ ['/', '/'] <:+: withoutBlocks body)
    (h : withoutBlocks body = before ++ "styles[".toList)
    (hstart : startsWord before.getLast? = true) :
    extractClasses (withLiteral [] body keyRest) ≠ [] := by
  have hbefore : IsUnquoted before :=
    hbody.1.withoutBlocks.mono (h ▸ List.subset_append_left before _)
  have hkey : IsKey '"' ['a'] := by decide
  have hlines : replaceOccurrences recogniseLineComment
      (withoutBlocks (withLiteral [] body keyRest)) = '"' :: before ++ keyText '"' ['a'] := by
    have hblocks : withoutBlocks keyRest = keyRest := by decide +kernel
    have hrest : readFrom Segment.fill recogniseLineComment (some '"') keyRest = keyRest := by
      decide +kernel
    rw [withoutBlocks_withLiteral (by simp) hblock, hblocks,
      lineComment_withLiteral (by simp) hline, hrest, h, withLiteral, keyRest]
    unfold keyText
    simp
  have hstrings : replaceOccurrences recogniseString ('"' :: before ++ keyMark ['a']) =
      '"' :: before ++ keyMark ['a'] := by
    refine recogniseString_open fun c hc => ?_
    rcases List.mem_append.mp hc with hc | hc
    · exact (hbefore c hc).1
    · have hmark : (keyMark ['a']).all (isQuote · == false) = true := by decide
      exact beq_iff_eq.mp (List.all_eq_true.mp hmark c hc)
  intro hnone
  rw [extractClasses, exposeUsages_eq, hlines, recogniseKey_in_literal hbefore hstart hkey,
    hstrings] at hnone
  refine occurrences_keyMark ('"' :: before) hkey.ne_nil hkey.chars ?_
  refine List.eq_nil_iff_forall_not_mem.mpr fun name hn => ?_
  have hmem := List.mem_eraseDups.mpr hn
  rw [hnone] at hmem
  cases hmem

end Probes

/-- The body of a string literal has no influence on the classes used, whatever code stands around
the literal, exactly if it is inert. -/
theorem extractClasses_withLiteral_iff {body : Text} (hbody : IsLiteralBody body) :
    (∀ front back other, IsPlainFront front → IsLiteralBody other → IsInert other →
      extractClasses (withLiteral front body back) =
        extractClasses (withLiteral front other back)) ↔ IsInert body := by
  constructor
  · intro h
    have hsame (back : Text) : extractClasses (withLiteral [] body back) =
        extractClasses (withLiteral [] [] back) :=
      h [] back [] isPlainFront_nil isLiteralBody_nil isInert_nil
    have hused : extractClasses (withLiteral [] [] hiddenUse) = ["a".toList] := by decide +kernel
    have hunused : extractClasses (withLiteral [] [] keyRest) = [] := by decide +kernel
    have hblock : ¬ ['/', '*'] <:+: withoutBlocks body := by
      intro hopen
      have hhidden := extractClasses_of_open hbody hopen
      rw [hsame, hused] at hhidden
      cases hhidden
    have hline : ¬ ['/', '/'] <:+: withoutBlocks body := by
      intro hopen
      have hhidden := extractClasses_of_line hbody hblock hopen
      rw [hsame, hused] at hhidden
      cases hhidden
    refine ⟨hblock, hline, fun before hsplit => ?_⟩
    by_contra hstart
    rw [Bool.not_eq_false] at hstart
    refine extractClasses_of_key hbody hblock hline hsplit hstart ?_
    rw [hsame, hunused]
  · intro h front back other hfront hother hinert
    rw [extractClasses, exposeUsages_withLiteral hfront hbody h, extractClasses,
      exposeUsages_withLiteral hfront hother hinert]

/-- A body with a use, a closed comment and a mark in it is inert, between any code. -/
theorem extractClasses_withLiteral_quiet :
    IsLiteralBody "styles.a /* styles[ */ __SB_b__".toList ∧
      ∀ front back other, IsPlainFront front → IsLiteralBody other → IsInert other →
        extractClasses (withLiteral front "styles.a /* styles[ */ __SB_b__".toList back) =
          extractClasses (withLiteral front other back) := by
  have hbody : IsLiteralBody "styles.a /* styles[ */ __SB_b__".toList :=
    ⟨List.all_iff_forall_prop.mp (by decide +kernel), by decide⟩
  have hclear : withoutBlocks "styles.a /* styles[ */ __SB_b__".toList =
      "styles.a   __SB_b__".toList := by decide +kernel
  refine ⟨hbody, (extractClasses_withLiteral_iff hbody).mpr ⟨?_, ?_, fun before hsplit => ?_⟩⟩
  · rw [hclear]
    decide +kernel
  · rw [hclear]
    decide +kernel
  · have hlast := congrArg List.getLast? (hclear.symm.trans hsplit)
    simp at hlast

/-- The address in a literal starts a line comment, which hides what is used behind the literal. -/
theorem extractClasses_withLiteral_address :
    ¬ ∀ front back body other, IsPlainFront front → IsLiteralBody body → IsLiteralBody other →
      extractClasses (withLiteral front body back) =
        extractClasses (withLiteral front other back) := by
  intro h
  have hfront : IsPlainFront "const u = ".toList :=
    ⟨List.all_iff_forall_prop.mp (by decide +kernel), by decide, by decide +kernel⟩
  have hbody : IsLiteralBody "http://a.b".toList :=
    ⟨List.all_iff_forall_prop.mp (by decide +kernel), by decide⟩
  have hsame := h _ "; styles.a".toList _ _ hfront hbody isLiteralBody_nil
  exact absurd hsame (by decide +kernel)

end StyleModules
