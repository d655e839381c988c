import StyleModules.Proofs.Layout.Comment
import StyleModules.Proofs.Layout.Statement

/-!
# Heads without escapes and quotes

Where a text has no escapes and no quotes, its heads end at the first brace or semicolon. Nothing
that a layout does to such a head makes it end elsewhere: its selectors and its statements can be
read back, as long as they do not begin like a comment when they are trimmed
(`BareHead.closedSelector`, `BareHead.closedStatement`). They do not in a text that has no blanks
but spaces (`ordinaryHead_of_mem_scan`), and in a text without comments (`bareHead_of_mem_scan`).
-/

namespace StyleModules

/-- The character is neither an escape nor a quote. -/
def isBare (c : Char) : Bool := c != '\\' && !isQuote c

/-- The character is neither an escape nor a quote, and blank only if it is a space. -/
def isOrdinary (c : Char) : Bool := c != '\\' && !isQuote c && (isSpace c || !isBlank c)

/-- An ordinary character is bare. -/
theorem isBare_of_isOrdinary {c : Char} (h : isOrdinary c = true) : isBare c = true := by
  simp only [isOrdinary, Bool.and_eq_true] at h
  simp only [isBare, Bool.and_eq_true]
  exact h.1

/-- A character that ends a head is bare. -/
theorem isBare_of_endsHead {c : Char} (h : endsHead c = true) : isBare c = true := by
  simp only [endsHead, Bool.or_eq_true, beq_iff_eq] at h
  rcases h with (rfl | rfl) | rfl <;> decide

/-- Bare characters up to the first that ends a head are a head. -/
theorem Token.cutHead_of_bare {t : Text} (h : ∀ c ∈ t, isBare c = true) :
    Token.cutHead none t = (t.takeWhile (!endsHead ·), t.dropWhile (!endsHead ·)) := by
  induction t with
  | nil => rfl
  | cons c t ih =>
    have hc := h c List.mem_cons_self
    simp only [isBare, Bool.and_eq_true, bne_iff_ne, ne_eq, Bool.not_eq_true'] at hc
    obtain ⟨hescape, hquote⟩ := hc
    rw [Token.cutHead]
    · cases hends : endsHead c with
      | true => simp [hends]
      | false =>
        rw [if_neg (by simp), hquote, if_neg (by simp),
          ih fun d hd => h d (List.mem_cons_of_mem c hd)]
        simp [hends]
    · intro d tail he _
      exact hescape he

/-- A bare text that nothing in it ends is closed if it is trimmed and no comment. -/
theorem IsClosed.of_bare {gap : Text} {stop : Char} {t : Text} (hn : t ≠ [])
    (ht : Text.trim t = t) (hc : ['/', '*'].isPrefixOf t = false)
    (hbare : ∀ c ∈ t ++ gap, isBare c = true)
    (hends : ∀ c ∈ t ++ gap, endsHead c = false) (hstop : endsHead stop = true) :
    IsClosed gap stop t where
  ne_nil := hn
  trimmed := ht
  no_comment := hc
  reads_back := by
    have hall : ∀ c ∈ t ++ gap ++ [stop], isBare c = true := by
      intro c hm
      rcases List.mem_append.mp hm with hm | hm
      · exact hbare c hm
      · rw [List.mem_singleton.mp hm]
        exact isBare_of_endsHead hstop
    have hkept : ∀ c ∈ t ++ gap, (!endsHead c) = true := fun c hm => by simp [hends c hm]
    rw [Token.cutHead_of_bare hall, List.takeWhile_append_of_pos hkept,
      List.dropWhile_append_of_pos hkept]
    simp [hstop]

/-- What is known of a head in a text without escapes and quotes. -/
structure BareHead (head : Text) : Prop where
  /-- Its characters are bare. -/
  bare : ∀ c ∈ head, isBare c = true
  /-- None of them ends it. -/
  unended : ∀ c ∈ head, endsHead c = false
  /-- It does not begin like a comment when it is trimmed. -/
  no_comment : ['/', '*'].isPrefixOf (Text.trim head) = false

/-- What is known of a head in a text of ordinary characters. -/
structure OrdinaryHead (head : Text) : Prop where
  /-- Its characters are ordinary. -/
  ordinary : ∀ c ∈ head, isOrdinary c = true
  /-- None of them ends it. -/
  unended : ∀ c ∈ head, endsHead c = false
  /-- It does not begin like a comment. -/
  no_comment : ['/', '*'].isPrefixOf head = false
  /-- It does not begin with a blank. -/
  start : ∀ c ∈ head.head?, isBlank c = false

section Scan

/-- The head of a block or of a statement. -/
def Token.head? : Token → Option Text
  | .opening head => some head
  | .statement head _ => some head
  | _ => none

/-- The head of a token is a part of the token. -/
theorem Token.mem_text_of_head? {token : Token} {head : Text} (h : token.head? = some head)
    {c : Char} (hc : c ∈ head) : c ∈ token.text := by
  cases token with
  | opening other =>
    obtain rfl := Option.some.inj h
    exact List.mem_append_left _ hc
  | statement other ended =>
    obtain rfl := Option.some.inj h
    cases ended with
    | true => exact List.mem_append_left _ hc
    | false => exact hc
  | _ => simp [Token.head?] at h

/-- The head of a cut statement is the head cut from it. -/
theorem Token.head?_cutStatement (t : Text) :
    (Token.cutStatement t).1.head? = some (Token.cutHead none t).1 := by
  unfold Token.cutStatement
  split <;> simp_all [Token.head?]

/-- A head is cut where neither spaces nor a comment begin. -/
theorem Token.cutHead_of_head?_cut {c : Char} {rest head : Text}
    (h : (Token.cut c rest).1.head? = some head) :
    (Token.cutHead none (c :: rest)).1 = head ∧ isSpace c = false ∧
      ['/', '*'].isPrefixOf (c :: rest) = false := by
  unfold Token.cut at h
  split at h
  · simp [Token.head?] at h
  · next hspace =>
    split at h
    · simp [Token.head?] at h
    · simp [Token.head?] at h
    · next _ hcomment =>
      rw [Token.head?_cutStatement, Option.some.injEq] at h
      refine ⟨h, by simpa using hspace, ?_⟩
      rw [Bool.eq_false_iff, ne_eq, List.isPrefixOf_iff_prefix, List.cons_prefix_cons]
      rintro ⟨rfl, body, rfl⟩
      exact hcomment body rfl rfl

/-- A start of a text has its first character, if any. -/
theorem head?_of_isPrefix {s t : Text} (h : s <+: t) {c : Char} (hc : c ∈ s.head?) :
    c ∈ t.head? := by
  obtain ⟨more, rfl⟩ := h
  rw [Option.mem_def] at hc ⊢
  rw [List.head?_append, hc]
  rfl

/-- A start of a text that is no comment is none. -/
theorem not_delimiter_of_isPrefix {s t : Text} (h : s <+: t)
    (ht : ['/', '*'].isPrefixOf t = false) : ['/', '*'].isPrefixOf s = false := by
  rw [Bool.eq_false_iff, ne_eq, List.isPrefixOf_iff_prefix] at ht ⊢
  exact fun hs => ht (hs.trans h)

/-- A text that starts with no blank is trimmed to a start of it. -/
theorem trim_isPrefix {t : Text} (h : ∀ c ∈ t.head?, isBlank c = false) : Text.trim t <+: t := by
  have hstart : Text.trimStart t = t := by
    cases t with
    | nil => rfl
    | cons c t => exact List.dropWhile_cons_of_neg (by simp [h c rfl])
  rw [Text.trim, hstart]
  exact trimEnd_isPrefix t

/-- An ordinary head is bare. -/
theorem OrdinaryHead.bareHead {head : Text} (h : OrdinaryHead head) : BareHead head where
  bare c hc := isBare_of_isOrdinary (h.ordinary c hc)
  unended := h.unended
  no_comment := not_delimiter_of_isPrefix (trim_isPrefix h.start) h.no_comment

/-- A head cut from ordinary characters is ordinary. -/
theorem Token.ordinaryHead_of_cut {c : Char} {rest head : Text}
    (h : (Token.cut c rest).1.head? = some head) (hall : ∀ d ∈ c :: rest, isOrdinary d = true) :
    OrdinaryHead head := by
  obtain ⟨rfl, hspace, hcomment⟩ := Token.cutHead_of_head?_cut h
  rw [Token.cutHead_of_bare fun d hd => isBare_of_isOrdinary (hall d hd)]
  have hbegins : (c :: rest).takeWhile (!endsHead ·) <+: c :: rest := List.takeWhile_prefix _
  refine ⟨fun d hd => hall d (hbegins.subset hd), fun d hd => ?_,
    not_delimiter_of_isPrefix hbegins hcomment, fun d hd => ?_⟩
  · simpa using List.mem_takeWhile_imp hd
  · obtain rfl : c = d := by simpa using head?_of_isPrefix hbegins hd
    have hc := hall c List.mem_cons_self
    simp only [isOrdinary, hspace, Bool.false_or, Bool.and_eq_true, Bool.not_eq_true'] at hc
    exact hc.2

/-- The heads of a text of ordinary characters are ordinary. -/
theorem ordinaryHead_of_mem_scan {t : Text} (hall : ∀ c ∈ t, isOrdinary c = true) {token : Token}
    (h : token ∈ scan t) {head : Text} (hh : token.head? = some head) : OrdinaryHead head := by
  fun_induction scan t with
  | case1 => simp at h
  | case2 c rest ih =>
    rcases List.mem_cons.mp h with rfl | h
    · exact Token.ordinaryHead_of_cut hh hall
    · refine ih (fun d hd => hall d ?_) h
      rw [← Token.cut_append c rest]
      exact List.mem_append_right _ hd

/-- A trimmed text is a part of the text. -/
theorem trim_isInfix (t : Text) : Text.trim t <:+: t := by
  obtain ⟨front, back, he, -⟩ := Text.exists_trim t
  exact ⟨front, back, he.symm⟩

/-- The heads of a text without escapes, quotes and comments are bare. -/
theorem bareHead_of_mem_scan {t : Text} (hall : ∀ c ∈ t, isBare c = true)
    (hfree : ¬ ['/', '*'] <:+: t) {token : Token} (h : token ∈ scan t) {head : Text}
    (hh : token.head? = some head) : BareHead head := by
  fun_induction scan t with
  | case1 => simp at h
  | case2 c rest ih =>
    rcases List.mem_cons.mp h with rfl | h
    · obtain ⟨rfl, -, -⟩ := Token.cutHead_of_head?_cut hh
      rw [Token.cutHead_of_bare hall]
      have hbegins : (c :: rest).takeWhile (!endsHead ·) <+: c :: rest := List.takeWhile_prefix _
      refine ⟨fun d hd => hall d (hbegins.subset hd), fun d hd => ?_, ?_⟩
      · simpa using List.mem_takeWhile_imp hd
      · rw [Bool.eq_false_iff, ne_eq, List.isPrefixOf_iff_prefix]
        exact fun hp => hfree (hp.isInfix.trans ((trim_isInfix _).trans hbegins.isInfix))
    · have hends : (Token.cut c rest).2 <:+ c :: rest := ⟨_, Token.cut_append c rest⟩
      exact ih (fun d hd => hall d (hends.subset hd)) (fun hi => hfree (hi.trans hends.isInfix)) h

end Scan

section Write

variable {head : Text}

/-- Setting the space behind the colon makes no comment of a declaration. -/
theorem no_comment_normaliseDeclaration {t : Text} (ht : ∀ c ∈ t.head?, isBlank c = false)
    (hc : ['/', '*'].isPrefixOf t = false) :
    ['/', '*'].isPrefixOf (normaliseDeclaration t) = false := by
  have hbefore : Text.before ':' t <+: t := List.takeWhile_prefix _
  have hproperty : Text.trim (Text.before ':' t) <+: t := by
    refine (trim_isPrefix fun c hm => ht c (head?_of_isPrefix hbefore hm)).trans hbefore
  rw [normaliseDeclaration_eq]
  cases he : Text.trim (Text.before ':' t) with
  | nil => rfl
  | cons c rest =>
    rw [← he]
    exact isPrefixOf_delimiter_append (not_delimiter_of_isPrefix hproperty hc) (by simp [he])
      (by simp)

/-- A bare selector can be read back. -/
theorem BareHead.closedSelector (h : BareHead head) (hn : Text.trim head ≠ []) :
    ClosedSelector (Text.trim head) := by
  have hall : ∀ {c}, c ∈ Text.trim head ++ [' '] → c ∈ head ∨ c = ' ' := by
    intro c hm
    rcases List.mem_append.mp hm with hm | hm
    · exact Or.inl (Text.mem_of_mem_trim hm)
    · exact Or.inr (List.mem_singleton.mp hm)
  refine IsClosed.of_bare hn (Text.trim_trim head) h.no_comment (fun c hm => ?_)
    (fun c hm => ?_) rfl
  · rcases hall hm with hm | rfl
    · exact h.bare c hm
    · decide
  · rcases hall hm with hm | rfl
    · exact h.unended c hm
    · decide

/-- A bare head is cleaned by trimming it. -/
theorem BareHead.cleanStatement_eq (h : BareHead head) :
    cleanStatement head = Text.trim head := by
  have hdrop : (Text.trim head).dropEndWhile (· == ';') = Text.trim head := by
    refine (Text.dropEndWhile_eq_self_iff _ _).mpr fun c hc => beq_false_of_ne ?_
    rintro rfl
    have hends := h.unended ';' (Text.mem_of_mem_trim (List.mem_of_getLast? hc))
    simp [endsHead] at hends
  have htrim := (Text.trim_eq_self_iff _).mp (Text.trim_trim head)
  rw [cleanStatement, hdrop, Text.trimEnd, (Text.dropEndWhile_eq_self_iff _ _).mpr htrim.2]

/-- What is written for a statement begins like a comment only if the statement does. -/
theorem no_comment_laidText (hc : ['/', '*'].isPrefixOf (Text.trim head) = false) :
    ['/', '*'].isPrefixOf (laidText head) = false := by
  have hclean : ['/', '*'].isPrefixOf (cleanStatement head) = false :=
    not_delimiter_of_isPrefix (cleanStatement_isPrefix head) hc
  cases hd : (Node.ofStatement head []).isDeclaration with
  | false => rwa [laidText_of_not_declaration hd]
  | true =>
    have htrim := (Text.trim_eq_self_iff _).mp (trim_cleanStatement head)
    rw [laidText_of_declaration hd]
    exact no_comment_normaliseDeclaration htrim.1 hclean

/-- A bare statement can be read back. -/
theorem BareHead.closedStatement (h : BareHead head) (hn : Text.trim head ≠ []) :
    ClosedStatement (laidText head) := by
  have hends : ∀ c ∈ laidText head, endsHead c = false := by
    intro c hm
    rcases mem_laidText hm with hm | rfl | rfl
    · exact h.unended c hm
    · decide
    · decide
  have hne : laidText head ≠ [] := laidText_ne_nil (by rwa [h.cleanStatement_eq])
  refine ⟨IsClosed.of_bare hne (trim_laidText head) (no_comment_laidText h.no_comment)
    (fun c hm => ?_) (fun c hm => hends c (by simpa using hm)) rfl, fun hlast => ?_⟩
  · rcases mem_laidText (by simpa using hm) with hm | rfl | rfl
    · exact h.bare c hm
    · decide
    · decide
  · have hsemicolon := hends ';' (List.mem_of_getLast? hlast)
    simp [endsHead] at hsemicolon

end Write

end StyleModules
