import Mathlib.Data.Bool.AllAny
import StyleModules.Proofs.Component.ClassName
import StyleModules.Proofs.Text.Replacement

/-!
# What is recognised in a component's code

The code of a component is searched five times: for block comments, for line comments, for keys in
brackets, for string literals and for uses. Each recogniser is described by the texts that it
accepts. A block comment is recognised if it is closed, and goes to its first end
(`recogniseBlockComment_closed`, `exists_of_recogniseBlockComment`). A key is recognised exactly if
it is written out from the word to the closing bracket (`recogniseKey_eq_some_iff`). A string
literal without a backslash goes to the next quote of its kind (`recogniseString_literal`). A mark
gives back the name that was put into it, even if the name looks like a mark
(`recogniseUsage_mark`).
-/

namespace StyleModules

/-- A run of characters with the property ends where one without it follows. -/
theorem takeWhile_append_of_stop {p : Char → Bool} {run back : Text} (h : ∀ c ∈ run, p c = true)
    (hback : ∀ c ∈ back.head?, p c = false) : (run ++ back).takeWhile p = run := by
  rw [List.takeWhile_append_of_pos h]
  cases back with
  | nil => exact List.append_nil run
  | cons c back => rw [List.takeWhile_cons_of_neg (by simp [hback c rfl]), List.append_nil]

section Comments

variable {previous : Option Char} {t body back : Text}

/-- A block comment begins with its opening. -/
theorem beginsWith_blockComment : BeginsWith recogniseBlockComment [['/', '*']] where
  exists_word previous t h := by
    unfold recogniseBlockComment at h
    split at h
    · exact ⟨_, List.mem_singleton_self _, _, rfl⟩
    · exact absurd rfl h
  not_empty := by decide
  in_line := by decide

/-- A line comment begins with two slashes. -/
theorem beginsWith_lineComment : BeginsWith recogniseLineComment [['/', '/']] where
  exists_word previous t h := by
    unfold recogniseLineComment at h
    split at h
    · exact ⟨_, List.mem_singleton_self _, _, rfl⟩
    · exact absurd rfl h
  not_empty := by decide
  in_line := by decide

/-- A block comment goes to its first end. -/
theorem recogniseBlockComment_closed (h : ¬ ['*', '/'] <:+: body) (previous : Option Char)
    (back : Text) :
    recogniseBlockComment previous ('/' :: '*' :: (body ++ '*' :: '/' :: back)) =
      some (body.length + 4, [' ']) := by
  have hend : afterCommentEnd? (body ++ '*' :: '/' :: back) = some back :=
    afterCommentEnd?_append_of_none (afterCommentEnd?_eq_none_iff.mpr h) (by simp)
  have hlength : (body ++ '*' :: '/' :: back).length + 2 - back.length = body.length + 4 := by
    rw [List.length_append, List.length_cons, List.length_cons]
    omega
  rw [recogniseBlockComment, hend, Option.map_some, hlength]

/-- Only closed block comments are recognised, each up to its first end. -/
theorem exists_of_recogniseBlockComment {length : Nat} {value : Text}
    (h : recogniseBlockComment previous t = some (length, value)) :
    ∃ body back, t = '/' :: '*' :: (body ++ '*' :: '/' :: back) ∧ ¬ ['*', '/'] <:+: body ∧
      length = body.length + 4 ∧ value = [' '] := by
  unfold recogniseBlockComment at h
  split at h
  · next rest =>
    obtain ⟨back, hback, he⟩ := Option.map_eq_some_iff.mp h
    obtain ⟨rfl, rfl⟩ := Prod.mk.inj he
    obtain ⟨body, rfl, hbody⟩ := exists_of_afterCommentEnd? hback
    refine ⟨body, back, rfl, hbody, ?_, rfl⟩
    rw [List.length_append, List.length_cons, List.length_cons]
    omega
  · cases h

/-- A line comment goes to the end of its line. -/
theorem recogniseLineComment_line (h : '\n' ∉ body) (hback : LineEnd back)
    (previous : Option Char) :
    recogniseLineComment previous ('/' :: '/' :: (body ++ back)) =
      some (body.length + 2, [' ']) := by
  have hbody : ∀ c ∈ body, (c != '\n') = true := by
    intro c hc
    rw [bne_iff_ne]
    rintro rfl
    exact h hc
  have htake : (body ++ back).takeWhile (· != '\n') = body :=
    takeWhile_append_of_stop hbody fun c hc => by rw [hback.eq_feed hc]; rfl
  rw [recogniseLineComment, htake]

end Comments

section Keys

/-- A key in brackets as it is written. -/
def keyText (quote : Char) (name : Text) : Text :=
  "styles[".toList ++ quote :: (name ++ [quote, ']'])

/-- The name can be a key between these quotes. -/
structure IsKey (quote : Char) (name : Text) : Prop where
  /-- The quotes are quotes. -/
  quoted : isQuote quote = true
  /-- The name is not empty. -/
  ne_nil : name ≠ []
  /-- The name is made of name characters. -/
  chars : ∀ c ∈ name, isNameChar c = true

instance (quote : Char) (name : Text) : Decidable (IsKey quote name) :=
  decidable_of_iff (isQuote quote = true ∧ name ≠ [] ∧ name.all isNameChar = true)
    ⟨fun h => ⟨h.1, h.2.1, List.all_eq_true.mp h.2.2⟩,
      fun h => ⟨h.quoted, h.ne_nil, List.all_eq_true.mpr h.chars⟩⟩

variable {previous : Option Char} {t name : Text} {quote : Char}

/-- A use by key is the word, the bracket and the quoted name. -/
theorem keyText_append (quote : Char) (name back : Text) :
    keyText quote name ++ back = "styles[".toList ++ quote :: (name ++ quote :: ']' :: back) := by
  unfold keyText
  simp only [List.append_assoc, List.cons_append, List.nil_append]

/-- A use by key has ten characters beside the name. -/
theorem length_keyText (quote : Char) (name : Text) :
    (keyText quote name).length = name.length + 10 := by
  unfold keyText
  simp

/-- A use by key is not empty. -/
theorem keyText_ne_nil (quote : Char) (name : Text) : keyText quote name ≠ [] :=
  List.append_ne_nil_of_left_ne_nil (by decide) _

/-- A quote is no part of a name. -/
theorem isNameChar_of_isQuote (h : isQuote quote = true) : isNameChar quote = false := by
  by_contra hname
  have hplain := isPlain_of_isNameChar (Bool.not_eq_false _ ▸ hname)
  simp [isPlain, h] at hplain

/-- A use by key holds the word, the name, its quotes and the brackets. -/
theorem not_mem_keyText {c : Char} (h : IsKey quote name) (hc : isNameChar c = false)
    (hquote : c ≠ quote) (hbrackets : c ≠ '[' ∧ c ≠ ']') : c ∉ keyText quote name := by
  have hword : ∀ d ∈ "styles[".toList, isNameChar d = true ∨ d = '[' :=
    List.all_iff_forall_prop.mp (by decide)
  unfold keyText
  intro hmem
  simp only [List.mem_append, List.mem_cons, List.not_mem_nil, or_false] at hmem
  rcases hmem with hmem | hmem | hmem | hmem | hmem
  · rcases hword c hmem with hmem | hmem
    · simp [hc] at hmem
    · exact hbrackets.1 hmem
  · exact hquote hmem
  · simp [h.chars c hmem] at hc
  · exact hquote hmem
  · exact hbrackets.2 hmem

/-- A key is recognised where it is written out, at the start of a word. -/
theorem recogniseKey_eq_some_iff {length : Nat} {value : Text} :
    recogniseKey previous t = some (length, value) ↔
      startsWord previous = true ∧ ∃ quote name, IsKey quote name ∧ keyText quote name <+: t ∧
        length = (keyText quote name).length ∧ value = keyMark name := by
  constructor
  · intro h
    unfold recogniseKey at h
    split at h
    · next quote rest hstart hword =>
      have ht := List.isPrefixOf?_eq_some_iff_append_eq.mp hword
      dsimp only at h
      split at h
      · next hkey =>
        simp only [Bool.and_eq_true, Bool.not_eq_true', List.isEmpty_eq_false_iff,
          List.isPrefixOf_iff_prefix] at hkey
        obtain ⟨⟨hquote, hne⟩, more, hmore⟩ := hkey
        obtain ⟨rfl, rfl⟩ := Prod.mk.inj (Option.some.inj h)
        have hrest : rest = rest.takeWhile isNameChar ++ quote :: ']' :: more := by
          rw [show quote :: ']' :: more = rest.dropWhile isNameChar from hmore]
          exact List.takeWhile_append_dropWhile.symm
        refine ⟨hstart, quote, _, ⟨hquote, hne, List.all_eq_true.mp List.all_takeWhile⟩,
          ⟨more, ?_⟩, (length_keyText ..).symm, rfl⟩
        rw [keyText_append, ← hrest, ht]
      · cases h
    · cases h
  · rintro ⟨hstart, quote, name, hkey, ⟨rest, rfl⟩, rfl, rfl⟩
    have hstop : isNameChar quote = false := isNameChar_of_isQuote hkey.quoted
    have htake : (name ++ quote :: ']' :: rest).takeWhile isNameChar = name :=
      takeWhile_append_of_stop hkey.chars (by simp [hstop])
    have hdrop : (name ++ quote :: ']' :: rest).dropWhile isNameChar = quote :: ']' :: rest := by
      rw [List.dropWhile_append_of_pos hkey.chars, List.dropWhile_cons_of_neg (by simp [hstop])]
    have hempty : name.isEmpty = false := by simpa using hkey.ne_nil
    rw [keyText_append, recogniseKey, hstart, List.isPrefixOf?_eq_some_iff_append_eq.mpr rfl]
    simp [htake, hdrop, hkey.quoted, hempty, List.isPrefixOf, length_keyText]

/-- A recognised key is a use by key at the start of a word. -/
theorem exists_of_recogniseKey (h : recogniseKey previous t ≠ none) :
    startsWord previous = true ∧ ∃ quote name, IsKey quote name ∧ keyText quote name <+: t := by
  obtain ⟨⟨length, value⟩, hfound⟩ := Option.ne_none_iff_exists'.mp h
  obtain ⟨hstart, quote, name, hkey, hprefix, _⟩ := recogniseKey_eq_some_iff.mp hfound
  exact ⟨hstart, quote, name, hkey, hprefix⟩

/-- A use by key begins with the word and the bracket. -/
theorem beginsWith_key : BeginsWith recogniseKey ["styles[".toList] where
  exists_word previous t h := by
    obtain ⟨_, quote, name, _, hkey⟩ := exists_of_recogniseKey h
    exact ⟨_, List.mem_singleton_self _, (List.prefix_append _ _).trans hkey⟩
  not_empty := by decide
  in_line := by decide

/-- A key stands where the text up to the first quote is the word, at the start of a word. -/
theorem bare_of_recogniseKey (h : recogniseKey previous t ≠ none) :
    t.takeWhile (!isQuote ·) = "styles[".toList ∧ startsWord previous = true := by
  obtain ⟨hstart, quote, name, hkey, rest, rfl⟩ := exists_of_recogniseKey h
  rw [keyText_append]
  exact ⟨takeWhile_append_of_stop (List.all_eq_true.mp (by decide)) (by simp [hkey.quoted]), hstart⟩

end Keys

section Strings

variable {quote : Char} {body : Text}

/-- A string begins with a quote. -/
theorem beginsWith_string : BeginsWith recogniseString [['\''], ['"']] where
  exists_word previous t h := by
    unfold recogniseString at h
    split at h
    · next c rest =>
      split at h
      · next hquote =>
        rw [isQuote, Bool.or_eq_true, beq_iff_eq, beq_iff_eq] at hquote
        rcases hquote with rfl | rfl
        · exact ⟨_, List.mem_cons_self, rest, rfl⟩
        · exact ⟨_, List.mem_cons_of_mem _ List.mem_cons_self, rest, rfl⟩
      · exact absurd rfl h
    · exact absurd rfl h
  not_empty := by decide
  in_line := by decide

/-- A string goes on up to its quote. -/
theorem afterString?_cons {c : Char} (hc : c ≠ '\\') (t : Text) :
    afterString? quote (c :: t) = if c == quote then some t else afterString? quote t := by
  rw [afterString?]
  rintro d rest rfl
  exact absurd rfl hc

/-- Without a backslash, the next quote of its kind ends a string literal. -/
theorem afterString?_append (hquote : quote ≠ '\\') (hbody : quote ∉ body)
    (hescape : '\\' ∉ body) (back : Text) :
    afterString? quote (body ++ quote :: back) = some back := by
  induction body with
  | nil => rw [List.nil_append, afterString?_cons hquote, beq_self_eq_true, if_pos rfl]
  | cons c body ih =>
    rw [List.mem_cons, not_or] at hbody hescape
    rw [List.cons_append, afterString?_cons (Ne.symm hescape.1),
      if_neg (by simpa using Ne.symm hbody.1), ih hbody.2 hescape.2]

/-- A string without a closing quote is none. -/
theorem afterString?_eq_none {t : Text} (h : quote ∉ t) : afterString? quote t = none := by
  fun_induction afterString? quote t with
  | case1 => rfl
  | case2 c rest hc ih =>
    rw [List.mem_cons, List.mem_cons, not_or, not_or] at h
    exact ih h.2.2
  | case3 c rest hc after hafter ih =>
    rw [List.mem_cons, List.mem_cons, not_or, not_or] at h
    rw [ih h.2.2] at hafter
    cases hafter
  | case4 c rest hc hafter hquote ih => 
    rw [beq_iff_eq] at hquote
    simp [hquote] at h
  | case5 => rfl
  | case6 c rest _ hquote =>
    rw [beq_iff_eq] at hquote
    simp [hquote] at h
  | case7 c rest _ _ ih => exact ih fun hmem => h (List.mem_cons_of_mem c hmem)

/-- A string literal without a backslash is recognised up to its closing quote. -/
theorem recogniseString_literal (hquote : isQuote quote = true) (hbody : quote ∉ body)
    (hescape : '\\' ∉ body) (previous : Option Char) (back : Text) :
    recogniseString previous (quote :: (body ++ quote :: back)) =
      some (body.length + 2, [' ']) := by
  have hne : quote ≠ '\\' := by
    rintro rfl
    exact absurd hquote (by decide)
  have hlength : (body ++ quote :: back).length + 1 - back.length = body.length + 2 := by
    rw [List.length_append, List.length_cons]
    omega
  rw [recogniseString, if_pos hquote, afterString?_append hne hbody hescape, Option.map_some,
    hlength]

end Strings

section Uses

variable {previous : Option Char} {name back : Text}

/-- A use begins with the mark or with the word and a point. -/
theorem beginsWith_usage : BeginsWith recogniseUsage ["__SB_".toList, "styles.".toList] where
  exists_word previous t h := by
    unfold recogniseUsage at h
    split at h
    · next rest hmark =>
      exact ⟨_, List.mem_cons_self, rest, List.isPrefixOf?_eq_some_iff_append_eq.mp hmark⟩
    · split at h
      · next c rest _ hpoint =>
        exact ⟨_, List.mem_cons_of_mem _ List.mem_cons_self, c :: rest,
          List.isPrefixOf?_eq_some_iff_append_eq.mp hpoint⟩
      · exact absurd rfl h
  not_empty := by decide
  in_line := by decide

/-- The name in a mark is found again, even if it ends like a mark itself. -/
theorem markedName?_append (hne : name ≠ []) : markedName? (name ++ ['_', '_']) = some name := by
  induction name with
  | nil => exact absurd rfl hne
  | cons c name ih =>
    cases name with
    | nil => rfl
    | cons d name => rw [List.cons_append, markedName?, ih (List.cons_ne_nil d name)]

/-- The mark of a key is a use of its name. -/
theorem recogniseUsage_mark (hne : name ≠ []) (hname : ∀ c ∈ name, isNameChar c = true)
    (previous : Option Char) (back : Text) :
    recogniseUsage previous ("__SB_".toList ++ (name ++ ['_', '_']) ++ ' ' :: back) =
      some (name.length + 7, name) := by
  have hmark : ∀ c ∈ name ++ ['_', '_'], isNameChar c = true := by
    intro c hc
    rcases List.mem_append.mp hc with hc | hc
    · exact hname c hc
    · obtain rfl : c = '_' := by simpa using hc
      decide
  have htake : (name ++ ['_', '_'] ++ ' ' :: back).takeWhile isNameChar = name ++ ['_', '_'] :=
    takeWhile_append_of_stop hmark (by simp; decide)
  rw [recogniseUsage, List.append_assoc, List.isPrefixOf?_eq_some_iff_append_eq.mpr rfl]
  dsimp only
  rw [htake, markedName?_append hne, Option.map_some]

/-- A name behind a point is a use of it, as far as it goes. -/
theorem recogniseUsage_point {c : Char} (hstart : isNameStart c = true)
    (hname : ∀ d ∈ name, isWord d = true) (hprevious : startsWord previous = true)
    (hback : ∀ d ∈ back.head?, isWord d = false) :
    recogniseUsage previous ("styles.".toList ++ c :: name ++ back) =
      some (name.length + 8, c :: name) := by
  have htake : (name ++ back).takeWhile isWord = name := takeWhile_append_of_stop hname hback
  have hmark : "__SB_".toList.isPrefixOf? ("styles.".toList ++ c :: name ++ back) = none := rfl
  rw [recogniseUsage, hmark, hprevious, List.append_assoc,
    List.isPrefixOf?_eq_some_iff_append_eq.mpr rfl, List.cons_append]
  simp [hstart, htake]

end Uses

end StyleModules
