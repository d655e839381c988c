import StyleModules.Proofs.Layout.Comment

/-!
# The lexical grammar of a sheet

A head is read character by character. All that matters of what has been read is the quote that is
open and whether a backslash waits for the character it takes along. A head ends at the first brace
or semicolon at which neither is the case, or with the text (`Token.never_ends_cutHead`).

`IsLexed` says what the tokens of a text are without saying how they are found: runs of spaces as
long as they can be, comments up to their first end, heads, and what stands behind a head. Every
text is lexed in exactly one way, and scanning finds it (`isLexed_iff`).
-/

namespace StyleModules

/-- How far a head has been read. -/
structure HeadState where
  /-- The quote that is open. -/
  quote : Option Char := none
  /-- A backslash waits for the character that it takes along. -/
  escaped : Bool := false
  deriving DecidableEq, Repr

namespace HeadState

/-- Read one character of a head. -/
def next (state : HeadState) (c : Char) : HeadState :=
  if state.escaped then { state with escaped := false }
  else if c == '\\' then { state with escaped := true }
  else
    match state.quote with
    | some quote => if c == quote || c == '\n' then {} else state
    | none => if isQuote c then { quote := some c } else state

/-- Read a text as part of a head. -/
def after (state : HeadState) (t : Text) : HeadState := t.foldl next state

/-- The event happens at no character of the text. -/
def never (event : HeadState → Char → Bool) : HeadState → Text → Bool
  | _, [] => true
  | state, c :: rest => !event state c && never event (state.next c) rest

/-- The character ends a head: it is neither quoted nor escaped. -/
def ends (state : HeadState) (c : Char) : Bool := state == {} && endsHead c

/-- No text leaves the state. -/
@[simp] theorem after_nil (state : HeadState) : state.after [] = state := rfl

/-- A text leads on from the state behind its first character. -/
@[simp] theorem after_cons (state : HeadState) (c : Char) (t : Text) :
    state.after (c :: t) = (state.next c).after t := rfl

/-- Texts in a row lead on one after the other. -/
theorem after_append (state : HeadState) (t more : Text) :
    state.after (t ++ more) = (state.after t).after more := List.foldl_append

/-- Nothing happens in texts in a row if it happens in none of them. -/
theorem never_append (event : HeadState → Char → Bool) (state : HeadState) (t more : Text) :
    never event state (t ++ more) = (never event state t && never event (state.after t) more) := by
  induction t generalizing state with
  | nil => rfl
  | cons c t ih => rw [List.cons_append, never, never, ih, after_cons, Bool.and_assoc]

/-- A character behind a backslash changes nothing else. -/
@[simp] theorem next_escaped (quote : Option Char) (c : Char) :
    next ⟨quote, true⟩ c = ⟨quote, false⟩ := rfl

/-- A backslash escapes the next character. -/
@[simp] theorem next_backslash (quote : Option Char) : next ⟨quote, false⟩ '\\' = ⟨quote, true⟩ := rfl

/-- Within quotes only the like quote or the end of the line ends them. -/
theorem next_quoted {quote c : Char} (h : c ≠ '\\') :
    next ⟨some quote, false⟩ c = ⟨if c == quote || c == '\n' then none else some quote, false⟩ := by
  have hc : (c == '\\') = false := beq_false_of_ne h
  simp only [next, hc, Bool.false_eq_true, if_false]
  split <;> rfl

/-- Outside of quotes a quote opens them. -/
theorem next_unquoted {c : Char} (h : c ≠ '\\') :
    next ⟨none, false⟩ c = ⟨if isQuote c then some c else none, false⟩ := by
  have hc : (c == '\\') = false := beq_false_of_ne h
  simp only [next, hc, Bool.false_eq_true, if_false]
  split <;> rfl

/-- At the start every character that ends a head does so. -/
@[simp] theorem ends_start (c : Char) : ends {} c = endsHead c := by
  simp [ends]

/-- An escaped character ends no head. -/
theorem ends_escaped (quote : Option Char) (c : Char) : ends ⟨quote, true⟩ c = false := by
  simp [ends]

/-- A quoted character ends no head. -/
theorem ends_quoted (quote c : Char) (escaped : Bool) : ends ⟨some quote, escaped⟩ c = false := by
  simp [ends]

/-- A backslash ends no head. -/
theorem ends_backslash (state : HeadState) : ends state '\\' = false := by
  rw [ends, show endsHead '\\' = false from rfl, Bool.and_false]

end HeadState

open HeadState

namespace Token

/-- A backslash that takes nothing along stands at the end. -/
theorem eq_nil_of_escapes_nothing {c : Char} {t : Text}
    (h : ∀ d rest, c = '\\' → t = d :: rest → False) (hc : c = '\\') : t = [] := by
  cases t with
  | nil => rfl
  | cons d rest => exact (h d rest hc rfl).elim

/-- A head is passed through without an end, and then it is ended, or the text is at its end. -/
theorem never_ends_cutHead (quote : Option Char) (t : Text) :
    never ends ⟨quote, false⟩ (cutHead quote t).1 = true ∧
      ((cutHead quote t).2 = [] ∨ ∃ stop rest, (cutHead quote t).2 = stop :: rest ∧
        ends (after ⟨quote, false⟩ (cutHead quote t).1) stop = true) := by
  fun_induction cutHead quote t with
  | case1 => exact ⟨rfl, Or.inl rfl⟩
  | case2 quote c rest cut ih =>
    simpa [never, ends_backslash, ends_escaped] using ih
  | case3 quote c rest hne cut ih =>
    by_cases hc : c = '\\'
    · obtain rfl := eq_nil_of_escapes_nothing hne hc
      exact ⟨by simp [cut, cutHead, never, ends_quoted], Or.inl (by simp [cut, cutHead])⟩
    · simpa [never, ends_quoted, next_quoted hc, cut] using ih
  | case4 c rest hne hends => exact ⟨rfl, Or.inr ⟨c, rest, rfl, by simpa [ends] using hends⟩⟩
  | case5 c rest hne hends cut ih =>
    have hc' : ends ⟨none, false⟩ c = false := by simpa [ends] using hends
    by_cases hc : c = '\\'
    · obtain rfl := eq_nil_of_escapes_nothing hne hc
      exact ⟨by simp [cut, cutHead, never, hc'], Or.inl (by simp [cut, cutHead])⟩
    · simpa [never, hc', next_unquoted hc, cut] using ih

/-- A text that is passed through without an end belongs to a head as a whole. If the state behind
it is the one at the start, the head goes on there. -/
theorem cutHead_of_never_ends {quote : Option Char} {t : Text}
    (h : never ends ⟨quote, false⟩ t = true) :
    cutHead quote t = (t, []) ∧ ∀ stop rest, endsHead stop = true → after ⟨quote, false⟩ t = {} →
      cutHead quote (t ++ stop :: rest) = (t, stop :: rest) := by
  fun_induction cutHead quote t with
  | case1 quote =>
    refine ⟨rfl, fun stop rest hstop hafter => ?_⟩
    obtain rfl : quote = none := congrArg HeadState.quote hafter
    rw [List.nil_append, cutHead, if_pos hstop]
    rintro d tail rfl _
    simp [endsHead] at hstop
  | case2 quote c t cut ih =>
    obtain ⟨hall, hstop⟩ := ih (by simpa [never, ends_backslash, ends_escaped] using h)
    refine ⟨by simp only [cut, hall], fun stop rest hends hafter => ?_⟩
    rw [List.cons_append, List.cons_append, cutHead, hstop stop rest hends (by simpa using hafter)]
  | case3 quote c t hne cut ih =>
    by_cases hc : c = '\\'
    · obtain rfl := eq_nil_of_escapes_nothing hne hc
      subst hc
      exact ⟨rfl, fun stop rest _ hafter => by simp at hafter⟩
    · rw [never, next_quoted hc, Bool.and_eq_true] at h
      obtain ⟨hall, hstop⟩ := ih h.2
      refine ⟨by simp only [cut, hall], fun stop rest hends hafter => ?_⟩
      rw [after_cons, next_quoted hc] at hafter
      rw [List.cons_append, cutHead, hstop stop rest hends hafter]
      exact fun d tail he _ => hc he
  | case4 c t hne hends => simp [never, ends, hends] at h
  | case5 c t hne hends cut ih =>
    by_cases hc : c = '\\'
    · obtain rfl := eq_nil_of_escapes_nothing hne hc
      subst hc
      exact ⟨rfl, fun stop rest _ hafter => by simp at hafter⟩
    · rw [never, next_unquoted hc, Bool.and_eq_true] at h
      obtain ⟨hall, hstop⟩ := ih h.2
      refine ⟨by simp only [cut, hall], fun stop rest hstops hafter => ?_⟩
      rw [after_cons, next_unquoted hc] at hafter
      rw [List.cons_append, cutHead, if_neg hends, hstop stop rest hstops hafter]
      exact fun d tail he _ => hc he

/-- A space is cut with those behind it. -/
theorem cut_of_space {c : Char} (h : isSpace c = true) (rest : Text) :
    cut c rest = (.space (c :: rest.takeWhile isSpace), rest.dropWhile isSpace) := if_pos h

/-- A comment that nothing ends runs to the end of the text. -/
theorem cutComment_of_open {t : Text} (h : Text.occursIn ['*', '/'] t = false) :
    cutComment t = (t, []) := by
  fun_induction cutComment t with
  | case1 => rfl
  | case2 rest => simp [Text.occursIn, List.isPrefixOf] at h
  | case3 c rest _ cut ih =>
    rw [Text.occursIn, Bool.or_eq_false_iff] at h
    simp only [cut, ih h.2]

/-- A comment that does not end takes all the text. -/
theorem cutComment_snd_of_open {t : Text} (h : Text.occursIn ['*', '/'] (cutComment t).1 = false) :
    (cutComment t).2 = [] := by
  fun_induction cutComment t with
  | case1 => rfl
  | case2 rest => simp [Text.occursIn, List.isPrefixOf] at h
  | case3 c rest _ cut ih =>
    rw [Text.occursIn, Bool.or_eq_false_iff] at h
    exact ih h.2

end Token
section Grammar

/-- A head may begin here: neither spaces nor a comment do. -/
structure StartsHead (t : Text) : Prop where
  /-- The first character is no space. -/
  no_space : ∀ c ∈ t.head?, isSpace c = false
  /-- It does not begin like a comment. -/
  no_comment : ['/', '*'].isPrefixOf t = false

/-- The text is a head up to what ends it: nothing in it does, and no quote or escape is open. -/
structure IsHead (head : Text) : Prop where
  /-- Nothing in it ends it. -/
  unended : never ends {} head = true
  /-- No quote is open at its end, and no backslash waits. -/
  complete : after {} head = {}

/-- The tokens are those of the text. -/
inductive IsLexed : Text → List Token → Prop
  | nil : IsLexed [] []
  | space {run rest : Text} {tokens : List Token} (hne : run ≠ [])
      (hrun : ∀ c ∈ run, isSpace c = true) (hrest : ∀ c ∈ rest.head?, isSpace c = false)
      (h : IsLexed rest tokens) : IsLexed (run ++ rest) (.space run :: tokens)
  | comment {comment rest : Text} {tokens : List Token} (hclosed : isClosedComment comment = true)
      (h : IsLexed rest tokens) : IsLexed (comment ++ rest) (.comment comment :: tokens)
  | openComment {comment : Text} (hopen : isOpenComment comment = true) :
      IsLexed comment [.comment comment]
  | opening {head rest : Text} {tokens : List Token} (hstart : StartsHead (head ++ '\x7b' :: rest))
      (hhead : IsHead head) (h : IsLexed rest tokens) :
      IsLexed (head ++ '\x7b' :: rest) (.opening head :: tokens)
  | statement {head rest : Text} {tokens : List Token} (hstart : StartsHead (head ++ ';' :: rest))
      (hhead : IsHead head) (h : IsLexed rest tokens) :
      IsLexed (head ++ ';' :: rest) (.statement head true :: tokens)
  | lastStatement {head rest : Text} {tokens : List Token} (hne : head ≠ [])
      (hstart : StartsHead (head ++ '\x7d' :: rest)) (hhead : IsHead head)
      (h : IsLexed ('\x7d' :: rest) tokens) :
      IsLexed (head ++ '\x7d' :: rest) (.statement head false :: tokens)
  | unfinished {head : Text} (hne : head ≠ []) (hstart : StartsHead head)
      (hunended : never ends {} head = true) : IsLexed head [.statement head false]
  | closing {rest : Text} {tokens : List Token} (h : IsLexed rest tokens) :
      IsLexed ('\x7d' :: rest) (.closing :: tokens)

/-- A comment is lexed if what follows it is. -/
theorem isLexed_comment {body : Text}
    (h : IsLexed (Token.cutComment body).2 (scan (Token.cutComment body).2)) :
    IsLexed ('/' :: '*' :: body)
      (.comment ('/' :: '*' :: (Token.cutComment body).1) :: scan (Token.cutComment body).2) := by
  have hbody := Token.cutComment_append body
  rcases Token.cutComment_cases body with ⟨inner, hinner, hfirst⟩ | hopen
  · have hclosed := isClosedComment_of_body hfirst
    rw [← hinner] at hclosed
    conv_lhs => rw [← hbody]
    exact .comment hclosed h
  · have hend := Token.cutComment_snd_of_open hopen
    rw [hend, List.append_nil] at hbody
    rw [hend, hbody, scan]
    rw [hbody] at hopen
    exact .openComment (by simpa [isOpenComment] using hopen)

/-- A statement or an opening brace is lexed if what follows it is. -/
theorem isLexed_statement {t : Text} (hne : t ≠ []) (hclosing : t.head? ≠ some '\x7d')
    (hstart : StartsHead t)
    (h : IsLexed (Token.cutStatement t).2 (scan (Token.cutStatement t).2)) :
    IsLexed t ((Token.cutStatement t).1 :: scan (Token.cutStatement t).2) := by
  have happend := Token.cutHead_append none t
  obtain ⟨hunended, hend⟩ := Token.never_ends_cutHead none t
  have hhead : ∀ stop rest, (Token.cutHead none t).2 = stop :: rest →
      IsHead (Token.cutHead none t).1 ∧ endsHead stop = true := by
    intro stop rest he
    rcases hend with hend | ⟨other, tail, hother, hends⟩
    · simp [hend] at he
    · obtain ⟨rfl, rfl⟩ := List.cons.inj (he.symm.trans hother)
      simp only [ends, Bool.and_eq_true, beq_iff_eq] at hends
      exact ⟨⟨hunended, hends.1⟩, hends.2⟩
  unfold Token.cutStatement at h ⊢
  generalize Token.cutHead none t = cut at happend hunended hend hhead h ⊢
  obtain ⟨head, tail⟩ := cut
  subst happend
  split at h
  · next he =>
    obtain ⟨rfl, rfl⟩ := Prod.mk.inj he
    exact .opening hstart (hhead _ _ rfl).1 h
  · next he =>
    obtain ⟨rfl, rfl⟩ := Prod.mk.inj he
    exact .statement hstart (hhead _ _ rfl).1 h
  · next hopening hended he =>
    obtain ⟨rfl, rfl⟩ := Prod.mk.inj he
    cases tail with
    | nil =>
      rw [List.append_nil] at hne hstart ⊢
      rw [scan]
      exact .unfinished hne hstart hunended
    | cons stop rest =>
      obtain ⟨hcomplete, hstop⟩ := hhead stop rest rfl
      -- What is neither an opening brace nor a semicolon is a closing brace.
      obtain rfl : stop = '\x7d' := by
        simp only [endsHead, Bool.or_eq_true, beq_iff_eq] at hstop
        rcases hstop with (rfl | rfl) | rfl
        · exact (hopening rest rfl).elim
        · exact (hended rest rfl).elim
        · rfl
      have hfilled : head ≠ [] := by
        rintro rfl
        exact hclosing rfl
      exact .lastStatement hfilled hstart hcomplete h

/-- Scanning finds the tokens of a text. -/
theorem isLexed_scan (t : Text) : IsLexed t (scan t) := by
  fun_induction scan t with
  | case1 => exact .nil
  | case2 c rest ih =>
    by_cases hspace : isSpace c = true
    · rw [Token.cut_of_space hspace] at ih ⊢
      have hrun : ∀ d ∈ c :: rest.takeWhile isSpace, isSpace d = true := by
        intro d hd
        rcases List.mem_cons.mp hd with rfl | hd
        · exact hspace
        · exact List.mem_takeWhile_imp hd
      have hlexed := IsLexed.space (List.cons_ne_nil c _) hrun (fun d => Text.head?_dropWhile) ih
      rwa [List.cons_append, List.takeWhile_append_dropWhile] at hlexed
    · by_cases hcomment : ['/', '*'].isPrefixOf (c :: rest) = true
      · obtain ⟨body, hbody⟩ := List.isPrefixOf_iff_prefix.mp hcomment
        obtain ⟨rfl, rfl⟩ := List.cons.inj hbody
        exact isLexed_comment ih
      · rw [Bool.not_eq_true] at hspace hcomment
        by_cases hclosing : c = '\x7d'
        · subst hclosing
          exact .closing ih
        · rw [Token.cut_eq_cutStatement hspace hcomment hclosing] at ih ⊢
          exact isLexed_statement (List.cons_ne_nil c rest) (by simpa using hclosing)
            ⟨by simpa using hspace, hcomment⟩ ih

/-- A text that starts a head is scanned from its cut on. -/
theorem scan_of_startsHead {t : Text} (hne : t ≠ []) (hstart : StartsHead t)
    (hclosing : t.head? ≠ some '\x7d') :
    scan t = (Token.cutStatement t).1 :: scan (Token.cutStatement t).2 := by
  obtain ⟨c, rest, rfl⟩ := List.exists_cons_of_ne_nil hne
  rw [scan, Token.cut_eq_cutStatement (hstart.no_space c rfl) hstart.no_comment
    (by simpa using hclosing)]

/-- What begins a head that ends at once or later is no closing brace, unless it is that end. -/
theorem head?_ne_closing {head rest : Text} {stop : Char} (h : never ends {} head = true)
    (hstop : head = [] → stop ≠ '\x7d') : (head ++ stop :: rest).head? ≠ some '\x7d' := by
  cases head with
  | nil => simpa using hstop rfl
  | cons c head =>
    rw [never, Bool.and_eq_true, ends_start] at h
    rintro he
    obtain rfl : c = '\x7d' := by simpa using he
    simp [endsHead] at h

/-- A text is lexed in one way only. -/
theorem IsLexed.scan_eq {t : Text} {tokens : List Token} (h : IsLexed t tokens) :
    scan t = tokens := by
  induction h with
  | nil => rw [scan]
  | @space run rest tokens hne hrun hrest h ih =>
    obtain ⟨c, run, rfl⟩ := List.exists_cons_of_ne_nil hne
    have hinner : ∀ d ∈ run, isSpace d = true := fun d hd => hrun d (List.mem_cons_of_mem c hd)
    have hbehind : rest.takeWhile isSpace = [] ∧ rest.dropWhile isSpace = rest := by
      cases rest with
      | nil => exact ⟨rfl, rfl⟩
      | cons d rest => simp [hrest d rfl]
    have hcut : Token.cut c (run ++ rest) = (.space (c :: run), rest) := by
      rw [Token.cut_of_space (hrun c List.mem_cons_self), List.takeWhile_append_of_pos hinner,
        List.dropWhile_append_of_pos hinner, hbehind.1, hbehind.2, List.append_nil]
    rw [List.cons_append, scan, hcut, ih]
  | @comment comment rest tokens hclosed h ih =>
    obtain ⟨body, rfl, hfirst⟩ := exists_of_isClosedComment hclosed
    have hcut := Token.cutComment_of_first hfirst rest
    rw [List.cons_append, List.cons_append, List.append_assoc, scan]
    simp only [Token.cut, isSpace, List.cons_append, List.nil_append, hcut]
    rw [← ih]
    rfl
  | @openComment comment hopen =>
    obtain ⟨body, rfl, hnone⟩ := exists_of_isOpenComment hopen
    have hcut : Token.cut '/' ('*' :: body) = (.comment ('/' :: '*' :: body), []) := by
      simp [Token.cut, isSpace, Token.cutComment_of_open hnone]
    rw [scan, hcut, scan]
  | @opening head rest tokens hstart hhead h ih =>
    have hcut := (Token.cutHead_of_never_ends hhead.unended).2 '\x7b' rest rfl hhead.complete
    rw [scan_of_startsHead (by simp) hstart (head?_ne_closing hhead.unended (by simp)),
      Token.cutStatement, hcut]
    simp only [ih]
  | @statement head rest tokens hstart hhead h ih =>
    have hcut := (Token.cutHead_of_never_ends hhead.unended).2 ';' rest rfl hhead.complete
    rw [scan_of_startsHead (by simp) hstart (head?_ne_closing hhead.unended (by simp)),
      Token.cutStatement, hcut]
    simp only [ih]
  | @lastStatement head rest tokens hne hstart hhead h ih =>
    have hcut := (Token.cutHead_of_never_ends hhead.unended).2 '\x7d' rest rfl hhead.complete
    rw [scan_of_startsHead (by simp) hstart (head?_ne_closing hhead.unended (absurd · hne)),
      Token.cutStatement, hcut]
    exact congrArg _ ih
  | @unfinished head hne hstart hunended =>
    have hclosing : head.head? ≠ some '\x7d' := by
      obtain ⟨c, rest, rfl⟩ := List.exists_cons_of_ne_nil hne
      exact @head?_ne_closing (c :: rest) [] ';' hunended (by simp)
    rw [scan_of_startsHead hne hstart hclosing, Token.cutStatement,
      (Token.cutHead_of_never_ends hunended).1]
    simp only [scan]
  | closing h ih =>
    rw [scan]
    exact congrArg _ ih

/-- Scanning finds the tokens of a text, and there are no others. -/
theorem isLexed_iff {t : Text} {tokens : List Token} : IsLexed t tokens ↔ scan t = tokens :=
  ⟨IsLexed.scan_eq, fun h => h ▸ isLexed_scan t⟩

end Grammar

end StyleModules
