import StyleModules.Proofs.Layout.Canonical
import StyleModules.Proofs.Layout.Ordinary
import StyleModules.Proofs.Sheet.Outline

/-!
# Heads with quotes and escapes

Laying out a head takes blanks and semicolons from its ends, and changes the blanks around a colon.
In a quote a blank counts for nothing unless it is a line feed, and outside a quote it counts only
if it is escaped. So a head whose quotes are all closed on their lines is still a head when it is
laid out, but for one thing: where the layout takes an escaped character from its end, the backslash
that is left escapes the semicolon behind it (`SoundHead.closedStatement`). A selector has a space
put behind it, which can be escaped without harm (`SoundHead.closedSelector`).
-/

namespace StyleModules

/-- The text ends in a backslash that is not escaped itself. -/
def endsInEscape (t : Text) : Bool := (t.reverse.takeWhile (· == '\\')).length % 2 == 1

/-- A text ends in an escape if its last character is a backslash that is not escaped itself. -/
theorem endsInEscape_concat (t : Text) (c : Char) :
    endsInEscape (t ++ [c]) = (c == '\\' && !endsInEscape t) := by
  rw [endsInEscape, endsInEscape, List.reverse_append, List.reverse_singleton,
    List.singleton_append, List.takeWhile_cons]
  cases hc : c == '\\' with
  | false => rfl
  | true =>
    simp only [if_true, List.length_cons, Bool.true_and]
    rw [Bool.eq_iff_iff]
    simp only [beq_iff_eq, Bool.not_eq_true', beq_eq_false_iff_ne]
    omega

/-- What stands before a character other than a backslash has no part in an escape at the end. -/
theorem endsInEscape_append_cons {c : Char} (hc : c ≠ '\\') (t rest : Text) :
    endsInEscape (t ++ c :: rest) = endsInEscape rest := by
  have hstop : (c == '\\') = false := beq_false_of_ne hc
  induction rest using List.reverseRecOn with
  | nil =>
    rw [endsInEscape_concat, hstop]
    rfl
  | append_singleton rest d ih =>
    rw [← List.cons_append, ← List.append_assoc, endsInEscape_concat, ih, endsInEscape_concat]

namespace HeadState

/-- The character ends a quote that is not closed: it is a line feed that is not escaped. -/
def breaks (state : HeadState) (c : Char) : Bool :=
  state.quote.isSome && !state.escaped && c == '\n'

/-- An open quote was opened by a quote. -/
def Proper (state : HeadState) : Prop := ∀ quote ∈ state.quote, isQuote quote = true

/-- A head starts in a proper state. -/
theorem proper_start : Proper {} := by simp [Proper]

/-- A proper state is followed by a proper one. -/
theorem Proper.next {state : HeadState} (h : state.Proper) (c : Char) : (state.next c).Proper := by
  obtain ⟨quote, escaped⟩ := state
  cases escaped with
  | true => exact h
  | false =>
    by_cases hc : c = '\\'
    · subst hc
      exact h
    · intro other ho
      cases quote with
      | none =>
        rw [next_unquoted hc] at ho
        by_cases hquote : isQuote c = true
        · rw [if_pos hquote] at ho
          rwa [Option.mem_some.mp ho] at hquote
        · simp [if_neg hquote] at ho
      | some quote =>
        rw [next_quoted hc] at ho
        by_cases hends : (c == quote || c == '\n') = true
        · rw [if_pos hends] at ho
          cases ho
        · rw [if_neg hends] at ho
          exact h other ho

/-- A proper state stays proper along a text. -/
theorem Proper.after {state : HeadState} (h : state.Proper) (t : Text) :
    (state.after t).Proper := by
  induction t generalizing state with
  | nil => exact h
  | cons c t ih => exact ih (h.next c)

/-- A text leaves a backslash waiting exactly when it ends in an escape. -/
theorem escaped_after {state : HeadState} (h : state.escaped = false) (t : Text) :
    (state.after t).escaped = endsInEscape t := by
  induction t using List.reverseRecOn with
  | nil => exact h
  | append_singleton t c ih =>
    rw [after_append, endsInEscape_concat, ← ih]
    generalize state.after t = middle
    obtain ⟨quote, escaped⟩ := middle
    show (next ⟨quote, escaped⟩ c).escaped = _
    cases escaped with
    | true => simp
    | false =>
      by_cases hc : c = '\\'
      · subst hc
        rfl
      · have hstop : (c == '\\') = false := beq_false_of_ne hc
        cases quote with
        | none => rw [next_unquoted hc, hstop]; rfl
        | some quote => rw [next_quoted hc, hstop]; rfl

/-- Behind a text that leaves no quote open and no backslash waiting, all is as at the start. -/
theorem after_eq_start {t : Text} (hquote : (after {} t).quote = none)
    (hescape : endsInEscape t = false) : after {} t = {} := by
  have hescaped := @escaped_after {} rfl t
  rw [hescape] at hescaped
  generalize after {} t = state at hquote hescaped
  obtain ⟨quote, escaped⟩ := state
  obtain rfl : quote = none := hquote
  obtain rfl : escaped = false := hescaped
  rfl

/-- The character neither begins an escape nor opens or closes a quote, line feeds apart. -/
def isInert (c : Char) : Bool := c != '\\' && !isQuote c

/-- A blank is inert. -/
theorem isInert_of_isBlank {c : Char} (h : isBlank c = true) : isInert c = true := by
  simp only [isInert, isQuote, Bool.and_eq_true, bne_iff_ne, ne_eq, Bool.not_eq_true',
    Bool.or_eq_false_iff, beq_eq_false_iff_ne]
  refine ⟨?_, ?_, ?_⟩ <;> rintro rfl <;> revert h <;> decide

/-- An inert character changes nothing but that a backslash no longer waits. -/
theorem next_of_inert {state : HeadState} (hs : state.Proper) {c : Char} (hc : isInert c = true)
    (hbreaks : state.breaks c = false) : state.next c = ⟨state.quote, false⟩ := by
  simp only [isInert, Bool.and_eq_true, bne_iff_ne, ne_eq, Bool.not_eq_true'] at hc
  obtain ⟨hescape, hquote⟩ := hc
  obtain ⟨quote, escaped⟩ := state
  cases escaped with
  | true => rfl
  | false =>
    cases quote with
    | none => rw [next_unquoted hescape, hquote, if_neg (by simp)]
    | some quote =>
      have hline : (c == '\n') = false := by simpa [breaks] using hbreaks
      have hother : (c == quote) = false := by
        refine beq_false_of_ne ?_
        rintro rfl
        rw [hs c rfl] at hquote
        cases hquote
      rw [next_quoted hescape, hline, hother, if_neg (by simp)]

/-- So does a run of them. -/
theorem after_of_inert {state : HeadState} (hs : state.Proper) {run : Text} (hne : run ≠ [])
    (hrun : ∀ c ∈ run, isInert c = true) (hbreaks : never breaks state run = true) :
    state.after run = ⟨state.quote, false⟩ := by
  induction run generalizing state with
  | nil => exact absurd rfl hne
  | cons c run ih =>
    rw [never, Bool.and_eq_true, Bool.not_eq_true'] at hbreaks
    have hnext := next_of_inert hs (hrun c List.mem_cons_self) hbreaks.1
    rw [after_cons]
    cases run with
    | nil => exact hnext
    | cons d run =>
      rw [ih (hs.next c) (by simp) (fun e he => hrun e (List.mem_cons_of_mem c he)) hbreaks.2,
        hnext]

/-- Inert characters that break no quote leave it open or closed. -/
theorem quote_after_of_inert {state : HeadState} (hs : state.Proper) {run : Text}
    (hrun : ∀ c ∈ run, isInert c = true) (hbreaks : never breaks state run = true) :
    (state.after run).quote = state.quote := by
  by_cases hne : run = []
  · rw [hne, after_nil]
  · rw [after_of_inert hs hne hrun hbreaks]

/-- No character of the text ends a head, whatever the state. -/
theorem never_ends_of_not_endsHead {t : Text} (h : ∀ c ∈ t, endsHead c = false)
    (state : HeadState) : never ends state t = true := by
  induction t generalizing state with
  | nil => rfl
  | cons c t ih =>
    rw [never, ih fun d hd => h d (List.mem_cons_of_mem c hd), ends, h c List.mem_cons_self,
      Bool.and_false]
    rfl

/-- Outside quotes, inert characters that do not end a head are none that could. -/
theorem not_endsHead_of_never_ends {run : Text} (hrun : ∀ c ∈ run, isInert c = true)
    (h : never ends {} run = true) : ∀ c ∈ run, endsHead c = false := by
  induction run with
  | nil => simp
  | cons c run ih =>
    have hnext : next {} c = {} := next_of_inert proper_start (hrun c List.mem_cons_self) rfl
    rw [never, Bool.and_eq_true, ends_start, Bool.not_eq_true', hnext] at h
    intro d hd
    rcases List.mem_cons.mp hd with rfl | hd
    · exact h.1
    · exact ih (fun e he => hrun e (List.mem_cons_of_mem c he)) h.2 d hd

/-- No character of the text is a line feed, so none breaks a quote. -/
theorem never_breaks_of_no_newline {t : Text} (h : '\n' ∉ t) (state : HeadState) :
    never breaks state t = true := by
  induction t generalizing state with
  | nil => rfl
  | cons c t ih =>
    have hc : (c == '\n') = false := beq_false_of_ne fun he => h (he ▸ List.mem_cons_self)
    rw [never, ih fun hm => h (List.mem_cons_of_mem c hm), breaks, hc, Bool.and_false]
    rfl

end HeadState

open HeadState

/-- One run of inert characters in a head can be exchanged for another. -/
theorem IsHead.exchange {front run other back : Text} (h : IsHead (front ++ run ++ back))
    (hne : run ≠ []) (hrun : ∀ c ∈ run, isInert c = true)
    (hbreaks : never breaks {} (front ++ run ++ back) = true) (hother : other ≠ [])
    (hinert : ∀ c ∈ other, isInert c = true) (hline : '\n' ∉ other)
    (hends : ∀ c ∈ other, endsHead c = false) : IsHead (front ++ other ++ back) := by
  obtain ⟨hunended, hcomplete⟩ := h
  have hproper := proper_start.after front
  simp only [never_append, Bool.and_eq_true, after_append] at hunended hbreaks hcomplete
  have hsame : (after {} front).after other = (after {} front).after run := by
    rw [after_of_inert hproper hne hrun hbreaks.1.2,
      after_of_inert hproper hother hinert (never_breaks_of_no_newline hline _)]
  constructor
  · simp only [never_append, Bool.and_eq_true, after_append]
    rw [hsame]
    exact ⟨⟨hunended.1.1, never_ends_of_not_endsHead hends _⟩, hunended.2⟩
  · rw [after_append, after_append, hsame, hcomplete]

/-- A trimmed text that is no comment is closed if it is a head together with the gap. -/
theorem IsClosed.of_isHead {gap : Text} {stop : Char} {t : Text} (hn : t ≠ [])
    (ht : Text.trim t = t) (hc : ['/', '*'].isPrefixOf t = false) (hhead : IsHead (t ++ gap))
    (hstop : endsHead stop = true) : IsClosed gap stop t where
  ne_nil := hn
  trimmed := ht
  no_comment := hc
  reads_back := (Token.cutHead_of_never_ends hhead.unended).2 stop [] hstop hhead.complete

/-- A declaration and what is written for it differ in the run around the colon. -/
theorem exists_normaliseDeclaration {t : Text} (ht : Text.trim t = t) (hcolon : ':' ∈ t) :
    ∃ property run space value, t = property ++ run ++ value ∧
      run.filter (!isBlank ·) = [':'] ∧
      normaliseDeclaration t = property ++ (':' :: space) ++ value ∧
      (space = [] ∨ space = [' ']) := by
  have hsplit := Text.before_append_after hcolon
  obtain ⟨hfirst, hlast⟩ := (Text.trim_eq_self_iff t).mp ht
  obtain ⟨gap, hbefore, hgap⟩ := @Text.exists_trim_append (Text.before ':' t) fun c hc =>
    hfirst c (head?_of_isPrefix (List.takeWhile_prefix _) hc)
  obtain ⟨lead, hafter, hlead⟩ := @Text.exists_append_trim (Text.after ':' t) fun c hc => by
    apply hlast c
    rw [← hsplit, List.getLast?_append_cons, List.getLast?_cons, Option.mem_def.mp hc]
    rfl
  rw [hbefore, hafter] at hsplit
  refine ⟨Text.trim (Text.before ':' t), gap ++ ':' :: lead,
    if Text.trim (Text.after ':' t) = [] then [] else [' '], Text.trim (Text.after ':' t), ?_, ?_,
    ?_, ?_⟩
  · conv_lhs => rw [← hsplit]
    simp
  · have hnone : ∀ blanks : Text, blanks.all isBlank = true →
        blanks.filter (!isBlank ·) = [] := by
      intro blanks hall
      rw [List.filter_eq_nil_iff]
      intro c hm
      simp [List.all_eq_true.mp hall c hm]
    rw [List.filter_append, hnone gap hgap, List.filter_cons_of_pos (by decide),
      hnone lead hlead]
    rfl
  · rw [normaliseDeclaration_eq]
    split
    · next hvalue => simp [hvalue]
    · simp
  · split
    · exact Or.inl rfl
    · exact Or.inr rfl

/-- A head as it stands between separators, with all its quotes closed on their lines. -/
structure SoundHead (head : Text) : Prop extends IsHead head where
  /-- No quote is ended by a line feed. -/
  unbroken : never breaks {} head = true
  /-- It does not begin like a comment. -/
  no_comment : ['/', '*'].isPrefixOf head = false
  /-- It does not begin with a blank. -/
  start : ∀ c ∈ head.head?, isBlank c = false

namespace SoundHead

variable {head : Text}

/-- No quote is open where only inert characters are left. -/
theorem quote_after {t rest : Text} (h : SoundHead (t ++ rest))
    (hrest : ∀ c ∈ rest, isInert c = true) : (after {} t).quote = none := by
  have hbreaks := h.unbroken
  have hcomplete := h.complete
  rw [never_append, Bool.and_eq_true] at hbreaks
  rw [after_append] at hcomplete
  rw [← quote_after_of_inert (proper_start.after t) hrest hbreaks.2, hcomplete]

/-- A sound head is one without the inert characters at its end, unless they are escaped. -/
theorem isHead_of_append {t rest : Text} (h : SoundHead (t ++ rest))
    (hrest : ∀ c ∈ rest, isInert c = true) (hescape : endsInEscape t = false) : IsHead t := by
  have hunended := h.unended
  rw [never_append, Bool.and_eq_true] at hunended
  exact ⟨hunended.1, after_eq_start (h.quote_after hrest) hescape⟩

/-- A selector can be read back. -/
theorem closedSelector (h : SoundHead head) (hn : Text.trim head ≠ []) :
    ClosedSelector (Text.trim head) := by
  obtain ⟨blanks, hhead, hblanks⟩ := Text.exists_trim_append h.start
  have hsound : SoundHead (Text.trim head ++ blanks) := hhead ▸ h
  have hquote := hsound.quote_after fun c hc =>
    isInert_of_isBlank (List.all_eq_true.mp hblanks c hc)
  have hunended := hsound.unended
  rw [never_append, Bool.and_eq_true] at hunended
  have hspaced : IsHead (Text.trim head ++ [' ']) := by
    constructor
    · rw [never_append, hunended.1]
      exact never_ends_of_not_endsHead (by simp [endsHead]) _
    · rw [after_append, after_of_inert (proper_start.after _) (by simp)
        (by simp [isInert, isQuote]) (never_breaks_of_no_newline (by simp) _), hquote]
  exact IsClosed.of_isHead hn (Text.trim_trim head)
    (not_delimiter_of_isPrefix (trim_isPrefix h.start) h.no_comment) hspaced rfl

/-- If no escape is broken, cleaning a statement does no more than trimming, and leaves a head. -/
theorem isHead_cleanStatement (h : SoundHead head)
    (hescape : endsInEscape (cleanStatement head) = false) :
    IsHead (cleanStatement head) ∧ cleanStatement head = Text.trim head := by
  obtain ⟨front, rest, hhead, hfront, hrest⟩ := exists_cleanStatement head
  have hfrontNil : front = [] := by
    cases front with
    | nil => rfl
    | cons c front =>
      have hblank := List.all_eq_true.mp hfront c List.mem_cons_self
      rw [h.start c (by rw [hhead]; rfl)] at hblank
      cases hblank
  rw [hfrontNil, List.nil_append] at hhead
  have hsound : SoundHead (cleanStatement head ++ rest) := hhead ▸ h
  have hinert : ∀ c ∈ rest, isInert c = true := by
    intro c hc
    rcases hrest c hc with hblank | rfl
    · exact isInert_of_isBlank hblank
    · decide
  have hclean := hsound.isHead_of_append hinert hescape
  refine ⟨hclean, ?_⟩
  -- A semicolon behind the cleaned statement would have ended the head there.
  have hunended := hsound.unended
  rw [never_append, Bool.and_eq_true, hclean.complete] at hunended
  have hblanks : rest.all isBlank = true := by
    rw [List.all_eq_true]
    intro c hc
    rcases hrest c hc with hblank | rfl
    · exact hblank
    · exact absurd (not_endsHead_of_never_ends hinert hunended.2 ';' hc) (by decide)
  conv_rhs => rw [hhead, Text.trim_append_blank hblanks, trim_cleanStatement]

/-- If no escape is broken, what is written for a statement is a head that does not end in a
semicolon. -/
theorem isHead_laidText (h : SoundHead head)
    (hescape : endsInEscape (cleanStatement head) = false) :
    IsHead (laidText head) ∧ (laidText head).getLast? ≠ some ';' := by
  obtain ⟨hclean, htrim⟩ := h.isHead_cleanStatement hescape
  have hlast := getLast?_cleanStatement htrim
  cases hd : (Node.ofStatement head []).isDeclaration with
  | false =>
    rw [laidText_of_not_declaration hd]
    exact ⟨hclean, hlast⟩
  | true =>
    have hcolon := (colon_mem_cleanStatement head).mpr
      ((isDeclaration_ofStatement head []).mp hd).1
    obtain ⟨property, run, space, value, hsplit, hrun, hlaid, hspace⟩ :=
      exists_normaliseDeclaration (trim_cleanStatement head) hcolon
    have hunbroken : never breaks {} (cleanStatement head) = true := by
      obtain ⟨rest, hrest⟩ := (cleanStatement_isPrefix head).trans (trim_isPrefix h.start)
      have hall := h.unbroken
      rw [← hrest, never_append, Bool.and_eq_true] at hall
      exact hall.1
    have hinert : ∀ c ∈ run, isInert c = true := by
      intro c hc
      by_cases hblank : isBlank c = true
      · exact isInert_of_isBlank hblank
      · have hkept : c ∈ run.filter (!isBlank ·) := List.mem_filter.mpr ⟨hc, by simpa using hblank⟩
        rw [hrun, List.mem_singleton] at hkept
        rw [hkept]
        decide
    have hne : run ≠ [] := by
      rintro rfl
      cases hrun
    rw [laidText_of_declaration hd, hlaid]
    rw [hsplit] at hclean hlast hunbroken
    constructor
    · rcases hspace with rfl | rfl <;>
        exact hclean.exchange hne hinert hunbroken (by simp) (by simp [isInert, isQuote])
          (by simp) (by simp [endsHead])
    · cases value with
      | nil => rcases hspace with rfl | rfl <;> simp
      | cons c value =>
        rw [List.getLast?_append_cons] at hlast ⊢
        exact hlast

/-- If no escape is broken, a statement can be read back. -/
theorem closedStatement (h : SoundHead head) (hn : Text.trim head ≠ [])
    (hescape : endsInEscape (cleanStatement head) = false) : ClosedStatement (laidText head) := by
  obtain ⟨hhead, hlast⟩ := h.isHead_laidText hescape
  have htrim := (h.isHead_cleanStatement hescape).2
  have hne : laidText head ≠ [] := laidText_ne_nil (by rwa [htrim])
  refine ⟨IsClosed.of_isHead hne (trim_laidText head)
    (no_comment_laidText (not_delimiter_of_isPrefix (trim_isPrefix h.start) h.no_comment))
    ?_ rfl, hlast⟩
  rwa [List.append_nil]

end SoundHead

section Scan

/-- A head begins where a head may, and nothing in it ends it. It is complete, unless it is the end
of the text: then it ends in an escape if the text does. -/
theorem IsLexed.head_of_mem {t : Text} {tokens : List Token} (h : IsLexed t tokens) {token : Token}
    (hm : token ∈ tokens) {head : Text} (hhead : token.head? = some head) :
    (∃ more, StartsHead (head ++ more)) ∧ never ends {} head = true ∧
      (after {} head = {} ∨ endsInEscape head = endsInEscape t) := by
  -- Whatever stands before the rest of a text ends in another character than a backslash.
  have hlater : ∀ {front rest : Text} {c : Char}, c ≠ '\\' →
      after {} head = {} ∨ endsInEscape head = endsInEscape rest →
      after {} head = {} ∨ endsInEscape head = endsInEscape (front ++ c :: rest) := by
    intro front rest c hc hrest
    rwa [endsInEscape_append_cons hc]
  induction h with
  | nil => simp at hm
  | @space run rest tokens hne hrun hrest h ih =>
    rcases List.mem_cons.mp hm with rfl | hm
    · simp [Token.head?] at hhead
    · obtain ⟨hstart, hunended, hend⟩ := ih hm
      refine ⟨hstart, hunended, ?_⟩
      cases run using List.reverseRecOn with
      | nil => exact absurd rfl hne
      | append_singleton run c =>
        have hc : c ≠ '\\' := by
          rintro rfl
          exact absurd (hrun '\\' (by simp)) (by decide)
        rw [List.append_assoc, List.singleton_append]
        exact hlater hc hend
  | @comment comment rest tokens hclosed h ih =>
    rcases List.mem_cons.mp hm with rfl | hm
    · simp [Token.head?] at hhead
    · obtain ⟨hstart, hunended, hend⟩ := ih hm
      obtain ⟨body, rfl, _⟩ := exists_of_isClosedComment hclosed
      refine ⟨hstart, hunended, ?_⟩
      have hslash := @hlater ('/' :: '*' :: (body ++ ['*'])) rest '/' (by decide) hend
      simpa using hslash
  | openComment hopen =>
    rw [List.mem_singleton.mp hm] at hhead
    simp [Token.head?] at hhead
  | opening hstart hcomplete h ih =>
    rcases List.mem_cons.mp hm with rfl | hm
    · obtain rfl := Option.some.inj hhead
      exact ⟨⟨_, hstart⟩, hcomplete.unended, Or.inl hcomplete.complete⟩
    · obtain ⟨hinner, hunended, hend⟩ := ih hm
      exact ⟨hinner, hunended, hlater (by decide) hend⟩
  | statement hstart hcomplete h ih =>
    rcases List.mem_cons.mp hm with rfl | hm
    · obtain rfl := Option.some.inj hhead
      exact ⟨⟨_, hstart⟩, hcomplete.unended, Or.inl hcomplete.complete⟩
    · obtain ⟨hinner, hunended, hend⟩ := ih hm
      exact ⟨hinner, hunended, hlater (by decide) hend⟩
  | @lastStatement _ rest _ hne hstart hcomplete h ih =>
    rcases List.mem_cons.mp hm with rfl | hm
    · obtain rfl := Option.some.inj hhead
      exact ⟨⟨_, hstart⟩, hcomplete.unended, Or.inl hcomplete.complete⟩
    · obtain ⟨hinner, hunended, hend⟩ := ih hm
      have hbrace : endsInEscape ('\x7d' :: rest) = endsInEscape rest :=
        endsInEscape_append_cons (by decide) [] rest
      rw [hbrace] at hend
      exact ⟨hinner, hunended, hlater (by decide) hend⟩
  | unfinished hne hstart hunended =>
    rw [List.mem_singleton.mp hm] at hhead
    obtain rfl := Option.some.inj hhead
    refine ⟨⟨[], by rwa [List.append_nil]⟩, hunended, Or.inr rfl⟩
  | @closing rest tokens h ih =>
    rcases List.mem_cons.mp hm with rfl | hm
    · simp [Token.head?] at hhead
    · obtain ⟨hinner, hunended, hend⟩ := ih hm
      exact ⟨hinner, hunended, @hlater [] rest '\x7d' (by decide) hend⟩

/-- Nothing in the text is left open, and its blanks are those that stand between statements. -/
structure Finished (css : Text) : Prop where
  /-- Every comment has its end. -/
  comments : ∀ token ∈ scan css, ∀ text ∈ token.comment?, isClosedComment text = true
  /-- No quote is ended by a line feed or by the end of the text. -/
  quotes : ∀ token ∈ scan css, ∀ head ∈ token.head?,
    never breaks {} head = true ∧ (after {} head).quote = none
  /-- The text does not end in a backslash that escapes nothing. -/
  escape : endsInEscape css = false
  /-- Every blank is a space. -/
  blanks : ∀ c ∈ css, isBlank c = true → isSpace c = true

instance (css : Text) : Decidable (Finished css) :=
  decidable_of_iff ((∀ token ∈ scan css, ∀ text ∈ token.comment?, isClosedComment text = true) ∧
      (∀ token ∈ scan css, ∀ head ∈ token.head?,
        never breaks {} head = true ∧ (after {} head).quote = none) ∧
      endsInEscape css = false ∧ css.all (fun c => !isBlank c || isSpace c) = true)
    ⟨fun h => ⟨h.1, h.2.1, h.2.2.1, fun c hc hblank => by
        simpa [hblank] using List.all_eq_true.mp h.2.2.2 c hc⟩,
      fun h => ⟨h.comments, h.quotes, h.escape, List.all_eq_true.mpr fun c hc => by
        cases hblank : isBlank c with
        | false => rfl
        | true => exact h.blanks c hc hblank⟩⟩

/-- The heads of such a text are sound. -/
theorem Finished.soundHead {css : Text} (h : Finished css) {token : Token} (hm : token ∈ scan css)
    {head : Text} (hhead : token.head? = some head) : SoundHead head := by
  obtain ⟨⟨more, hstart⟩, hunended, hend⟩ := (isLexed_scan css).head_of_mem hm hhead
  obtain ⟨hunbroken, hquote⟩ := h.quotes token hm head hhead
  have hbegins : head <+: head ++ more := List.prefix_append head more
  have hcomplete : after {} head = {} := by
    rcases hend with hend | hend
    · exact hend
    · exact after_eq_start hquote (hend.trans h.escape)
  refine ⟨⟨hunended, hcomplete⟩, hunbroken, not_delimiter_of_isPrefix hbegins hstart.no_comment,
    fun c hc => ?_⟩
  have hspace := hstart.no_space c (head?_of_isPrefix hbegins hc)
  have hcss : c ∈ css := mem_of_mem_token hm (Token.mem_text_of_head? hhead (List.mem_of_mem_head? hc))
  cases hblank : isBlank c with
  | false => rfl
  | true =>
    rw [h.blanks c hcss hblank] at hspace
    cases hspace

end Scan

end StyleModules
