import StyleModules.Proofs.Sheet.Norm
import StyleModules.Proofs.Text.Trim

/-!
# Closed texts

A text is closed if it can be read back from a sheet: put in front of what ends it, it is read as
far as it goes and no further. A comment is closed if the first end behind its opening delimiter is
its own. A statement is closed if a semicolon behind it ends it, a selector if a space and a brace
behind it do. Both are trimmed, so that reading leaves them as they are, and neither begins like a
comment.

What a closed text does to a reading does not depend on what stands behind it (`read_comment`,
`read_statement`, `read_opening`): this is all that reading a laid-out sheet needs to know about
tokens.
-/

namespace StyleModules

/-- The comment has an opening delimiter, and the first closing delimiter behind it is its end. -/
def isClosedComment : Text → Bool
  | '/' :: '*' :: rest =>
    ['*', '/'].isSuffixOf rest && !Text.occursIn ['*', '/'] rest.dropLast
  | _ => false

/-- A closed comment falls into its delimiters and a body that does not end it. -/
theorem exists_of_isClosedComment {comment : Text} (h : isClosedComment comment = true) :
    ∃ body, comment = '/' :: '*' :: (body ++ ['*', '/']) ∧
      Text.occursIn ['*', '/'] (body ++ ['*']) = false := by
  unfold isClosedComment at h
  split at h
  · rw [Bool.and_eq_true, List.isSuffixOf_iff_suffix, Bool.not_eq_true'] at h
    obtain ⟨⟨body, rfl⟩, hfirst⟩ := h
    rw [show (body ++ ['*', '/']).dropLast = body ++ ['*'] by
      rw [List.dropLast_append_of_ne_nil (by simp)]; rfl] at hfirst
    exact ⟨body, rfl, hfirst⟩
  · simp at h

/-- The text is read back if the gap and the stop stand behind it. -/
structure IsClosed (gap : Text) (stop : Char) (t : Text) : Prop where
  /-- There is something to read. -/
  ne_nil : t ≠ []
  /-- There are no blanks at either end. -/
  trimmed : Text.trim t = t
  /-- It does not begin like a comment. -/
  no_comment : ['/', '*'].isPrefixOf t = false
  /-- Its head ends at the stop and not before. -/
  reads_back : Token.cutHead none (t ++ gap ++ [stop]) = (t ++ gap, [stop])

instance (gap : Text) (stop : Char) (t : Text) : Decidable (IsClosed gap stop t) :=
  decidable_of_iff (t ≠ [] ∧ Text.trim t = t ∧ ['/', '*'].isPrefixOf t = false ∧
      Token.cutHead none (t ++ gap ++ [stop]) = (t ++ gap, [stop]))
    ⟨fun h => ⟨h.1, h.2.1, h.2.2.1, h.2.2.2⟩,
      fun h => ⟨h.ne_nil, h.trimmed, h.no_comment, h.reads_back⟩⟩

/-- The statement is read back if a semicolon stands behind it, which is not its own. -/
def ClosedStatement (t : Text) : Prop := IsClosed [] ';' t ∧ t.getLast? ≠ some ';'

/-- The selector is read back if a space and an opening brace stand behind it. -/
def ClosedSelector (t : Text) : Prop := IsClosed [' '] '\x7b' t

instance : DecidablePred ClosedStatement := fun _ => instDecidableAnd

instance : DecidablePred ClosedSelector := fun _ => inferInstanceAs (Decidable (IsClosed ..))

/-- What the scan takes for a space is a blank. -/
theorem isBlank_of_isSpace {c : Char} (h : isSpace c = true) : isBlank c = true := by
  simp only [isSpace, Bool.or_eq_true, beq_iff_eq] at h
  rcases h with (((rfl | rfl) | rfl) | rfl) | rfl <;> decide

namespace Token

/-- A comment is cut behind its first end, whatever stands there. -/
theorem cutComment_of_first {body : Text} (h : Text.occursIn ['*', '/'] (body ++ ['*']) = false)
    (rest : Text) : cutComment (body ++ '*' :: '/' :: rest) = (body ++ ['*', '/'], rest) := by
  induction body with
  | nil => rfl
  | cons c body ih =>
    rw [List.cons_append, Text.occursIn, Bool.or_eq_false_iff] at h
    -- The asterisk of the end proper is never taken for the start of an earlier end.
    have hnot : ∀ tail, ¬(c = '*' ∧ body ++ '*' :: '/' :: rest = '/' :: tail) := by
      rintro tail ⟨rfl, he⟩
      cases body with
      | nil => simp at he
      | cons d body =>
        rw [List.cons_append, List.cons.injEq] at he
        simp [he.1] at h
    rw [List.cons_append, cutComment, ih h.2]
    · rfl
    · intro tail hc he
      exact hnot tail ⟨hc, he⟩

/-- Where a head ends at a stop, more text behind the stop changes nothing. -/
theorem cutHead_append_right {quote : Option Char} {t rest : Text} {stop : Char}
    (h : (cutHead quote t).2 = stop :: rest) (more : Text) :
    cutHead quote (t ++ more) = ((cutHead quote t).1, stop :: rest ++ more) := by
  fun_induction cutHead quote t with
  | case1 => simp at h
  | case2 quote c t cut ih => rw [List.cons_append, List.cons_append, cutHead, ih h]
  | case3 quote c t hne cut ih =>
    rw [List.cons_append, cutHead, ih h]
    intro d tail hc he
    cases t with
    | nil => simp [cut, cutHead] at h
    | cons e t => exact hne e t hc rfl
  | case4 c t hne hends =>
    rw [← h, List.cons_append, cutHead, if_pos hends]
    intro d tail hc _
    simp [hc, endsHead] at hends
  | case5 c t hne hends cut ih =>
    rw [List.cons_append, cutHead, if_neg hends, ih h]
    intro d tail hc he
    cases t with
    | nil => simp [cut, cutHead] at h
    | cons e t => exact hne e t hc rfl

end Token

/-- Text put behind does not make a text begin like a comment unless it starts with an asterisk. -/
theorem isPrefixOf_delimiter_append {t tail : Text} (ht : ['/', '*'].isPrefixOf t = false)
    (hn : t ≠ []) (hs : tail.head? ≠ some '*') : ['/', '*'].isPrefixOf (t ++ tail) = false := by
  cases t with
  | nil => exact absurd rfl hn
  | cons c t =>
    cases t with
    | nil =>
      cases tail with
      | nil => simp [List.isPrefixOf]
      | cons e tail =>
        have he : '*' ≠ e := fun he => hs (congrArg some he.symm)
        simp [List.isPrefixOf, he]
    | cons d t => simpa [List.isPrefixOf] using ht

/-- A text that is neither space, comment nor closing brace begins with a statement. -/
theorem Token.cut_eq_cutStatement {c : Char} {rest : Text} (hs : isSpace c = false)
    (hc : ['/', '*'].isPrefixOf (c :: rest) = false) (hb : c ≠ '\x7d') :
    Token.cut c rest = Token.cutStatement (c :: rest) := by
  unfold Token.cut
  rw [if_neg (by simp [hs])]
  split
  · simp [List.isPrefixOf] at hc
  · exact absurd rfl hb
  · rfl

namespace Reading

/-- Read a text from where a reading stands. -/
def read (state : Reading) (t : Text) : Reading := (scan t).foldl Reading.step state

/-- A text is parsed by reading it from the start and closing what is open. -/
theorem parse_eq_finish_read (t : Text) : parse t = (read {} t).finish := rfl

/-- Reading nothing leaves the state. -/
@[simp] theorem read_nil (state : Reading) : state.read [] = state := by
  rw [read, scan, List.foldl_nil]

/-- A text is read token by token. -/
theorem read_cons (state : Reading) (c : Char) (rest : Text) :
    state.read (c :: rest) = (state.step (Token.cut c rest).1).read (Token.cut c rest).2 := by
  rw [read, scan, List.foldl_cons, read]

/-- A run of spaces is passed over. -/
theorem read_cons_space (state : Reading) {c : Char} (h : isSpace c = true) (t : Text) :
    state.read (c :: t) = state.read (t.dropWhile isSpace) := by
  have hcut : Token.cut c t = (.space (c :: t.takeWhile isSpace), t.dropWhile isSpace) := by
    unfold Token.cut
    rw [if_pos h]
  rw [read_cons, hcut]
  rfl

/-- A space in front makes no difference to a reading. -/
theorem read_space (state : Reading) {c : Char} (h : isSpace c = true) (t : Text) :
    state.read (c :: t) = state.read t := by
  rw [read_cons_space state h]
  cases t with
  | nil => rfl
  | cons d t =>
    by_cases hd : isSpace d = true
    · rw [List.dropWhile_cons_of_pos hd, read_cons_space state hd]
    · rw [List.dropWhile_cons_of_neg hd]

/-- Spaces before a text are passed over. -/
theorem read_spaces (state : Reading) {run : Text} (h : ∀ c ∈ run, isSpace c = true) (t : Text) :
    state.read (run ++ t) = state.read t := by
  induction run with
  | nil => rfl
  | cons c run ih =>
    rw [List.cons_append, read_space state (h c List.mem_cons_self)]
    exact ih fun d hd => h d (List.mem_cons_of_mem c hd)

/-- Comments that start to wait behind those that wait already. -/
def wait (state : Reading) (comments : List Text) : Reading :=
  { state with pending := state.pending ++ comments }

/-- A closed comment waits for a statement. -/
theorem read_comment (state : Reading) {comment : Text} (h : isClosedComment comment = true)
    (t : Text) : state.read (comment ++ t) = (state.wait [comment]).read t := by
  obtain ⟨body, rfl, hfirst⟩ := exists_of_isClosedComment h
  have hcut := Token.cutComment_of_first hfirst t
  rw [List.cons_append, List.cons_append, List.append_assoc, read_cons]
  simp only [Token.cut, isSpace, List.cons_append, List.nil_append, hcut]
  rfl

/-- A closed text is cut off with the gap and the stop behind it. -/
theorem read_closed (state : Reading) {gap : Text} {stop : Char} {t : Text}
    (h : IsClosed gap stop t) (hg : (gap ++ [stop]).head? ≠ some '*') (rest : Text) :
    state.read (t ++ gap ++ stop :: rest) =
      (state.step (Token.cutStatement (t ++ gap ++ stop :: rest)).1).read
        (Token.cutStatement (t ++ gap ++ stop :: rest)).2 ∧
      Token.cutHead none (t ++ gap ++ stop :: rest) = (t ++ gap, stop :: rest) := by
  have hcut := Token.cutHead_append_right (congrArg Prod.snd h.reads_back) rest
  rw [h.reads_back, List.append_assoc (t ++ gap), List.singleton_append] at hcut
  refine ⟨?_, hcut⟩
  obtain ⟨c, u, rfl⟩ := List.exists_cons_of_ne_nil h.ne_nil
  have hblank : isBlank c = false := ((Text.trim_eq_self_iff _).mp h.trimmed).1 c rfl
  have hspace : isSpace c = false := by
    cases hs : isSpace c with
    | false => rfl
    | true =>
      rw [isBlank_of_isSpace hs] at hblank
      cases hblank
  have hcomment : ['/', '*'].isPrefixOf (c :: u ++ (gap ++ stop :: rest)) = false := by
    apply isPrefixOf_delimiter_append h.no_comment h.ne_nil
    cases gap <;> simpa using hg
  have hbrace : c ≠ '\x7d' := by
    rintro rfl
    simp [Token.cutHead, endsHead] at hcut
  rw [← List.append_assoc] at hcomment
  simp only [List.cons_append] at hcomment ⊢
  rw [read_cons, Token.cut_eq_cutStatement hspace hcomment hbrace]

/-- A closed statement with its semicolon is added. -/
theorem read_statement (state : Reading) {t : Text} (h : ClosedStatement t) (rest : Text) :
    state.read (t ++ ';' :: rest) = (state.addStatement t).read rest := by
  obtain ⟨hread, hcut⟩ := read_closed state h.1 (by simp) rest
  rw [List.append_nil] at hread hcut
  rw [hread, Token.cutStatement, hcut]
  rfl

/-- A closed selector with its brace opens a block. -/
theorem read_opening (state : Reading) {t : Text} (h : ClosedSelector t) (rest : Text) :
    state.read (t ++ ' ' :: '\x7b' :: rest) = (state.openBlock (t ++ [' '])).read rest := by
  obtain ⟨hread, hcut⟩ := read_closed state h (by simp) rest
  rw [List.append_assoc, List.singleton_append] at hread hcut
  rw [hread, Token.cutStatement, hcut]
  rfl

/-- A closing brace closes a block. -/
theorem read_closing (state : Reading) (rest : Text) :
    state.read ('\x7d' :: rest) = state.closeBlock.read rest := by
  rw [read_cons]
  rfl

end Reading

end StyleModules
