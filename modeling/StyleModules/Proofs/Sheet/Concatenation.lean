import StyleModules.Proofs.Sheet.Outline

/-!
# Texts one after the other

A text is complete if no brace is open at its end, the end cuts no head off, and every comment is
closed. What stands behind a complete text is read as if it stood alone: the only trace that the
complete text leaves there are the comments that still wait for a node. So the tree of two texts,
of which the first is complete, is made of their two trees (`parse_append`).

A reading of the two texts reads the first and goes on with the second (`Reading.read_append`),
since a token of a complete text ends where it ends, whatever follows. Behind the complete text the
reading stands in the sheet itself, and from there reading by descent says what becomes of the
second text.
-/

namespace StyleModules

/-- The token is a statement without a semicolon: a closing brace or the end of the text ends it. -/
def Token.isUnended : Token → Bool
  | .statement _ false => true
  | _ => false

/-- Nothing is left open at the end of the text. -/
structure IsComplete (t : Text) : Prop where
  /-- No brace is open at the end. A closing brace with nothing to close is ignored. -/
  braces : (scan t).foldl braceStep [] = []
  /-- The end cuts no head off. -/
  heads : ∀ token ∈ (scan t).getLast?, token.isUnended = false
  /-- Every comment is closed. -/
  comments : ∀ comment ∈ (scan t).filterMap Token.comment?, isClosedComment comment = true

instance (t : Text) : Decidable (IsComplete t) :=
  decidable_of_iff
    ((scan t).foldl braceStep [] = [] ∧
      (∀ token ∈ (scan t).getLast?, token.isUnended = false) ∧
      ∀ comment ∈ (scan t).filterMap Token.comment?, isClosedComment comment = true)
    ⟨fun h => ⟨h.1, h.2.1, h.2.2⟩, fun h => ⟨h.braces, h.heads, h.comments⟩⟩

/-- The sheet with another one behind it. The comments that the first one leaves over come before
those of the first child of the second, or before those that the second leaves over if it has no
children. -/
def Node.followedBy (first second : Node) : Node :=
  match second.children with
  | [] =>
    { second with children := first.children, comments := first.comments ++ second.comments }
  | child :: rest =>
    { second with children := first.children ++ child.withLead first.comments :: rest }

section Seam

/-- What stands behind the end of a head does not matter to where a head may begin. -/
theorem StartsHead.behind {head rest : Text} {stop : Char} (h : StartsHead (head ++ stop :: rest))
    (hstop : endsHead stop = true) (more : Text) : StartsHead (head ++ stop :: more) := by
  cases head with
  | nil =>
    refine ⟨fun c hc => h.no_space c hc, ?_⟩
    have hslash : '/' ≠ stop := by
      rintro rfl
      exact absurd hstop (by decide)
    simp [List.isPrefixOf, hslash]
  | cons c head =>
    refine ⟨fun d hd => h.no_space d hd, ?_⟩
    have hno := h.no_comment
    cases head with
    | nil =>
      have hstar : '*' ≠ stop := by
        rintro rfl
        exact absurd hstop (by decide)
      simp [List.isPrefixOf, hstar]
    | cons d head => simpa [List.isPrefixOf] using hno

namespace Reading

/-- A token that is cut off first is read first. -/
theorem read_of_scan {t rest : Text} {token : Token} (h : scan t = token :: scan rest)
    (state : Reading) : state.read t = (state.step token).read rest := by
  rw [read, h, List.foldl_cons, read]

/-- The tokens of a text without a head that is cut off and without an open comment are read as
they are, whatever stands behind the text. -/
theorem read_append_of_isLexed {front : Text} {tokens : List Token} (h : IsLexed front tokens)
    (hheads : ∀ token ∈ tokens.getLast?, token.isUnended = false)
    (hcomments : ∀ comment ∈ tokens.filterMap Token.comment?, isClosedComment comment = true)
    (back : Text) (state : Reading) :
    state.read (front ++ back) = (tokens.foldl step state).read back := by
  -- What is asked of the tokens is asked of those behind the first one.
  have hlater : ∀ {token : Token} {tokens : List Token},
      (∀ last ∈ (token :: tokens).getLast?, last.isUnended = false) →
      ∀ last ∈ tokens.getLast?, last.isUnended = false := by
    intro token tokens hall last hl
    have hne : tokens ≠ [] := by
      rintro rfl
      simp at hl
    exact hall last (by rwa [List.getLast?_cons_of_ne_nil hne])
  induction h generalizing state with
  | nil => rfl
  | @space run rest tokens hne hrun hrest h ih =>
    rw [List.append_assoc, read_spaces state hrun]
    exact ih (hlater hheads) hcomments state
  | @comment comment rest tokens hclosed h ih =>
    rw [List.append_assoc, read_comment state hclosed]
    exact ih (hlater hheads) (fun other ho => hcomments other (List.mem_cons_of_mem _ ho)) _
  | @openComment comment hopen =>
    have hclosed := hcomments comment List.mem_cons_self
    obtain ⟨body, rfl, hnone⟩ := exists_of_isOpenComment hopen
    obtain ⟨inner, he, -⟩ := exists_of_isClosedComment hclosed
    obtain rfl : body = inner ++ ['*', '/'] := by simpa using he
    -- A comment that is closed ends with the end that an open one lacks.
    have hends : Text.occursIn ['*', '/'] (inner ++ ['*', '/']) = true :=
      (Text.occursIn_iff _ _).mpr (List.suffix_append inner ['*', '/']).isInfix
    simp [hends] at hnone
  | @opening head rest tokens hstart hhead h ih =>
    have hscan := (IsLexed.opening (hstart.behind rfl (rest ++ back)) hhead
      (isLexed_scan (rest ++ back))).scan_eq
    rw [List.append_assoc, List.cons_append, read_of_scan hscan]
    exact ih (hlater hheads) hcomments _
  | @statement head rest tokens hstart hhead h ih =>
    have hscan := (IsLexed.statement (hstart.behind rfl (rest ++ back)) hhead
      (isLexed_scan (rest ++ back))).scan_eq
    rw [List.append_assoc, List.cons_append, read_of_scan hscan]
    exact ih (hlater hheads) hcomments _
  | @lastStatement head rest tokens hne hstart hhead h ih =>
    have hscan := (IsLexed.lastStatement hne (hstart.behind rfl (rest ++ back)) hhead
      (isLexed_scan ('\x7d' :: (rest ++ back)))).scan_eq
    rw [List.append_assoc, List.cons_append, read_of_scan hscan]
    exact ih (hlater hheads) hcomments _
  | unfinished hne hstart hunended => exact absurd (hheads _ rfl) (by simp [Token.isUnended])
  | closing h ih =>
    rw [List.cons_append, read_closing]
    exact ih (hlater hheads) hcomments _

/-- A complete text is read as it is, whatever stands behind it. -/
theorem read_append {front : Text} (h : IsComplete front) (back : Text) (state : Reading) :
    state.read (front ++ back) = (state.read front).read back :=
  read_append_of_isLexed (isLexed_scan front) h.heads h.comments back state

end Reading

end Seam

section Ground

namespace Reading

/-- The outermost open block. -/
def ground (state : Reading) : OpenBlock := state.outer.getLast?.getD state.block

/-- One token leaves the comments before the outermost block as they are. -/
theorem comments_ground_step (state : Reading) (token : Token) :
    (state.step token).ground.comments = state.ground.comments := by
  obtain ⟨⟨selector, comments, children, groups⟩, outer, pending⟩ := state
  cases token with
  | space run => rfl
  | comment text => rfl
  | statement head ended =>
    rw [step, addStatement]
    split
    · rfl
    · cases outer <;> rfl
  | opening head =>
    rw [step, openBlock]
    split
    · cases outer <;> rfl
    · simp [ground, List.getLast?_cons]
  | closing =>
    cases groups with
    | succ groups => cases outer <;> rfl
    | zero =>
      cases outer with
      | nil => rfl
      | cons parent outer =>
        cases outer with
        | nil => rfl
        | cons next outer => simp [step, closeBlock, ground, List.getLast?_cons]

/-- The comments of the sheet do not change while its text is read. -/
theorem comments_ground_foldl (state : Reading) (tokens : List Token) :
    (tokens.foldl step state).ground.comments = state.ground.comments := by
  induction tokens generalizing state with
  | nil => rfl
  | cons token tokens ih => rw [List.foldl_cons, ih, comments_ground_step]

/-- The braces that are open behind a text are those that its tokens leave open. -/
theorem selectors_braces_read (t : Text) :
    (read {} t).flat.braces.map Brace.selector = (scan t).foldl braceStep [] := by
  have hrun : ∀ (tokens : List Token) (flat : Flat),
      (tokens.foldl Flat.step flat).braces.map Brace.selector =
        tokens.foldl braceStep (flat.braces.map Brace.selector) := by
    intro tokens
    induction tokens with
    | nil => exact fun _ => rfl
    | cons token tokens ih =>
      intro flat
      rw [List.foldl_cons, List.foldl_cons, ih, Flat.selectors_step]
  rw [read, flat_foldl (Meets.start _), hrun]
  rfl

/-- Without an open brace the reading stands in the outermost block. -/
theorem outer_eq_nil_of_braces {state : Reading} (h : state.flat.braces = []) :
    state.outer = [] ∧ state.block.groups = 0 := by
  obtain ⟨block, outer, pending⟩ := state
  cases outer with
  | nil => exact ⟨rfl, by simpa [flat, stackBraces] using h⟩
  | cons parent outer => simp [flat, stackBraces] at h

/-- Behind a complete text the reading stands in the sheet itself. -/
theorem exists_of_isComplete {t : Text} (h : IsComplete t) :
    ∃ children pending, read {} t = ⟨{ children := children }, [], pending⟩ := by
  have hmeets : (read {} t).Meets Norm.named :=
    (Meets.start _).foldl fun token _ => token.meets_named
  have hbraces : (read {} t).flat.braces = [] := by
    rw [← List.map_eq_nil_iff (f := Brace.selector), selectors_braces_read]
    exact h.braces
  have hcomments : (read {} t).ground.comments = [] := comments_ground_foldl {} (scan t)
  obtain ⟨houter, hgroups⟩ := outer_eq_nil_of_braces hbraces
  generalize read {} t = state at hmeets hcomments houter hgroups
  obtain ⟨⟨selector, comments, children, groups⟩, outer, pending⟩ := state
  obtain rfl : outer = [] := houter
  obtain rfl : groups = 0 := hgroups
  obtain rfl : selector = none := hmeets.stacked.2
  obtain rfl : comments = [] := hcomments
  exact ⟨children, pending, rfl⟩

end Reading

end Ground

/-- What a call hands back at the top level is put into the sheet itself. -/
theorem Body.resume_of_top {body : Body} (h : body.rest = []) (block : OpenBlock) :
    body.resume block [] = (block.pushAll body.children).close body.trailing := by
  rw [resume, h, List.foldl_nil, Reading.finish_closeBlock]
  rfl

/-- Comments in front leave the same tokens to be read. -/
theorem Body.rest_precede (body : Body) (lead : List Text) :
    (body.precede lead).rest = body.rest := by
  rw [precede]
  split <;> rfl

/-- The tree of a text behind a complete one: the children of the two follow each other, and the
comments that the complete text leaves over go to the first child of the other, or wait with its
comments if it has no children. -/
theorem parse_append {front : Text} (h : IsComplete front) (back : Text) :
    parse (front ++ back) = (parse front).followedBy (parse back) := by
  obtain ⟨children, pending, hread⟩ := Reading.exists_of_isComplete h
  have hfront : parse front = { kind := .block, children := children, comments := pending } :=
    congrArg Reading.finish hread
  have hboth : parse (front ++ back) =
      ((scan back).foldl Reading.step ⟨{ children := children }, [], pending ++ []⟩).finish := by
    rw [List.append_nil, ← hread]
    exact congrArg Reading.finish (Reading.read_append h back {})
  have hrest := @rest_descend_of_top true [] (scan back) rfl
  rw [hboth, @finish_foldl_descend true [] (scan back) { children := children } [] pending
    fun _ => ⟨rfl, rfl⟩, hfront, parse_eq_sheetByDescent back, sheetByDescent]
  generalize (descend true [] (scan back)).1 = body at hrest ⊢
  rw [Body.resume_of_top (by rw [Body.rest_precede, hrest])]
  obtain ⟨found, trailing, rest⟩ := body
  cases found with
  | nil => simp [Body.precede, Node.followedBy, OpenBlock.pushAll, OpenBlock.close]
  | cons first more => rfl

/-- A stray brace, a group without a selector and a comment that waits at the seam. -/
theorem parse_append_seam :
    IsComplete "\x7d \x7b a: b; \x7d /* x */ ".toList ∧
      parse ("\x7d \x7b a: b; \x7d /* x */ ".toList ++ "/* y */ p \x7b c: d".toList) =
        { kind := .block
          children := [Node.ofStatement "a: b".toList [],
            ⟨.block, some "p".toList, [], [Node.ofStatement "c: d".toList []],
              ["/* x */".toList, "/* y */".toList]⟩] } := by
  have h : IsComplete "\x7d \x7b a: b; \x7d /* x */ ".toList := by decide +kernel
  refine ⟨h, (parse_append h _).trans ?_⟩
  with_unfolding_all rfl

end StyleModules
