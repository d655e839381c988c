import StyleModules.Proofs.Layout.Spacing
import StyleModules.Proofs.Sheet.Ownership

/-!
# The shape of a tree that was read

Layout and sync take the trees they work on from the reader, and rely on what it never makes. Below
the sheet itself there are only statements and blocks. A statement has a text and nothing else, and
something of it is left when it is cleaned. A selector is trimmed and not empty. Neither holds a
character that would have ended it (`IsUnended`). A comment ends at its first end, and only the last
comment of a text can have none: it runs to the end of the text (`IsLexed.open_comments`).

All of this holds of the tree of every text (`parse_hasShape`).
-/

namespace StyleModules

open HeadState

/-- Read as a head from its start, the text goes on to its end: no character in it ends a head. -/
structure IsUnended (t : Text) : Prop where
  /-- At no character that ends heads is there neither an open quote nor a backslash before it. -/
  never_ends : never ends {} t = true
  /-- Cutting a head from the text takes all of it. -/
  whole : Token.cutHead none t = (t, [])

/-- A text that ends no head is unended. -/
theorem IsUnended.of_never_ends {t : Text} (h : never ends {} t = true) : IsUnended t :=
  ⟨h, (Token.cutHead_of_never_ends h).1⟩

/-- The text of a statement in a tree. -/
structure StatementShape (content : Text) : Prop extends StartsHead content where
  /-- It is not blank. -/
  not_blank : Text.trim content ≠ []
  /-- Something is left of it when it is cleaned. -/
  cleaned : cleanStatement content ≠ []
  /-- Nothing in it ends it. -/
  unended : IsUnended content

/-- The selector of a block in a tree. -/
structure SelectorShape (selector : Text) : Prop where
  /-- It is not empty. -/
  ne_nil : selector ≠ []
  /-- There are no blanks at either end. -/
  trimmed : Text.trim selector = selector
  /-- Nothing in it ends it. -/
  unended : IsUnended selector

/-- A comment in a tree. -/
structure CommentShape (comment : Text) : Prop where
  /-- It begins with the opening delimiter. -/
  opened : ['/', '*'] <+: comment
  /-- The closing delimiter stands nowhere behind the opening one but at the end. -/
  ends_last : ∀ i, 2 ≤ i → ['*', '/'] <+: comment.drop i → i + 2 = comment.length

/-- What holds of the texts of every tree that was read. -/
def Norm.shape : Norm := ⟨CommentShape, StatementShape, SelectorShape⟩

section Comments

/-- The first end in a text that ends with one, and has none before, is the last. -/
theorem eq_length_of_first_end {body : Text} {i : Nat}
    (hfirst : Text.occursIn ['*', '/'] (body ++ ['*']) = false)
    (h : ['*', '/'] <+: (body ++ ['*', '/']).drop i) : i = body.length := by
  have hlength := h.length_le
  simp only [List.length_drop, List.length_append, List.length_cons, List.length_nil] at hlength
  by_contra hne
  -- An earlier end would stand in the body with the asterisk behind it.
  have hsplit : (body ++ ['*', '/']).drop i = (body ++ ['*']).drop i ++ ['/'] := by
    rw [← List.drop_append_of_le_length (by simp; omega), List.append_assoc]
    rfl
  rw [hsplit] at h
  have hinner : ['*', '/'] <+: (body ++ ['*']).drop i :=
    List.prefix_of_prefix_length_le h (List.prefix_append _ _) (by simp; omega)
  have hoccurs := (Text.occursIn_iff ['*', '/'] (body ++ ['*'])).mpr
    (hinner.isInfix.trans (List.drop_suffix i _).isInfix)
  rw [hfirst] at hoccurs
  cases hoccurs

/-- A closed comment has the shape of a comment. -/
theorem CommentShape.of_closed {comment : Text} (h : isClosedComment comment = true) :
    CommentShape comment := by
  obtain ⟨body, rfl, hfirst⟩ := exists_of_isClosedComment h
  refine ⟨⟨_, rfl⟩, fun i hi hend => ?_⟩
  obtain ⟨j, rfl⟩ := Nat.exists_eq_add_of_le' hi
  have hj := eq_length_of_first_end hfirst hend
  simp only [hj, List.length_cons, List.length_append, List.length_nil]

/-- An open comment has the shape of a comment. -/
theorem CommentShape.of_open {comment : Text} (h : isOpenComment comment = true) :
    CommentShape comment := by
  obtain ⟨body, rfl, hnone⟩ := exists_of_isOpenComment h
  refine ⟨⟨_, rfl⟩, fun i hi hend => ?_⟩
  obtain ⟨j, rfl⟩ := Nat.exists_eq_add_of_le' hi
  have hend : ['*', '/'] <+: body.drop j := hend
  have hoccurs := (Text.occursIn_iff ['*', '/'] body).mpr
    (hend.isInfix.trans (List.drop_suffix j body).isInfix)
  rw [hnone] at hoccurs
  cases hoccurs

/-- A closed comment is not open. -/
theorem not_isOpenComment_of_closed {comment : Text} (h : isClosedComment comment = true) :
    isOpenComment comment = false := by
  obtain ⟨body, rfl, _⟩ := exists_of_isClosedComment h
  have hoccurs := (Text.occursIn_iff ['*', '/'] (body ++ ['*', '/'])).mpr
    (List.suffix_append body _).isInfix
  simp [isOpenComment, hoccurs]

/-- At most one comment among the tokens of a text is open, and it runs to the end of the text. -/
theorem IsLexed.open_comments {t : Text} {tokens : List Token} (h : IsLexed t tokens) :
    (tokens.filterMap Token.comment?).filter isOpenComment = [] ∨
      ∃ comment, (tokens.filterMap Token.comment?).filter isOpenComment = [comment] ∧
        comment <:+ t := by
  -- What stands in front of a text changes nothing about its end.
  have hlater : ∀ {rest : Text} {comments : List Text} (front : Text),
      (comments = [] ∨ ∃ comment, comments = [comment] ∧ comment <:+ rest) →
      comments = [] ∨ ∃ comment, comments = [comment] ∧ comment <:+ front ++ rest := by
    rintro rest comments front (hnone | ⟨comment, hone, hsuffix⟩)
    · exact Or.inl hnone
    · exact Or.inr ⟨comment, hone, hsuffix.trans (List.suffix_append front rest)⟩
  induction h with
  | nil => exact Or.inl rfl
  | @space run rest tokens _ _ _ _ ih => exact hlater run ih
  | @comment comment rest tokens hclosed _ ih =>
    have hfirst : (Token.comment comment :: tokens).filterMap Token.comment? =
        comment :: tokens.filterMap Token.comment? := rfl
    rw [hfirst, List.filter_cons_of_neg (by simp [not_isOpenComment_of_closed hclosed])]
    exact hlater comment ih
  | @openComment comment hopen =>
    exact Or.inr ⟨comment, by simp [Token.comment?, hopen], List.suffix_rfl⟩
  | @opening head rest tokens _ _ _ ih =>
    have hrest := hlater (head ++ ['\x7b']) ih
    rwa [List.append_assoc] at hrest
  | @statement head rest tokens _ _ _ ih =>
    have hrest := hlater (head ++ [';']) ih
    rwa [List.append_assoc] at hrest
  | @lastStatement head rest tokens _ _ _ _ ih => exact hlater head ih
  | unfinished => exact Or.inl rfl
  | @closing rest tokens _ ih => exact hlater ['\x7d'] ih

end Comments

section Heads

/-- Blanks open no quote and begin no escape. -/
theorem after_blanks {blanks : Text} (h : blanks.all isBlank = true) : after {} blanks = {} := by
  induction blanks with
  | nil => rfl
  | cons c blanks ih =>
    rw [List.all_cons, Bool.and_eq_true] at h
    rw [after_cons, next_of_inert proper_start (isInert_of_isBlank h.1) rfl]
    exact ih h.2

/-- A text that nothing ends is not ended when it is trimmed: blanks in front leave the reading as
it is at the start, and an end behind is none of what stands before. -/
theorem never_ends_trim {t : Text} (h : never ends {} t = true) :
    never ends {} (Text.trim t) = true := by
  obtain ⟨front, back, ht, hfront, -⟩ := Text.exists_trim t
  rw [ht, never_append, never_append, Bool.and_eq_true, Bool.and_eq_true, after_blanks hfront] at h
  exact h.1.2

/-- What a head may begin with does not depend on what stands behind it. -/
theorem StartsHead.of_append {head more : Text} (h : StartsHead (head ++ more)) :
    StartsHead head := by
  refine ⟨fun c hc => h.no_space c ?_,
    not_delimiter_of_isPrefix (List.prefix_append head more) h.no_comment⟩
  exact head?_of_isPrefix (List.prefix_append head more) hc

end Heads

/-- The texts that tokens bring into a tree have their shape. -/
theorem Token.meets_shape {t : Text} {token : Token} (h : token ∈ scan t) :
    token.Meets Norm.shape := by
  cases token with
  | space run => trivial
  | comment text =>
    rcases isClosedComment_or_isOpenComment h with hclosed | hopen
    · exact CommentShape.of_closed hclosed
    · exact CommentShape.of_open hopen
  | opening head =>
    intro hne
    obtain ⟨-, hunended, -⟩ := (isLexed_scan t).head_of_mem h rfl
    exact ⟨hne, Text.trim_trim head, .of_never_ends (never_ends_trim hunended)⟩
  | statement head ended =>
    intro hne
    obtain ⟨⟨more, hstart⟩, hunended, -⟩ := (isLexed_scan t).head_of_mem h rfl
    exact ⟨hstart.of_append, hne, cleanStatement_ne_nil hunended hne, .of_never_ends hunended⟩
  | closing => trivial

/-- The comments of a node and of all nodes below it. -/
def Node.allComments (root : Node) : List Text := (root.listing []).flatMap (·.node.comments)

/-- The comments of a tree are those of its tokens. -/
theorem allComments_parse_perm (t : Text) :
    (parse t).allComments.Perm ((scan t).filterMap Token.comment?) := by
  have hstands := Flat.stands_foldl Flat.stands_start (scan t)
  rw [Node.allComments, listing_parse]
  exact (Flat.comments_leave_perm hstands.home_lt).trans
    (Flat.comments_foldl_perm Flat.stands_start (scan t))

/-- The tree has the shape of one that was read from the text. -/
structure Node.HasShape (t : Text) (root : Node) : Prop where
  /-- It is a sheet, and all its comments, statements and selectors have their shape. -/
  sheet : root.IsSheet Norm.shape
  /-- The sheet itself has no text. -/
  content : root.content = []
  /-- Below it there are only statements without a selector and without children, and blocks with a
  selector and without a text. -/
  plain : ∀ node ∈ root.children, node.IsPlain
  /-- At most one of all its comments is open. -/
  one_open : (root.allComments.filter isOpenComment).length ≤ 1
  /-- A comment that is open runs to the end of the text. -/
  open_at_end : ∀ comment ∈ root.allComments, isOpenComment comment = true → comment <:+ t

/-- Every tree that is read has its shape. -/
theorem parse_hasShape (t : Text) : (parse t).HasShape t := by
  have hplain := isPlain_parse t
  have hopen := (allComments_parse_perm t).filter isOpenComment
  refine ⟨parse_isSheet fun token => Token.meets_shape, hplain.2.1, hplain.2.2, ?_, ?_⟩
  · rw [hopen.length_eq]
    rcases (isLexed_scan t).open_comments with hnone | ⟨comment, hone, -⟩
    · simp [hnone]
    · simp [hone]
  · intro comment hm ho
    have hmem := hopen.mem_iff.mp (List.mem_filter.mpr ⟨hm, ho⟩)
    rcases (isLexed_scan t).open_comments with hnone | ⟨last, hone, hsuffix⟩
    · simp [hnone] at hmem
    · rw [hone, List.mem_singleton] at hmem
      rwa [hmem]

end StyleModules
