import StyleModules.Sheet.Tree

/-!
# Reading by descent

A sheet can also be read by descent: what stands between two braces is read by a call of its own,
which hands back the statements, the comments that found none, and the tokens behind the closing
brace. Such a call knows nothing of what is around it. The caller makes a block of what it gets
back, or, if the brace has no selector, takes the statements over as its own and puts the comments
that waited before the brace in front of the first of them.

Reading by descent gives the same tree as the machine with its stack of open blocks
(`parse_eq_sheetByDescent`). The machine stays in one place while a call runs: a call's result is
pushed into the block that was innermost when it began, and then that block is closed
(`finish_foldl_descend`).
-/

namespace StyleModules

/-- The node with comments in front of its own. -/
def Node.withLead (lead : List Text) (node : Node) : Node :=
  { node with comments := lead ++ node.comments }

/-- No comments in front change nothing. -/
@[simp] theorem Node.withLead_nil (node : Node) : node.withLead [] = node := by
  obtain ⟨kind, selector, content, children, comments⟩ := node
  rfl

/-- Comments are put in front of comments. -/
theorem Node.withLead_withLead (lead more : List Text) (node : Node) :
    (node.withLead more).withLead lead = node.withLead (lead ++ more) := by
  rw [withLead, withLead, withLead, List.append_assoc]

/-- What a call hands back. -/
structure Body where
  /-- The statements between the braces. -/
  children : List Node
  /-- The comments that found no statement. -/
  trailing : List Text
  /-- The tokens that are left. -/
  rest : List Token

namespace Body

/-- Comments that come before all others: they go to the first statement, or wait with the rest. -/
def precede (lead : List Text) (body : Body) : Body :=
  match body.children with
  | [] => { body with trailing := lead ++ body.trailing }
  | first :: more => { body with children := first.withLead lead :: more }

/-- Statements that come before the others. -/
def prepend (nodes : List Node) (body : Body) : Body :=
  { body with children := nodes ++ body.children }

/-- No comments in front change nothing. -/
@[simp] theorem precede_nil (body : Body) : body.precede [] = body := by
  obtain ⟨children, trailing, rest⟩ := body
  cases children with
  | nil => rfl
  | cons first more => simp [precede]

/-- The body is what is left of a list of tokens. -/
abbrev Of (tokens : List Token) := { body : Body // body.rest.length ≤ tokens.length }

/-- One more token has been read before the body. -/
def Of.behind {token : Token} {tokens : List Token} (body : Of tokens) : Of (token :: tokens) :=
  ⟨body.1, Nat.le_succ_of_le body.2⟩

/-- One more body has been read before the body. -/
def Of.after {tokens : List Token} {inner : Body} (h : inner.rest.length ≤ tokens.length)
    (body : Of inner.rest) : Of tokens :=
  ⟨body.1, Nat.le_trans body.2 h⟩

/-- Statements that come before those of the body. -/
def Of.prepend {tokens : List Token} (nodes : List Node) (body : Of tokens) : Of tokens :=
  ⟨body.1.prepend nodes, body.2⟩

end Body

/-- Read what stands between two braces, or the whole sheet at the top level, given the comments
that wait. -/
def descend (top : Bool) : List Text → (tokens : List Token) → Body.Of tokens
  | pending, [] => ⟨⟨[], pending, []⟩, Nat.le_refl 0⟩
  | pending, .space _ :: tokens => (descend top pending tokens).behind
  | pending, .comment text :: tokens => (descend top (pending ++ [text]) tokens).behind
  | pending, .closing :: tokens =>
    if top then (descend top pending tokens).behind
    else ⟨⟨[], pending, tokens⟩, Nat.le_succ tokens.length⟩
  | pending, .statement head _ :: tokens =>
    if (Text.trim head).isEmpty then (descend top pending tokens).behind
    else ((descend top [] tokens).prepend [Node.ofStatement head pending]).behind
  | pending, .opening head :: tokens =>
    match descend false [] tokens with
    | ⟨inner, hinner⟩ =>
      if (Text.trim head).isEmpty then
        -- The brace has no selector: the statements behind it stay where they are.
        (((descend top (inner.precede pending).trailing inner.rest).prepend
          (inner.precede pending).children).after hinner).behind
      else
        (((descend top [] inner.rest).prepend [⟨.block, some (Text.trim head), [], inner.children,
          pending ++ inner.trailing⟩]).after hinner).behind
termination_by _ tokens => tokens.length

/-- The tree of a sheet, read by descent. -/
def sheetByDescent (tokens : List Token) : Node :=
  let body := (descend true [] tokens).1
  { kind := .block, children := body.children, comments := body.trailing }

/-- At the top level nothing is left. -/
theorem rest_descend_of_top {top : Bool} {pending : List Text} {tokens : List Token}
    (h : top = true) : (descend top pending tokens).1.rest = [] := by
  fun_induction descend top pending tokens with
  | case1 top pending => rfl
  | case2 top pending run tokens ih => exact ih h
  | case3 top pending text tokens ih => exact ih h
  | case4 pending tokens ih => exact ih h
  | case5 top pending tokens hlow => exact absurd h hlow
  | case6 top pending head ended tokens hblank ih => exact ih h
  | case7 top pending head ended tokens hhead ih => exact ih h
  | case8 top pending head tokens inner hinner he hblank _ ih => exact ih h
  | case9 top pending head tokens inner hinner he hhead _ ih => exact ih h

namespace Reading

/-- At the end it makes no difference whether the innermost block has been closed. -/
theorem finish_closeBlock (state : Reading) : state.closeBlock.finish = state.finish := by
  obtain ⟨⟨selector, comments, children, groups⟩, outer, pending⟩ := state
  cases groups with
  | zero =>
    cases outer with
    | nil => rfl
    | cons parent outer => rfl
  | succ groups =>
    -- The number of groups that are open leaves no trace in a tree.
    cases outer with
    | nil => rfl
    | cons parent outer => rfl

end Reading

/-- Several statements at the end. -/
def OpenBlock.pushAll (block : OpenBlock) (nodes : List Node) : OpenBlock :=
  { block with children := block.children ++ nodes }

/-- No nodes added change nothing. -/
@[simp] theorem OpenBlock.pushAll_nil (block : OpenBlock) : block.pushAll [] = block := by
  simp [pushAll]

open Reading

/-- The tree that is read if the innermost block gets what a call hands back and is closed. -/
def Body.resume (body : Body) (block : OpenBlock) (outer : List OpenBlock) : Node :=
  (body.rest.foldl step (closeBlock ⟨block.pushAll body.children, outer, body.trailing⟩)).finish

/-- Nodes before a body are added to the open block. -/
theorem Body.resume_prepend (body : Body) (nodes : List Node) (block : OpenBlock)
    (outer : List OpenBlock) :
    (body.prepend nodes).resume block outer = body.resume (block.pushAll nodes) outer := by
  simp [resume, prepend, OpenBlock.pushAll]

/-- A call that is made inside a group goes on behind the group. -/
theorem Body.resume_group (body : Body) (block : OpenBlock) (outer : List OpenBlock) :
    body.resume { block with groups := block.groups + 1 } outer =
      (body.rest.foldl step ⟨block.pushAll body.children, outer, body.trailing⟩).finish := rfl

/-- While a call runs, the machine stays in the block that was innermost when it began. Then the
block has the statements of the call, and is closed. -/
theorem finish_foldl_descend {top : Bool} {pending : List Text} {tokens : List Token}
    {block : OpenBlock} {outer : List OpenBlock} (lead : List Text)
    (htop : top = true → block.groups = 0 ∧ outer = []) :
    (tokens.foldl step ⟨block, outer, lead ++ pending⟩).finish =
      ((descend top pending tokens).1.precede lead).resume block outer := by
  fun_induction descend top pending tokens generalizing block outer lead with
  | case1 top pending =>
    rw [List.foldl_nil, ← finish_closeBlock]
    simp [Body.precede, Body.resume, OpenBlock.pushAll]
  | case2 top pending run tokens ih => exact ih lead htop
  | case3 top pending text tokens ih =>
    rw [List.foldl_cons, step, List.append_assoc]
    exact ih lead htop
  | case4 pending tokens ih =>
    -- At the top level there is nothing to close.
    obtain ⟨hgroups, rfl⟩ := htop rfl
    obtain ⟨selector, comments, children, groups⟩ := block
    obtain rfl : groups = 0 := hgroups
    exact ih lead htop
  | case5 top pending tokens hlow => simp [Body.precede, Body.resume, OpenBlock.pushAll, step]
  | case6 top pending head ended tokens hblank ih =>
    rw [List.foldl_cons, step, addStatement, if_pos hblank]
    exact ih lead htop
  | case7 top pending head ended tokens hhead ih =>
    have hbody := @ih (block.push (Node.ofStatement head (lead ++ pending))) outer [] htop
    rw [Body.precede_nil] at hbody
    rw [List.foldl_cons, step, addStatement, if_neg hhead]
    refine hbody.trans ?_
    exact (Body.resume_prepend _ [Node.ofStatement head (lead ++ pending)] block outer).symm
  | case8 top pending head tokens inner hinner he hblank hgroup hbody =>
    have hinside := @hgroup { block with groups := block.groups + 1 } outer (lead ++ pending)
      (by simp)
    rw [List.append_nil, he, Body.resume_group] at hinside
    rw [List.foldl_cons, step, openBlock, if_pos hblank]
    refine hinside.trans ?_
    obtain ⟨children, trailing, rest⟩ := inner
    cases children with
    | nil =>
      -- The comments before the group and those in it wait on together.
      show (rest.foldl step ⟨block.pushAll [], outer, lead ++ pending ++ trailing⟩).finish =
        ((descend top (pending ++ trailing) rest).1.precede lead).resume block outer
      rw [OpenBlock.pushAll_nil, List.append_assoc]
      exact hbody lead htop
    | cons first more =>
      have hafter := @hbody (block.pushAll (first.withLead (lead ++ pending) :: more)) outer []
        htop
      show (rest.foldl step
          ⟨block.pushAll (first.withLead (lead ++ pending) :: more), outer, trailing⟩).finish =
        ((descend top trailing rest).1.prepend
          ((first.withLead pending).withLead lead :: more)).resume block outer
      rw [Body.resume_prepend, Node.withLead_withLead]
      rw [Body.precede_nil] at hafter
      exact hafter
  | case9 top pending head tokens inner hinner he hhead hblock hbody =>
    have hinside := @hblock { selector := some (Text.trim head), comments := lead ++ pending }
      (block :: outer) [] (by simp)
    have hafter := @hbody (block.push ⟨.block, some (Text.trim head), [], inner.children,
      lead ++ pending ++ inner.trailing⟩) outer [] htop
    rw [Body.precede_nil, he] at hinside
    rw [Body.precede_nil] at hafter
    rw [List.foldl_cons, step, openBlock, if_neg hhead]
    refine hinside.trans (hafter.trans ?_)
    show _ = ((descend top [] inner.rest).1.prepend [⟨.block, some (Text.trim head), [],
      inner.children, lead ++ (pending ++ inner.trailing)⟩]).resume block outer
    rw [Body.resume_prepend, List.append_assoc]
    rfl

/-- Reading a sheet by descent gives its tree. -/
theorem parse_eq_sheetByDescent (t : Text) : parse t = sheetByDescent (scan t) := by
  have hall := @finish_foldl_descend true [] (scan t) {} [] [] (fun _ => ⟨rfl, rfl⟩)
  have hrest := @rest_descend_of_top true [] (scan t) rfl
  rw [Body.precede_nil, Body.resume, hrest] at hall
  exact hall

/-- The node is a statement, or a block with a selector, and so are all nodes below it; it has no
parts beyond those that belong to its kind. -/
inductive Node.IsPlain : Node → Prop
  | statement {content : Text} {comments : List Text} : IsPlain (Node.ofStatement content comments)
  | block {selector : Text} {children : List Node} {comments : List Text}
      (h : ∀ child ∈ children, IsPlain child) :
      IsPlain ⟨.block, some selector, [], children, comments⟩

/-- A plain node is plain with other comments in front. -/
theorem Node.IsPlain.withLead {node : Node} (h : node.IsPlain) (lead : List Text) :
    (node.withLead lead).IsPlain := by
  cases h with
  | statement => exact .statement
  | block hchildren => exact .block hchildren

/-- The children of a plain body are plain with comments in front. -/
theorem Body.isPlain_precede {body : Body} (h : ∀ node ∈ body.children, node.IsPlain)
    (lead : List Text) : ∀ node ∈ (body.precede lead).children, node.IsPlain := by
  obtain ⟨children, trailing, rest⟩ := body
  cases children with
  | nil => exact h
  | cons first more =>
    intro node hn
    rcases List.mem_cons.mp hn with rfl | hn
    · exact (h first List.mem_cons_self).withLead lead
    · exact h node (List.mem_cons_of_mem first hn)

/-- Only plain nodes are read. -/
theorem isPlain_descend (top : Bool) (pending : List Text) (tokens : List Token) :
    ∀ node ∈ (descend top pending tokens).1.children, node.IsPlain := by
  fun_induction descend top pending tokens with
  | case1 top pending => simp
  | case2 top pending run tokens ih => exact ih
  | case3 top pending text tokens ih => exact ih
  | case4 pending tokens ih => exact ih
  | case5 top pending tokens hlow => simp
  | case6 top pending head ended tokens hblank ih => exact ih
  | case7 top pending head ended tokens hhead ih =>
    intro node hn
    rcases List.mem_cons.mp hn with rfl | hn
    · exact .statement
    · exact ih node hn
  | case8 top pending head tokens inner hinner he hblank hgroup hbody =>
    rw [he] at hgroup
    intro node hn
    rcases List.mem_append.mp hn with hn | hn
    · exact Body.isPlain_precede hgroup pending node hn
    · exact hbody node hn
  | case9 top pending head tokens inner hinner he hhead hblock hbody =>
    rw [he] at hblock
    intro node hn
    rcases List.mem_cons.mp hn with rfl | hn
    · exact .block hblock
    · exact hbody node hn

/-- The tree of a sheet has no other nodes than statements and blocks with a selector. -/
theorem isPlain_parse (t : Text) :
    (parse t).isRoot = true ∧ (parse t).content = [] ∧ ∀ node ∈ (parse t).children, node.IsPlain := by
  rw [parse_eq_sheetByDescent]
  exact ⟨rfl, rfl, isPlain_descend true [] (scan t)⟩

end StyleModules
