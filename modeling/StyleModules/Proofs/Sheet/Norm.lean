import StyleModules.Sheet.Tree

/-!
# Norms for the texts of a sheet

A norm says what is asked of comments, of statements and of selectors. A node meets a norm if it
is a statement or a block with a selector, all texts in it are as the norm asks, and the same holds
of every node below it. A sheet meets a norm if its own comments and all its statements do.

The tree of a text meets a norm if the tokens of the text do: one token changes a reading that
meets the norm into one that does, and closing the open blocks at the end keeps it.
-/

namespace StyleModules

/-- What is asked of the texts of a sheet. -/
structure Norm where
  /-- What is asked of a comment. -/
  comment : Text → Prop
  /-- What is asked of a statement, as it stands between separators. -/
  statement : Text → Prop
  /-- What is asked of a selector. -/
  selector : Text → Prop

/-- The norm that asks nothing. -/
def Norm.any : Norm := ⟨fun _ => True, fun _ => True, fun _ => True⟩

/-- The norm that asks something of comments and nothing else. -/
def Norm.onComments (p : Text → Prop) : Norm := ⟨p, fun _ => True, fun _ => True⟩

/-- The node and all nodes below it are statements or blocks whose texts are as the norm asks. -/
inductive Node.Meets (norm : Norm) : Node → Prop
  | statement {selector : Option Text} {content : Text} {children : List Node}
      {comments : List Text} (hcontent : norm.statement content)
      (hcomments : ∀ comment ∈ comments, norm.comment comment) :
      Meets norm ⟨.leaf, selector, content, children, comments⟩
  | block {selector content : Text} {children : List Node} {comments : List Text}
      (hselector : norm.selector selector)
      (hcomments : ∀ comment ∈ comments, norm.comment comment)
      (hchildren : ∀ child ∈ children, Meets norm child) :
      Meets norm ⟨.block, some selector, content, children, comments⟩

/-- The node is a sheet whose texts are as the norm asks. -/
structure Node.IsSheet (norm : Norm) (root : Node) : Prop where
  /-- The sheet is the block without a selector. -/
  isRoot : root.isRoot = true
  /-- The comments of the sheet itself meet the norm. -/
  comments : ∀ comment ∈ root.comments, norm.comment comment
  /-- The statements of the sheet meet the norm. -/
  children : ∀ child ∈ root.children, child.Meets norm

/-- A root is a block without a selector. -/
theorem Node.isRoot_mk_iff {kind : NodeKind} {selector : Option Text} {content : Text}
    {children : List Node} {comments : List Text} :
    Node.isRoot ⟨kind, selector, content, children, comments⟩ = true ↔
      kind = .block ∧ selector = none := by
  simp [Node.isRoot]

section Check

variable (norm : Norm) [DecidablePred norm.comment] [DecidablePred norm.statement]
  [DecidablePred norm.selector]

mutual

/-- Check a node against a norm. -/
def Node.check : Node → Bool
  | ⟨.leaf, _, content, _, comments⟩ =>
    decide (norm.statement content) && comments.all (decide <| norm.comment ·)
  | ⟨.block, some selector, _, children, comments⟩ =>
    decide (norm.selector selector) && comments.all (decide <| norm.comment ·) &&
      checkAll children
  | _ => false

/-- Check several nodes against a norm. -/
def checkAll : List Node → Bool
  | [] => true
  | node :: rest => node.check && checkAll rest

end

mutual

/-- A node is checked to meet the norm. -/
theorem Node.check_iff : ∀ node : Node, node.check norm = true ↔ node.Meets norm
  | ⟨kind, selector, content, children, comments⟩ => by
    have hchildren := checkAll_iff children
    constructor
    · intro h
      unfold Node.check at h
      split at h
      · next he =>
        cases he
        simp only [Bool.and_eq_true, decide_eq_true_eq, List.all_eq_true] at h
        exact .statement h.1 h.2
      · next he =>
        cases he
        simp only [Bool.and_eq_true, decide_eq_true_eq, List.all_eq_true, hchildren] at h
        exact .block h.1.1 h.1.2 h.2
      · cases h
    · intro h
      cases h with
      | statement hcontent hcomments => simpa [Node.check, hcontent] using hcomments
      | block hselector hcomments hmeets =>
        simpa [Node.check, hselector, hchildren] using ⟨hcomments, hmeets⟩

/-- Nodes are checked to meet the norm one by one. -/
theorem checkAll_iff : ∀ nodes : List Node,
    checkAll norm nodes = true ↔ ∀ node ∈ nodes, node.Meets norm
  | [] => by simp [checkAll]
  | node :: rest => by
    rw [checkAll, Bool.and_eq_true, Node.check_iff node, checkAll_iff rest, List.forall_mem_cons]

end

instance (root : Node) : Decidable (root.IsSheet norm) :=
  decidable_of_iff (root.isRoot = true ∧ (∀ comment ∈ root.comments, norm.comment comment) ∧
      checkAll norm root.children = true)
    ⟨fun h => ⟨h.1, h.2.1, (checkAll_iff norm _).mp h.2.2⟩,
      fun h => ⟨h.isRoot, h.comments, (checkAll_iff norm _).mpr h.children⟩⟩

instance (p : Text → Prop) [DecidablePred p] : DecidablePred (Norm.onComments p).comment :=
  inferInstanceAs (DecidablePred p)

instance (p : Text → Prop) : DecidablePred (Norm.onComments p).statement :=
  fun _ => instDecidableTrue

instance (p : Text → Prop) : DecidablePred (Norm.onComments p).selector :=
  fun _ => instDecidableTrue

end Check

/-- What two norms ask together. -/
def Norm.and (norm other : Norm) : Norm where
  comment t := norm.comment t ∧ other.comment t
  statement t := norm.statement t ∧ other.statement t
  selector t := norm.selector t ∧ other.selector t

/-- Every text that is as the first norm asks is as the second asks. -/
structure Norm.Implies (norm other : Norm) : Prop where
  /-- For comments. -/
  comment : ∀ t, norm.comment t → other.comment t
  /-- For statements. -/
  statement : ∀ t, norm.statement t → other.statement t
  /-- For selectors. -/
  selector : ∀ t, norm.selector t → other.selector t

/-- A node that meets a norm meets a weaker one. -/
theorem Node.Meets.mono {norm other : Norm} (h : norm.Implies other) {node : Node}
    (hn : node.Meets norm) : node.Meets other := by
  induction hn with
  | statement hcontent hcomments =>
    exact .statement (h.statement _ hcontent) fun c hc => h.comment c (hcomments c hc)
  | block hselector hcomments _ ih =>
    exact .block (h.selector _ hselector) (fun c hc => h.comment c (hcomments c hc)) ih

/-- A weaker norm is met as well. -/
theorem Node.IsSheet.mono {norm other : Norm} (h : norm.Implies other) {root : Node}
    (hr : root.IsSheet norm) : root.IsSheet other :=
  ⟨hr.isRoot, fun c hc => h.comment c (hr.comments c hc),
    fun child hc => (hr.children child hc).mono h⟩

/-- A node that meets two norms meets both at once. -/
theorem Node.Meets.and {norm other : Norm} {node : Node} (hn : node.Meets norm)
    (ho : node.Meets other) : node.Meets (norm.and other) := by
  induction hn with
  | statement hcontent hcomments =>
    cases ho with
    | statement hcontent' hcomments' =>
      exact .statement ⟨hcontent, hcontent'⟩ fun c hc => ⟨hcomments c hc, hcomments' c hc⟩
  | block hselector hcomments _ ih =>
    cases ho with
    | block hselector' hcomments' hchildren' =>
      exact .block ⟨hselector, hselector'⟩ (fun c hc => ⟨hcomments c hc, hcomments' c hc⟩)
        fun child hc => ih child hc (hchildren' child hc)

/-- Two norms that are met are met together. -/
theorem Node.IsSheet.and {norm other : Norm} {root : Node} (hr : root.IsSheet norm)
    (ho : root.IsSheet other) : root.IsSheet (norm.and other) :=
  ⟨hr.isRoot, fun c hc => ⟨hr.comments c hc, ho.comments c hc⟩,
    fun child hc => (hr.children child hc).and (ho.children child hc)⟩

/-- The texts that the token brings into a tree are as the norm asks. -/
def Token.Meets (norm : Norm) : Token → Prop
  | .comment text => norm.comment text
  | .opening head => Text.trim head ≠ [] → norm.selector (Text.trim head)
  | .statement head _ => Text.trim head ≠ [] → norm.statement head
  | .space _ => True
  | .closing => True

/-- The texts of an open block, its selector apart, are as the norm asks. -/
structure OpenBlock.Meets (norm : Norm) (block : OpenBlock) : Prop where
  /-- The comments before the block. -/
  comments : ∀ comment ∈ block.comments, norm.comment comment
  /-- The statements read so far. -/
  children : ∀ child ∈ block.children, child.Meets norm

/-- Every open block has a selector as the norm asks, but for the outermost, which has none. -/
def Reading.Stacked (norm : Norm) : OpenBlock → List OpenBlock → Prop
  | block, [] => block.Meets norm ∧ block.selector = none
  | block, parent :: outer =>
    block.Meets norm ∧ (∃ selector, block.selector = some selector ∧ norm.selector selector) ∧
      Stacked norm parent outer

/-- All that has been read is as the norm asks. -/
structure Reading.Meets (norm : Norm) (state : Reading) : Prop where
  /-- The open blocks. -/
  stacked : Reading.Stacked norm state.block state.outer
  /-- The comments that wait. -/
  pending : ∀ comment ∈ state.pending, norm.comment comment

namespace Reading

variable {norm : Norm}

/-- The block on top of a stack meets the norm. -/
theorem Stacked.meets {block : OpenBlock} {outer : List OpenBlock}
    (h : Stacked norm block outer) : block.Meets norm := by
  cases outer <;> exact h.1

/-- The innermost block may be exchanged for one with the same selector. -/
theorem Stacked.replace {block other : OpenBlock} {outer : List OpenBlock}
    (h : Stacked norm block outer) (ho : other.Meets norm)
    (hs : other.selector = block.selector) : Stacked norm other outer := by
  cases outer with
  | nil => exact ⟨ho, hs.trans h.2⟩
  | cons parent outer => exact ⟨ho, hs ▸ h.2.1, h.2.2⟩

/-- A node that meets the norm may be pushed. -/
theorem Stacked.push {block : OpenBlock} {outer : List OpenBlock} {node : Node}
    (h : Stacked norm block outer) (hn : node.Meets norm) : Stacked norm (block.push node) outer :=
  h.replace ⟨h.meets.comments, fun child hc => by
    rcases List.mem_append.mp hc with hc | hc
    · exact h.meets.children child hc
    · rwa [List.mem_singleton.mp hc]⟩ rfl

/-- A block that is not the outermost closes to a node that meets the norm. -/
theorem Stacked.close {block parent : OpenBlock} {outer : List OpenBlock} {pending : List Text}
    (h : Stacked norm block (parent :: outer))
    (hp : ∀ comment ∈ pending, norm.comment comment) : (block.close pending).Meets norm := by
  obtain ⟨hb, ⟨selector, hs, hn⟩, _⟩ := h
  rw [OpenBlock.close, hs]
  refine .block hn (fun c hc => ?_) hb.children
  rcases List.mem_append.mp hc with hc | hc
  · exact hb.comments c hc
  · exact hp c hc

/-- Before the first token all is as every norm asks. -/
theorem Meets.start (norm : Norm) : Reading.Meets norm {} :=
  ⟨⟨⟨by simp, by simp⟩, rfl⟩, by simp⟩

/-- An opened block meets the norm if its selector does. -/
theorem Meets.openBlock {state : Reading} {head : Text} (h : state.Meets norm)
    (ht : Text.trim head ≠ [] → norm.selector (Text.trim head)) :
    (state.openBlock head).Meets norm := by
  unfold Reading.openBlock
  by_cases he : Text.trim head = []
  · rw [if_pos (List.isEmpty_iff.mpr he)]
    exact ⟨h.stacked.replace ⟨h.stacked.meets.comments, h.stacked.meets.children⟩ rfl, h.pending⟩
  · rw [if_neg (by simpa using he)]
    exact ⟨⟨⟨h.pending, by simp⟩, ⟨_, rfl, ht he⟩, h.stacked⟩, by simp⟩

/-- Closing a block keeps to the norm. -/
theorem Meets.closeBlock {state : Reading} (h : state.Meets norm) :
    state.closeBlock.Meets norm := by
  obtain ⟨block, outer, pending⟩ := state
  obtain ⟨selector, comments, children, groups⟩ := block
  cases groups with
  | succ groups =>
    exact ⟨h.stacked.replace ⟨h.stacked.meets.comments, h.stacked.meets.children⟩ rfl, h.pending⟩
  | zero =>
    cases outer with
    | nil => exact h
    | cons parent outer =>
      exact ⟨h.stacked.2.2.push (h.stacked.close h.pending), by simp [Reading.closeBlock]⟩

/-- An added statement meets the norm if its text does. -/
theorem Meets.addStatement {state : Reading} {head : Text} (h : state.Meets norm)
    (ht : Text.trim head ≠ [] → norm.statement head) : (state.addStatement head).Meets norm := by
  unfold Reading.addStatement
  by_cases he : Text.trim head = []
  · rwa [if_pos (List.isEmpty_iff.mpr he)]
  · rw [if_neg (by simpa using he)]
    exact ⟨h.stacked.push (.statement (ht he) h.pending), by simp⟩

/-- One token keeps the norm. -/
theorem Meets.step {state : Reading} {token : Token} (h : state.Meets norm)
    (ht : token.Meets norm) : (state.step token).Meets norm := by
  cases token with
  | space run => exact h
  | comment text =>
    refine ⟨h.stacked, fun c hc => ?_⟩
    rcases List.mem_append.mp hc with hc | hc
    · exact h.pending c hc
    · rwa [List.mem_singleton.mp hc]
  | opening head => exact h.openBlock ht
  | statement head ended => exact h.addStatement ht
  | closing => exact h.closeBlock

/-- A run of tokens keeps the norm. -/
theorem Meets.foldl {state : Reading} {tokens : List Token} (h : state.Meets norm)
    (ht : ∀ token ∈ tokens, token.Meets norm) : (tokens.foldl Reading.step state).Meets norm := by
  induction tokens generalizing state with
  | nil => exact h
  | cons token tokens ih =>
    exact ih (h.step (ht token List.mem_cons_self))
      fun next hn => ht next (List.mem_cons_of_mem token hn)

/-- A stack that is closed makes a sheet. -/
theorem Stacked.closeAll {block : OpenBlock} {outer : List OpenBlock} {pending : List Text}
    (h : Stacked norm block outer) (hp : ∀ comment ∈ pending, norm.comment comment) :
    (Reading.closeAll block pending outer).IsSheet norm := by
  induction outer generalizing block pending with
  | nil =>
    refine ⟨by simp [Reading.closeAll, OpenBlock.close, Node.isRoot, h.2], fun c hc => ?_,
      h.1.children⟩
    rcases List.mem_append.mp hc with hc | hc
    · exact h.1.comments c hc
    · exact hp c hc
  | cons parent outer ih => exact ih (h.2.2.push (h.close hp)) (by simp)

end Reading

/-- A token has no character that the text lacks. -/
theorem mem_of_mem_token {t : Text} {token : Token} (h : token ∈ scan t) {c : Char}
    (hc : c ∈ token.text) : c ∈ t := by
  rw [← flatMap_scan t]
  exact List.mem_flatMap.mpr ⟨token, h, hc⟩

/-- The tree of a text meets every norm that its tokens meet. -/
theorem parse_isSheet {norm : Norm} {t : Text} (h : ∀ token ∈ scan t, token.Meets norm) :
    (parse t).IsSheet norm := by
  have hend := (Reading.Meets.start norm).foldl h
  exact hend.stacked.closeAll hend.pending

end StyleModules
