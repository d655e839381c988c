import StyleModules.Proofs.Sheet.Norm

/-!
# The nodes of a tree in order

The listing of a tree has its nodes in the order in which they start, each of them without its
children but with the selectors around it. A sheet's listing can be made without a tree: a flat
machine reads the tokens, keeps the list of the nodes that have started, and a stack of the braces
that are open, those without a selector among them. Where comments are left when a block ends, they
go to its place in the list.

The machine that builds the tree and the flat machine go side by side (`Reading.flat_step`), so the
listing of the tree is what the flat machine makes of the tokens (`listing_parse`).
-/

namespace StyleModules

/-- A node without its children, and the selectors around it from the outside in. -/
structure Placed where
  /-- The selectors of the blocks around the node. -/
  around : List Text
  /-- The node, without its children. -/
  node : Node

namespace Placed

/-- Comments behind those that the node has. -/
def addComments (comments : List Text) (placed : Placed) : Placed :=
  { placed with node := { placed.node with comments := placed.node.comments ++ comments } }

/-- No comments added change nothing. -/
@[simp] theorem addComments_nil (placed : Placed) : placed.addComments [] = placed := by
  obtain ⟨around, kind, selector, content, children, comments⟩ := placed
  simp [addComments]

end Placed

mutual

/-- The node and those below it, in the order in which they start. -/
def Node.listing (around : List Text) : Node → List Placed
  | ⟨kind, selector, content, children, comments⟩ =>
    ⟨around, ⟨kind, selector, content, [], comments⟩⟩ ::
      listAll (around ++ selector.toList) children

/-- The listings of several nodes. -/
def listAll (around : List Text) : List Node → List Placed
  | [] => []
  | node :: rest => node.listing around ++ listAll around rest

end

/-- Nodes in a row are listed one after the other. -/
theorem listAll_append (around : List Text) (nodes others : List Node) :
    listAll around (nodes ++ others) = listAll around nodes ++ listAll around others := by
  induction nodes with
  | nil => rfl
  | cons node nodes ih => rw [List.cons_append, listAll, listAll, ih, List.append_assoc]

/-- A brace that is open. -/
structure Brace where
  /-- The selector before it, trimmed; it may be empty. -/
  selector : Text
  /-- The place in the listing of the innermost block that is open behind it. -/
  place : Nat

/-- What has been read of a sheet, without a tree. -/
structure Flat where
  /-- The nodes that have started; the sheet itself is the first. -/
  listing : List Placed := [⟨[], { kind := .block }⟩]
  /-- The braces that are open, innermost first. -/
  braces : List Brace := []
  /-- The comments that wait for a node. -/
  pending : List Text := []

namespace Flat

/-- The selectors around the next node. -/
def around (flat : Flat) : List Text :=
  ((flat.braces.map Brace.selector).filter (!·.isEmpty)).reverse

/-- The place of the innermost open block. -/
def home (flat : Flat) : Nat := (flat.braces.head?.map Brace.place).getD 0

/-- A node starts, with the comments that wait. -/
def start (flat : Flat) (node : Node) : Flat :=
  { flat with
    listing := flat.listing ++ [⟨flat.around, { node with comments := flat.pending }⟩]
    pending := [] }

/-- The comments that wait go to the innermost open block. -/
def leave (flat : Flat) : Flat :=
  { flat with
    listing := flat.listing.modify flat.home (Placed.addComments flat.pending)
    pending := [] }

/-- Read one token. -/
def step (flat : Flat) : Token → Flat
  | .space _ => flat
  | .comment text => { flat with pending := flat.pending ++ [text] }
  | .statement head _ =>
    if (Text.trim head).isEmpty then flat else flat.start (Node.ofStatement head [])
  | .opening head =>
    if (Text.trim head).isEmpty then { flat with braces := ⟨[], flat.home⟩ :: flat.braces }
    else
      { flat.start (Node.emptyBlock (Text.trim head)) with
        braces := ⟨Text.trim head, flat.listing.length⟩ :: flat.braces }
  | .closing =>
    match flat.braces with
    | [] => flat
    | brace :: braces =>
      if brace.selector.isEmpty then { flat with braces := braces }
      else { flat.leave with braces := braces }

end Flat

section Simulation

/-- The selectors of the open blocks. -/
def stackAround : OpenBlock → List OpenBlock → List Text
  | block, [] => block.selector.toList
  | block, parent :: outer => stackAround parent outer ++ block.selector.toList

/-- An open block as it stands alone. -/
def OpenBlock.alone (block : OpenBlock) : Node :=
  ⟨.block, block.selector, [], [], block.comments⟩

/-- The nodes that have started, in order. -/
def stackListing : OpenBlock → List OpenBlock → List Placed
  | block, [] => ⟨[], block.alone⟩ :: listAll (stackAround block []) block.children
  | block, parent :: outer =>
    stackListing parent outer ++
      ⟨stackAround parent outer, block.alone⟩ ::
        listAll (stackAround block (parent :: outer)) block.children

/-- The place of the innermost open block. -/
def stackHome : List OpenBlock → Nat
  | [] => 0
  | parent :: outer => (stackListing parent outer).length

/-- The braces that are open. -/
def stackBraces : OpenBlock → List OpenBlock → List Brace
  | block, [] => List.replicate block.groups ⟨[], 0⟩
  | block, parent :: outer =>
    List.replicate block.groups ⟨[], stackHome (parent :: outer)⟩ ++
      ⟨block.selector.getD [], stackHome (parent :: outer)⟩ :: stackBraces parent outer

/-- A node pushed to a block changes no selector around. -/
theorem stackAround_push (block : OpenBlock) (outer : List OpenBlock) (node : Node) :
    stackAround (block.push node) outer = stackAround block outer := by
  cases outer <;> rfl

/-- A node pushed to a block changes no brace. -/
theorem stackBraces_push (block : OpenBlock) (outer : List OpenBlock) (node : Node) :
    stackBraces (block.push node) outer = stackBraces block outer := by
  cases outer <;> rfl

/-- A node that is added comes last, with what is below it. -/
theorem stackListing_push (block : OpenBlock) (outer : List OpenBlock) (node : Node) :
    stackListing (block.push node) outer =
      stackListing block outer ++ node.listing (stackAround block outer) := by
  have hone : ∀ around, listAll around [node] = node.listing around := fun around =>
    List.append_nil _
  cases outer with
  | nil =>
    rw [stackListing, stackListing, stackAround_push]
    simp [OpenBlock.push, OpenBlock.alone, listAll_append, hone]
  | cons parent outer =>
    rw [stackListing, stackListing, stackAround_push]
    simp [OpenBlock.push, OpenBlock.alone, listAll_append, hone]

/-- The list and the stack that belong to a reading. -/
def Reading.flat (state : Reading) : Flat :=
  ⟨stackListing state.block state.outer, stackBraces state.block state.outer, state.pending⟩

/-- What is asked of selectors: that they are there. -/
def Norm.named : Norm := ⟨fun _ => True, fun _ => True, (· ≠ [])⟩

/-- Every token meets the norm of named blocks. -/
theorem Token.meets_named (token : Token) : token.Meets Norm.named := by
  cases token with
  | space run => trivial
  | comment text => trivial
  | opening head => exact id
  | statement head ended => exact fun _ => trivial
  | closing => trivial

/-- Changing one element at its place changes it in the list. -/
theorem modify_append_cons {α : Type} (front : List α) (a : α) (back : List α) (f : α → α) :
    (front ++ a :: back).modify front.length f = front ++ f a :: back :=
  List.modifyTailIdx_add _ 0 front (a :: back)

namespace Reading

/-- The innermost open block of a reading is that of its stack. -/
theorem home_flat (state : Reading) : state.flat.home = stackHome state.outer := by
  obtain ⟨⟨selector, comments, children, groups⟩, outer, pending⟩ := state
  cases groups <;> cases outer <;> rfl

/-- The selectors around in a reading are those of its stack. -/
theorem around_flat {state : Reading} (h : Stacked Norm.named state.block state.outer) :
    state.flat.around = stackAround state.block state.outer := by
  obtain ⟨block, outer, pending⟩ := state
  show (((stackBraces block outer).map Brace.selector).filter (!·.isEmpty)).reverse =
    stackAround block outer
  induction outer generalizing block with
  | nil =>
    have hroot : block.selector = none := h.2
    simp [stackBraces, stackAround, hroot]
  | cons parent outer ih =>
    obtain ⟨_, ⟨selector, hname, hne⟩, hstacked⟩ := h
    have hnamed : selector ≠ [] := hne
    have hselector : block.selector = some selector := hname
    rw [stackAround, ← ih parent hstacked, hselector]
    simp [stackBraces, hselector, hnamed]

/-- A block that is closed keeps its place, and gets the comments that wait. -/
theorem stackListing_push_close (block parent : OpenBlock) (outer : List OpenBlock)
    (pending : List Text) :
    stackListing (parent.push (block.close pending)) outer =
      (stackListing block (parent :: outer)).modify (stackHome (parent :: outer))
        (Placed.addComments pending) := by
  rw [stackListing_push, stackListing, stackHome, modify_append_cons]
  rfl

/-- One token keeps the two machines side by side. -/
theorem flat_step {state : Reading} (h : state.Meets Norm.named) (token : Token) :
    (state.step token).flat = state.flat.step token := by
  have haround := around_flat h.stacked
  have hhome := home_flat state
  cases token with
  | space run => rfl
  | comment text => rfl
  | statement head ended =>
    rw [step, addStatement, Flat.step]
    by_cases hblank : (Text.trim head).isEmpty = true
    · rw [if_pos hblank, if_pos hblank]
    · rw [if_neg hblank, if_neg hblank, Flat.start, haround]
      simp only [flat, stackListing_push, stackBraces_push]
      rfl
  | opening head =>
    rw [step, openBlock, Flat.step]
    by_cases hblank : (Text.trim head).isEmpty = true
    · rw [if_pos hblank, if_pos hblank, hhome]
      obtain ⟨block, outer, pending⟩ := state
      cases outer with
      | nil => rfl
      | cons parent outer => rfl
    · rw [if_neg hblank, if_neg hblank, Flat.start, haround]
      rfl
  | closing =>
    obtain ⟨⟨selector, comments, children, groups⟩, outer, pending⟩ := state
    cases groups with
    | succ groups => cases outer <;> rfl
    | zero =>
      cases outer with
      | nil => rfl
      | cons parent outer =>
        obtain ⟨_, ⟨name, hname, hne⟩, _⟩ := h.stacked
        obtain rfl : selector = some name := hname
        have hnamed : name ≠ [] := hne
        have hkept : ¬name.isEmpty = true := by simpa using hnamed
        show Reading.flat ⟨parent.push (OpenBlock.close _ pending), outer, []⟩ = _
        rw [flat, stackListing_push_close, stackBraces_push]
        show _ = if name.isEmpty = true then _ else _
        rw [if_neg hkept]
        rfl

/-- A run of tokens keeps them side by side. -/
theorem flat_foldl {state : Reading} (h : state.Meets Norm.named) (tokens : List Token) :
    (tokens.foldl step state).flat = tokens.foldl Flat.step state.flat := by
  induction tokens generalizing state with
  | nil => rfl
  | cons token tokens ih =>
    rw [List.foldl_cons, List.foldl_cons, ← flat_step h token]
    exact ih (h.step token.meets_named)

/-- Closing all blocks at the end leaves the comments that wait to the innermost one. -/
theorem listing_finish (state : Reading) : state.finish.listing [] = state.flat.leave.listing := by
  show _ = state.flat.listing.modify state.flat.home (Placed.addComments state.pending)
  rw [home_flat]
  obtain ⟨block, outer, pending⟩ := state
  show (closeAll block pending outer).listing [] = (stackListing block outer).modify
    (stackHome outer) (Placed.addComments pending)
  induction outer generalizing block pending with
  | nil => rfl
  | cons parent outer ih =>
    have hnone : (Placed.addComments [] : Placed → Placed) = id := funext Placed.addComments_nil
    rw [closeAll, ih, stackListing_push_close, hnone, List.modify, List.modifyHead_id,
      List.modifyTailIdx_id]

end Reading

/-- The listing of a sheet is what the flat machine makes of its tokens. -/
theorem listing_parse (t : Text) :
    (parse t).listing [] = ((scan t).foldl Flat.step {}).leave.listing := by
  rw [parse, Reading.listing_finish, Reading.flat_foldl (Reading.Meets.start _)]
  rfl

end Simulation

end StyleModules
