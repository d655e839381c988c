import StyleModules.Proofs.Sheet.Descent
import StyleModules.Proofs.Sheet.Lexis
import StyleModules.Proofs.Sheet.Listing

/-!
# A sheet and its tokens

What the tree of a sheet holds, comments apart, can be read off its tokens from left to right with
a stack of selectors: an opening brace pushes the selector before it, even an empty one, a closing
brace pops one if there is any. A head that is not blank makes a node, and the selectors on the
stack that are not empty are those around it. So every statement and every selector of the text is
in the tree, word for word and in order, and nothing else is (`parse_represents`).
-/

namespace StyleModules

/-- The node that a token starts, as it stands alone. -/
def Token.node? : Token → Option Node
  | .opening head =>
    if (Text.trim head).isEmpty then none else some (Node.emptyBlock (Text.trim head))
  | .statement head _ =>
    if (Text.trim head).isEmpty then none else some (Node.ofStatement head [])
  | _ => none

/-- The head of a statement that is not blank. -/
def Token.statement? : Token → Option Text
  | .statement head _ => if (Text.trim head).isEmpty then none else some head
  | _ => none

/-- The text of a comment. -/
def Token.comment? : Token → Option Text
  | .comment text => some text
  | _ => none

/-- The selector of a block, if it is not empty. -/
def Token.selector? : Token → Option Text
  | .opening head => if (Text.trim head).isEmpty then none else some (Text.trim head)
  | _ => none

/-- The text of a statement. -/
def Node.statement? (node : Node) : Option Text :=
  if node.kind = .leaf then some node.content else none

/-- The selector of a block. -/
def Node.rule? (node : Node) : Option Text :=
  if node.kind = .block then node.selector else none

/-- The placed node without its comments. -/
def Placed.bare (placed : Placed) : Placed :=
  { placed with node := { placed.node with comments := [] } }

/-- The selectors of the open braces behind one more token, innermost first. -/
def braceStep (braces : List Text) : Token → List Text
  | .opening head => Text.trim head :: braces
  | .closing => braces.tail
  | _ => braces

/-- The nodes that tokens start, with the selectors around them, given the braces that are open. -/
def outline (braces : List Text) : List Token → List Placed
  | [] => []
  | token :: tokens =>
    (token.node?.map (Placed.mk (braces.filter (!·.isEmpty)).reverse)).toList ++
      outline (braceStep braces token) tokens

namespace Flat

/-- A token changes the selectors of the open braces as it changes the stack of selectors. -/
theorem selectors_step (flat : Flat) (token : Token) :
    (flat.step token).braces.map Brace.selector =
      braceStep (flat.braces.map Brace.selector) token := by
  obtain ⟨listing, braces, pending⟩ := flat
  cases token with
  | space run => rfl
  | comment text => rfl
  | statement head ended =>
    rw [step]
    split <;> rfl
  | opening head =>
    rw [step]
    split
    · next hblank => simp [braceStep, List.isEmpty_iff.mp hblank]
    · rfl
  | closing =>
    cases braces with
    | nil => rfl
    | cons brace braces =>
      show (if brace.selector.isEmpty then _ else _ : Flat).braces.map Brace.selector = _
      split <;> rfl

/-- Comments that go to a node make no difference to the nodes without their comments. -/
theorem bare_leave (flat : Flat) : flat.leave.listing.map Placed.bare =
    flat.listing.map Placed.bare := by
  have hmodify : ∀ (listing : List Placed) (place : Nat),
      (listing.modify place (Placed.addComments flat.pending)).map Placed.bare =
        listing.map Placed.bare := by
    intro listing
    induction listing with
    | nil => intro place; simp
    | cons placed listing ih =>
      intro place
      cases place with
      | zero => rfl
      | succ place => rw [List.modify_succ_cons, List.map_cons, List.map_cons, ih]
  exact hmodify flat.listing flat.home

/-- One token adds the node that it starts. -/
theorem bare_step (flat : Flat) (token : Token) :
    (flat.step token).listing.map Placed.bare = flat.listing.map Placed.bare ++
      (token.node?.map (Placed.mk flat.around)).toList := by
  cases token with
  | space run => exact (List.append_nil _).symm
  | comment text => exact (List.append_nil _).symm
  | statement head ended =>
    rw [step, Token.node?]
    split
    · exact (List.append_nil _).symm
    · rw [start, List.map_append]
      rfl
  | opening head =>
    rw [step, Token.node?]
    split
    · exact (List.append_nil _).symm
    · rw [start, List.map_append]
      rfl
  | closing =>
    refine Eq.trans ?_ (List.append_nil _).symm
    rw [step]
    split
    · rfl
    · split
      · rfl
      · exact bare_leave flat

/-- A run of tokens adds the outline that belongs to the braces that are open. -/
theorem bare_foldl (flat : Flat) (tokens : List Token) :
    (tokens.foldl step flat).listing.map Placed.bare =
      flat.listing.map Placed.bare ++ outline (flat.braces.map Brace.selector) tokens := by
  induction tokens generalizing flat with
  | nil => exact (List.append_nil _).symm
  | cons token tokens ih =>
    rw [List.foldl_cons, ih, bare_step, selectors_step, List.append_assoc]
    rfl

end Flat

/-- The nodes of a sheet without their comments are the sheet itself and the outline of its
tokens. -/
theorem bare_listing_parse (t : Text) :
    ((parse t).listing []).map Placed.bare = ⟨[], { kind := .block }⟩ :: outline [] (scan t) := by
  rw [listing_parse, Flat.bare_leave, Flat.bare_foldl]
  rfl

section Parts

variable {α : Type} {f : Placed → Option α} {part? : Token → Option α}

/-- What is taken of the nodes of an outline is taken of the tokens that start them. -/
theorem filterMap_outline
    (h : ∀ token around, (token.node?.map (Placed.mk around)).bind f = part? token)
    (braces : List Text) (tokens : List Token) :
    (outline braces tokens).filterMap f = tokens.filterMap part? := by
  induction tokens generalizing braces with
  | nil => rfl
  | cons token tokens ih =>
    rw [outline, List.filterMap_append, ih, List.filterMap_cons,
      ← h token (braces.filter (!·.isEmpty)).reverse]
    cases hnode : token.node? with
    | none => rfl
    | some node =>
      show ([Placed.mk _ node].filterMap f) ++ _ = _
      rw [List.filterMap_cons]
      simp only [Option.map_some, Option.bind_some]
      split <;> rfl

/-- The same of a sheet, if nothing is taken of the sheet itself and comments do not matter. -/
theorem filterMap_listing_parse (hbare : ∀ placed, f placed.bare = f placed)
    (hroot : f ⟨[], { kind := .block }⟩ = none)
    (h : ∀ token around, (token.node?.map (Placed.mk around)).bind f = part? token) (t : Text) :
    ((parse t).listing []).filterMap f = (scan t).filterMap part? := by
  have hmap : ((parse t).listing []).filterMap f =
      (((parse t).listing []).map Placed.bare).filterMap f := by
    rw [List.filterMap_map]
    exact List.filterMap_congr fun placed _ => (hbare placed).symm
  rw [hmap, bare_listing_parse, List.filterMap_cons, hroot]
  exact filterMap_outline h [] (scan t)

end Parts

/-- The node of a token has the token's statement. -/
theorem Token.node?_bind_statement? (token : Token) (around : List Text) :
    (token.node?.map (Placed.mk around)).bind (·.node.statement?) = token.statement? := by
  cases token with
  | statement head ended =>
    by_cases hblank : (Text.trim head).isEmpty = true <;>
      simp [node?, Token.statement?, Node.statement?, Node.ofStatement, hblank]
  | opening head =>
    by_cases hblank : (Text.trim head).isEmpty = true <;>
      simp [node?, Token.statement?, Node.statement?, Node.emptyBlock, hblank]
  | _ => rfl

/-- The node of a token has the token's selector. -/
theorem Token.node?_bind_rule? (token : Token) (around : List Text) :
    (token.node?.map (Placed.mk around)).bind (·.node.rule?) = token.selector? := by
  cases token with
  | statement head ended =>
    by_cases hblank : (Text.trim head).isEmpty = true <;>
      simp [node?, Token.selector?, Node.rule?, Node.ofStatement, hblank]
  | opening head =>
    by_cases hblank : (Text.trim head).isEmpty = true <;>
      simp [node?, Token.selector?, Node.rule?, Node.emptyBlock, hblank]
  | _ => rfl

/-- The tree is made of the tokens. -/
structure Node.Represents (tokens : List Token) (root : Node) : Prop where
  /-- It is what reading by descent makes of them. -/
  descent : root = sheetByDescent tokens
  /-- Its statements are the heads that are not blank and open no block, in their order. -/
  statements : (root.listing []).filterMap (·.node.statement?) = tokens.filterMap Token.statement?
  /-- Its selectors are those before opening braces that are not empty, in their order. -/
  selectors : (root.listing []).filterMap (·.node.rule?) = tokens.filterMap Token.selector?
  /-- Its nodes, with the selectors around them, are those that the stack of braces gives. -/
  places : (root.listing []).map Placed.bare = ⟨[], { kind := .block }⟩ :: outline [] tokens
  /-- Below the sheet itself there are only statements and blocks with a selector. -/
  plain : ∀ node ∈ root.children, node.IsPlain

/-- Every text has exactly one list of tokens, the one that scanning finds. Their texts make up the
text, and its tree is made of them. -/
theorem parse_represents (t : Text) :
    (∀ tokens, IsLexed t tokens ↔ scan t = tokens) ∧ (scan t).flatMap Token.text = t ∧
      (parse t).Represents (scan t) :=
  ⟨fun _ => isLexed_iff, flatMap_scan t,
    { descent := parse_eq_sheetByDescent t
      statements := filterMap_listing_parse (fun _ => rfl) rfl Token.node?_bind_statement? t
      selectors := filterMap_listing_parse (fun _ => rfl) rfl Token.node?_bind_rule? t
      places := bare_listing_parse t
      plain := (isPlain_parse t).2.2 }⟩

end StyleModules
