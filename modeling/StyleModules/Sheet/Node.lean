import StyleModules.Text.Word
import StyleModules.Text.Segment

/-!
# Nodes of a stylesheet

A stylesheet is a tree of nodes. A block has a selector and children, and the block without a
selector is the sheet itself. A leaf is one statement, kept as it was written. Header and comment
nodes are put in by tools that edit a tree; reading a sheet produces none. Every node carries the
comments that belong to it.
-/

namespace StyleModules

/-- The kinds of node. -/
inductive NodeKind where
  /-- A rule with children, or the sheet itself. -/
  | block
  /-- A statement. -/
  | leaf
  /-- A category label or a blank line, made while a sheet is laid out. -/
  | header
  /-- A comment that stands on its own. -/
  | comment
  deriving DecidableEq, Inhabited, Repr

/-- The name of a kind. -/
def NodeKind.name : NodeKind → Text
  | block => "block".toList
  | leaf => "leaf".toList
  | header => "header".toList
  | comment => "comment".toList

/-- The kind of a name. -/
def NodeKind.ofName? (name : Text) : Option NodeKind :=
  [block, leaf, header, comment].find? (·.name == name)

/-- A kind is found by its name. -/
@[simp] theorem NodeKind.ofName?_name (kind : NodeKind) :
    NodeKind.ofName? kind.name = some kind := by
  cases kind <;> decide

/-- A unit of a stylesheet. -/
structure Node where
  /-- What sort of unit this is. -/
  kind : NodeKind
  /-- The selector of a block; the sheet itself has none. -/
  selector : Option Text := none
  /-- The text of a statement, exactly as it stood between separators. -/
  content : Text := []
  /-- The statements of a block. -/
  children : List Node := []
  /-- The comments that belong to the unit, with their delimiters. -/
  comments : List Text := []
  deriving Inhabited, Repr

namespace Node

/-- What holds of a node if it holds of its children holds of every node. -/
@[elab_as_elim] theorem induction_children {motive : Node → Prop}
    (step : ∀ node : Node, (∀ child ∈ node.children, motive child) → motive node)
    (node : Node) : motive node :=
  step node fun child _ => induction_children step child
termination_by sizeOf node
decreasing_by
  next hmem =>
  obtain ⟨kind, selector, content, children, comments⟩ := node
  have hlt : sizeOf child < sizeOf children := List.sizeOf_lt_of_mem hmem
  rw [mk.sizeOf_spec]
  omega

/-- A statement with the comments before it. -/
def ofStatement (content : Text) (comments : List Text) : Node :=
  { kind := .leaf, content := content, comments := comments }

/-- An empty block. -/
def emptyBlock (selector : Text) : Node := { kind := .block, selector := some selector }

/-- The sheet itself is the block without a selector. -/
def isRoot (node : Node) : Bool := node.kind == .block && node.selector.isNone

/-- A declaration is a statement with a colon that is no at-rule. -/
def isDeclaration (node : Node) : Bool :=
  node.kind == .leaf && node.content.contains ':' && (Text.trim node.content).head? != some '@'

/-- The property of a declaration: the text before the first colon, trimmed. -/
def propertyName (node : Node) : Text := Text.trim (Text.before ':' node.content)

mutual

/-- A node has content if it is a statement that is not empty, or holds one somewhere below. -/
def hasContent : Node → Bool
  | ⟨.leaf, _, content, _, _⟩ => !content.isEmpty
  | ⟨.block, _, _, children, _⟩ => anyHasContent children
  | ⟨.header, _, _, children, _⟩ => anyHasContent children
  | ⟨.comment, _, _, children, _⟩ => anyHasContent children

/-- Some node of the list has content. -/
def anyHasContent : List Node → Bool
  | [] => false
  | node :: rest => hasContent node || anyHasContent rest

end

/-- Nodes have content if one of them has. -/
theorem anyHasContent_eq_any (nodes : List Node) : anyHasContent nodes = nodes.any hasContent := by
  induction nodes with
  | nil => rfl
  | cons node rest ih => rw [anyHasContent, List.any_cons, ih]

end Node

/-- A class in a selector is a point followed by a name. -/
def recogniseClass : Recogniser Text
  | _, '.' :: c :: rest =>
    if isNameStart c then
      let tail := rest.takeWhile isNameChar
      some (tail.length + 2, c :: tail)
    else none
  | _, _ => none

/-- The class names a block's selector mentions, in order and without repetition. -/
def Node.classes (node : Node) : List Text :=
  match node.kind, node.selector with
  | .block, some selector => (occurrences recogniseClass selector).eraseDups
  | _, _ => []

end StyleModules
