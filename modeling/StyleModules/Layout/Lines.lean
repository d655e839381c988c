import StyleModules.Layout.Plan
import StyleModules.Sheet.Tree

/-!
# Laying out a stylesheet

The layout of a node is a list of entries, each of them a line or a comment of several lines. In a
block the planned declarations come first, then the other children in their order; a blank entry
sets blocks off from what stands beside them. A sheet's text is its entries without the blank ones
at either end, each ended by a line feed.

A stored specification may have names that hold halves of characters. They matter only where they
label a group (`Node.needsHalf`): the layout is then no text (`Style.lay`).
-/

namespace StyleModules

/-- How a sheet is laid out: the specification, and whether groups are labelled. -/
structure Style (σ : Type := Text) where
  /-- The categories of declarations. -/
  spec : Spec σ := []
  /-- Labels are written in front of groups. -/
  headers : Bool := true

/-- The indentation at a depth. -/
def indent (depth : Nat) : Text := List.replicate depth '\t'

/-- A statement without the blanks around it and the semicolons behind it. -/
def cleanStatement (content : Text) : Text :=
  Text.trimEnd ((Text.trim content).dropEndWhile (· == ';'))

/-- A comment with its closing delimiter, which one that ran to the end of a sheet lacks. -/
def closeComment (comment : Text) : Text :=
  if 4 ≤ comment.length && ['*', '/'].isSuffixOf comment then comment
  else Text.trimEnd comment ++ " */".toList

/-- A declaration with one space behind the colon; the value is kept as it is. -/
def normaliseDeclaration (clean : Text) : Text :=
  let property := Text.trim (Text.before ':' clean)
  let value := Text.trim (Text.after ':' clean)
  if value.isEmpty then property ++ [':'] else property ++ [':', ' '] ++ value

/-- The text of a statement, without its semicolon. -/
def Node.statementText (node : Node) : Text :=
  let clean := cleanStatement node.content
  if node.isDeclaration && !clean.isEmpty then normaliseDeclaration clean else clean

/-- The entries of comments; those that the layout owns are left out. -/
def commentEntries (style : Style) (depth : Nat) (comments : List Text) : List Text :=
  (comments.filter (!isSuppressed style.spec.names ·)).map (indent depth ++ closeComment ·)

/-- The entries of a statement. -/
def statementEntries (style : Style) (depth : Nat) (node : Node) : List Text :=
  commentEntries style depth node.comments ++
    if node.statementText.isEmpty then [] else [indent depth ++ node.statementText ++ [';']]

/-- The entries of a label; without a text it is a blank line. -/
def labelEntries (depth : Nat) (label : Text) : List Text :=
  if label.isEmpty then [[]] else [[], indent depth ++ label]

/-- A part of a block's body: its entries, and whether it is a block. -/
structure Part where
  /-- The part is a block, which is set off by blank entries. -/
  isBlock : Bool
  /-- The entries. -/
  entries : List Text

/-- The entries of parts, one below the other. The truth values say whether there are entries
before them, and whether the part before them is a block. -/
def joinParts : Bool → Bool → List Part → List Text
  | _, _, [] => []
  | started, afterBlock, part :: rest =>
    (if started && (part.isBlock || afterBlock) then [[]] else []) ++ part.entries ++
      joinParts (started || !part.entries.isEmpty) part.isBlock rest

/-- A child of a block with its entries. -/
structure LaidChild where
  /-- The child. -/
  node : Node
  /-- Its entries. -/
  entries : List Text

/-- The child is left out: labels are made afresh. -/
def LaidChild.isDropped (style : Style) (child : LaidChild) : Bool :=
  child.node.kind == .header ||
    (child.node.kind == .comment && isHeader style.spec.names child.node.content)

/-- The part of a child. -/
def LaidChild.part (child : LaidChild) : Part := ⟨child.node.kind == .block, child.entries⟩

/-- The part of a step of the plan. -/
def stepPart (depth : Nat) : Step LaidChild → Part
  | .label name => ⟨false, labelEntries depth (headerComment name)⟩
  | .spacer => ⟨false, labelEntries depth []⟩
  | .item child => child.part

/-- The parts of a body: the planned declarations, then the other children. -/
def bodyParts (style : Style) (depth : Nat) (children : List LaidChild) : List Part :=
  let kept := children.filter (!·.isDropped style)
  let declarations := kept.filter (·.node.isDeclaration)
  let others := kept.filter (!·.node.isDeclaration)
  (plan (·.node.propertyName) style.spec style.headers declarations).map (stepPart depth) ++
    others.map LaidChild.part

/-- The entries of a body. -/
def bodyEntries (style : Style) (depth : Nat) (children : List LaidChild) : List Text :=
  joinParts false false (bodyParts style depth children)

/-- The entries of a block around those of its body; an empty body is one blank entry. -/
def blockEntries (style : Style) (depth : Nat) (selector : Text) (comments : List Text)
    (body : List Text) : List Text :=
  commentEntries style depth comments ++ [indent depth ++ selector ++ [' ', '\x7b']] ++
    (if body.isEmpty then [[]] else body) ++ [indent depth ++ ['\x7d']]

mutual

/-- The entries of a node at a depth. -/
def nodeEntries (style : Style) (depth : Nat) : Node → List Text
  | ⟨.leaf, selector, content, children, comments⟩ =>
    statementEntries style depth ⟨.leaf, selector, content, children, comments⟩
  | ⟨.comment, _, content, _, _⟩ => commentEntries style depth [content]
  | ⟨.header, _, content, _, _⟩ => labelEntries depth content
  | ⟨.block, none, _, children, comments⟩ =>
    bodyEntries style depth (layChildren style depth children) ++
      commentEntries style depth comments
  | ⟨.block, some selector, _, children, comments⟩ =>
    blockEntries style depth selector comments
      (bodyEntries style (depth + 1) (layChildren style (depth + 1) children))

/-- Children with their entries. -/
def layChildren (style : Style) (depth : Nat) : List Node → List LaidChild
  | [] => []
  | node :: rest => ⟨node, nodeEntries style depth node⟩ :: layChildren style depth rest

end

/-- Children are laid out one by one. -/
theorem layChildren_eq_map (style : Style) (depth : Nat) (nodes : List Node) :
    layChildren style depth nodes = nodes.map fun node => ⟨node, nodeEntries style depth node⟩ := by
  induction nodes with
  | nil => rfl
  | cons node rest ih => rw [layChildren, List.map_cons, ih]

/-- Remove the blank entries from the end. -/
def dropBlankEnd : List Text → List Text
  | [] => []
  | entry :: rest =>
    match dropBlankEnd rest with
    | [] => if Text.isBlankText entry then [] else [entry]
    | next :: kept => entry :: next :: kept

/-- The entries between the first and the last that is not blank. -/
def trimEntries (entries : List Text) : List Text :=
  dropBlankEnd (entries.dropWhile Text.isBlankText)

/-- The text of entries, each ended by a line feed. -/
def renderEntries (entries : List Text) : Text := entries.flatMap (· ++ ['\n'])

/-- The canonical text of a tree. -/
def Node.format (style : Style) (root : Node) : Text :=
  renderEntries (trimEntries (nodeEntries style 0 root))

/-- The canonical text of a stylesheet. -/
def formatText (style : Style) (css : Text) : Text := (parse css).format style

section Stored

variable {σ : Type} [Script σ]

/-- The style with the code points of its specification. -/
def Style.stored (style : Style σ) : Style CodeText := ⟨style.spec.stored, style.headers⟩

/-- The style as far as it is spelled by texts. -/
def Style.spelled (style : Style σ) : Style := ⟨style.spec.spelled, style.headers⟩

/-- The node is a declaration of a category whose name spells no text. -/
def Style.isNameless (style : Style σ) (node : Node) : Bool :=
  node.isDeclaration &&
    (style.spec[style.spec.spelled.index node.propertyName]?).any fun category =>
      (Script.text? category.name).isNone

mutual

/-- Some group in the layout of a node has a label that holds a half. -/
def Node.needsHalf (style : Style σ) : Node → Bool
  | ⟨.block, _, _, children, _⟩ =>
    (style.headers && children.any style.isNameless) || anyNeedsHalf style children
  | _ => false

/-- Some group in the layouts of the nodes has a label that holds a half. -/
def anyNeedsHalf (style : Style σ) : List Node → Bool
  | [] => false
  | node :: rest => node.needsHalf style || anyNeedsHalf style rest

end

/-- Nodes are asked one by one. -/
theorem anyNeedsHalf_eq_any (style : Style σ) (nodes : List Node) :
    anyNeedsHalf style nodes = nodes.any (·.needsHalf style) := by
  induction nodes with
  | nil => rfl
  | cons node rest ih => rw [anyNeedsHalf, List.any_cons, ih]

/-- The canonical text of a tree, unless a label in it holds a half. -/
def Style.lay (style : Style σ) (root : Node) : Option Text :=
  if root.needsHalf style then none else some (root.format style.spelled)

/-- A style of texts is spelled by them. -/
@[simp] theorem Style.spelled_text (style : Style) : style.spelled = style := by
  rw [spelled, Spec.spelled_text]

/-- A specification of texts has no label that holds a half. -/
@[simp] theorem Node.needsHalf_text (style : Style) (node : Node) :
    node.needsHalf style = false := by
  induction node using Node.induction_children with
  | step node ih =>
    obtain ⟨kind, selector, content, children, comments⟩ := node
    cases kind with
    | block =>
      have hnamed : ∀ child, style.isNameless child = false := by simp [Style.isNameless]
      have hbelow : anyNeedsHalf style children = false := by
        rw [anyNeedsHalf_eq_any, List.any_eq_false]
        exact fun child hc => Bool.eq_false_iff.mp (ih child hc)
      simp [needsHalf, hnamed, hbelow]
    | leaf => rfl
    | header => rfl
    | comment => rfl

/-- By a specification of texts every tree is laid out as a text. -/
@[simp] theorem Style.lay_text (style : Style) (root : Node) :
    style.lay root = some (root.format style) := by
  rw [lay, Node.needsHalf_text, if_neg Bool.false_ne_true, spelled_text]

end Stored

end StyleModules
