import Mathlib.Data.List.Perm.Basic
import StyleModules.Proofs.Layout.Quoting
import StyleModules.Proofs.Layout.RoundTrip

/-!
# Statements under layout

Laying out a sheet changes the blanks of its statements and the semicolons behind them, and brings
declarations into another order. All else about them stays: at each place of the canonical tree
there are the statements that the sheet has there (`statementsAt_canonical`). The canonical tree is
what is read back if nothing in the text is left open and no statement loses an escaped character
at its end (`statementsAt_formatText`). A statement that does lose one is run together with what
follows it (`statementsAt_formatText_not_perm`).
-/

namespace StyleModules

/-- What is left of a statement without its blanks and the semicolons behind it. -/
def Text.core (t : Text) : Text := Text.dropEndWhile (· == ';') (t.filter (!isBlank ·))

/-- Cleaning a statement keeps its core. -/
theorem core_cleanStatement (content : Text) :
    (cleanStatement content).core = content.core := by
  obtain ⟨front, rest, hcontent, hfront, hrest⟩ := exists_cleanStatement content
  have hnone : front.filter (!isBlank ·) = [] := by
    rw [List.filter_eq_nil_iff]
    intro c hc
    simp [List.all_eq_true.mp hfront c hc]
  have hsemicolons : ∀ c ∈ rest.filter (!isBlank ·), (c == ';') = true := by
    intro c hc
    obtain ⟨hm, hblank⟩ := List.mem_filter.mp hc
    rcases hrest c hm with hc | rfl
    · simp [hc] at hblank
    · rfl
  conv_rhs => rw [hcontent]
  rw [Text.core, Text.core, List.filter_append, List.filter_append, hnone, List.nil_append,
    Text.dropEndWhile_append_of_all hsemicolons]

/-- What is written for a statement has the same core. -/
theorem core_laidText (content : Text) : (laidText content).core = content.core := by
  cases hd : (Node.ofStatement content []).isDeclaration with
  | false => rw [laidText_of_not_declaration hd, core_cleanStatement]
  | true =>
    have hcolon := (colon_mem_cleanStatement content).mpr
      ((isDeclaration_ofStatement content []).mp hd).1
    obtain ⟨property, run, space, value, hsplit, hrun, hlaid, hspace⟩ :=
      exists_normaliseDeclaration (trim_cleanStatement content) hcolon
    have hcolons : (':' :: space).filter (!isBlank ·) = [':'] := by
      rcases hspace with rfl | rfl <;> decide
    rw [← core_cleanStatement content, laidText_of_declaration hd, Text.core, Text.core, hlaid,
      List.filter_append, List.filter_append, hcolons, ← hrun, ← List.filter_append,
      ← List.filter_append, ← hsplit]

section Arrange

variable {α : Type} {f : Node → List α} {g : Text → List α}

/-- The name that is written in front of a group. -/
def Group.label? (headers : Bool) (group : Group α) : Option Text :=
  if headers then group.category.map Category.name else none

/-- The names that are written in front of the groups of a block's declarations. -/
def labelsAmong (style : Style) (children : List Node) : List Text :=
  (groups Node.propertyName style.spec (children.filter (·.isDeclaration))).filterMap
    (Group.label? style.headers)

/-- A labelled group has its label once, and what its items have. -/
theorem Group.flatMap_labelled
    (hf : ∀ comment node, f (Node.precededBy comment node) = g comment ++ f node)
    (headers : Bool) {group : Group Node} (hne : group.items ≠ []) :
    (group.labelled headers).flatMap f =
      (group.label? headers).toList.flatMap (fun name => g (headerComment name)) ++
        group.items.flatMap f := by
  obtain ⟨index, category, items⟩ := group
  obtain ⟨first, rest, rfl⟩ := List.exists_cons_of_ne_nil hne
  cases headers with
  | false => rfl
  | true =>
    cases category with
    | none => rfl
    | some category =>
      show (first.precededBy _ :: rest).flatMap f =
        [category.name].flatMap _ ++ (first :: rest).flatMap f
      rw [List.flatMap_singleton, List.flatMap_cons, List.flatMap_cons, hf, List.append_assoc]

/-- What is taken from the children of a block stays the same when they are arranged, but for the
order and for what the labels bring. -/
theorem flatMap_arrange_labels_perm
    (hf : ∀ comment node, f (Node.precededBy comment node) = g comment ++ f node)
    (style : Style) (children : List Node) :
    ((arrange style children).flatMap f).Perm
      ((labelsAmong style children).flatMap (fun name => g (headerComment name)) ++
        children.flatMap f) := by
  have hgroups := (@alike_groupedItems Node Node.propertyName style.spec
    (children.filter (·.isDeclaration))).perm
  have hlabelled : (((groups Node.propertyName style.spec
      (children.filter (·.isDeclaration))).flatMap (Group.labelled style.headers)).flatMap f).Perm
      ((labelsAmong style children).flatMap (fun name => g (headerComment name)) ++
        (groupedItems Node.propertyName style.spec
          (children.filter (·.isDeclaration))).flatMap f) := by
    rw [labelsAmong, List.filterMap_eq_flatMap_toList, groupedItems, List.flatMap_assoc,
      List.flatMap_assoc, List.flatMap_assoc]
    refine List.Perm.trans (.of_eq ?_) (List.flatMap_append_perm _ _ _).symm
    exact List.flatMap_congr fun group hg =>
      Group.flatMap_labelled hf style.headers (items_ne_nil_of_mem_groups hg)
  rw [arrange, List.flatMap_append]
  refine (hlabelled.append_right _).trans ?_
  rw [List.append_assoc, ← List.flatMap_append]
  exact ((hgroups.append_right _).trans
    (List.filter_append_perm (·.isDeclaration) children)).flatMap_right f |>.append_left _

/-- What is taken from the children of a block stays the same when they are arranged, but for the
order, if labels make no difference to it. -/
theorem flatMap_arrange_perm (hf : ∀ comment node, f (Node.precededBy comment node) = f node)
    (style : Style) (children : List Node) :
    ((arrange style children).flatMap f).Perm (children.flatMap f) := by
  have hnone : ∀ names : List Text, names.flatMap (fun _ => ([] : List α)) = [] := by simp
  have hperm := flatMap_arrange_labels_perm (g := fun _ => []) hf style children
  rwa [hnone, List.nil_append] at hperm

end Arrange

section Place

variable {chain : List Text}

/-- The core of a statement, if the selectors around it are those of the chain. -/
def Placed.core? (chain : List Text) (placed : Placed) : Option Text :=
  if placed.around = chain then placed.node.statement?.map Text.core else none

/-- The cores of the statements whose selectors around them are those of the chain, in order. -/
def Node.statementsAt (root : Node) (chain : List Text) : List Text :=
  (root.listing []).filterMap (Placed.core? chain)

/-- The cores that a node and those below it bring to a place, given the selectors around it. -/
def Node.coresAt (chain around : List Text) (node : Node) : List Text :=
  (node.listing around).filterMap (Placed.core? chain)

/-- The cores at a chain are those of the nodes, one after the other. -/
theorem filterMap_listAll (around : List Text) (nodes : List Node) :
    (listAll around nodes).filterMap (Placed.core? chain) =
      nodes.flatMap (Node.coresAt chain around) := by
  induction nodes with
  | nil => rfl
  | cons node nodes ih =>
    rw [listAll, List.filterMap_append, ih, List.flatMap_cons]
    rfl

/-- A comment before a node does not change its cores. -/
theorem Node.coresAt_precededBy (around : List Text) (comment : Text) (node : Node) :
    (node.precededBy comment).coresAt chain around = node.coresAt chain around := by
  cases node
  rfl

/-- A statement has its core at the chain around it. -/
theorem Node.coresAt_ofStatement (around : List Text) (content : Text) (comments : List Text) :
    (Node.ofStatement content comments).coresAt chain around =
      if around = chain then [content.core] else [] := by
  show [_].filterMap (Placed.core? chain) = _
  rw [List.filterMap_cons, List.filterMap_nil]
  by_cases hplace : around = chain <;> simp [Placed.core?, Node.statement?, hplace]

/-- A block has the cores of its children, with its selector around them. -/
theorem Node.coresAt_block (around : List Text) (selector : Option Text) (content : Text)
    (children : List Node) (comments : List Text) :
    Node.coresAt chain around ⟨.block, selector, content, children, comments⟩ =
      children.flatMap (Node.coresAt chain (around ++ selector.toList)) := by
  rw [Node.coresAt, Node.listing, List.filterMap_cons, filterMap_listAll]
  simp [Placed.core?, Node.statement?]

/-- The children of a canonical block bring to a place what the children of the block bring. -/
theorem flatMap_coresAt_perm (style : Style) {around : List Text} {children : List Node}
    (h : ∀ child ∈ children,
      ((child.canonical style).coresAt chain around).Perm (child.coresAt chain around)) :
    ((arrange style (canonicalAll style children)).flatMap (Node.coresAt chain around)).Perm
      (children.flatMap (Node.coresAt chain around)) := by
  refine (flatMap_arrange_perm (Node.coresAt_precededBy around) style _).trans ?_
  rw [canonicalAll_eq_map, List.flatMap_map]
  exact List.Perm.flatMap_left children h

/-- A node and its canonical tree bring the same statements to every place. -/
theorem Node.IsPlain.coresAt_canonical {node : Node} (h : node.IsPlain) (style : Style)
    (around : List Text) :
    ((node.canonical style).coresAt chain around).Perm (node.coresAt chain around) := by
  induction h generalizing around with
  | @statement content comments =>
    show (Node.coresAt chain around (Node.ofStatement (laidText content) _)).Perm _
    rw [Node.coresAt_ofStatement, Node.coresAt_ofStatement, core_laidText]
  | block _ ih =>
    rw [Node.canonical, Node.coresAt_block, Node.coresAt_block]
    exact flatMap_coresAt_perm style fun child hc => ih child hc _

/-- The tree of a text and its canonical tree have the same statements at every place. -/
theorem statementsAt_canonical (style : Style) (css : Text) (chain : List Text) :
    (((parse css).canonical style).statementsAt chain).Perm ((parse css).statementsAt chain) := by
  obtain ⟨hroot, _, hchildren⟩ := isPlain_parse css
  generalize parse css = root at hroot hchildren
  obtain ⟨kind, selector, content, children, comments⟩ := root
  obtain ⟨rfl, rfl⟩ := Node.isRoot_mk_iff.mp hroot
  show (Node.coresAt chain [] _).Perm (Node.coresAt chain [] _)
  rw [Node.canonical, Node.coresAt_block, Node.coresAt_block]
  exact flatMap_coresAt_perm style fun child hc => (hchildren child hc).coresAt_canonical style _

end Place

section Format

/-- A text in which nothing is left open can be read back from its layout, if no statement loses an
escaped character at its end. -/
theorem Finished.legible {css : Text} (h : Finished css)
    (hescape : ∀ head ∈ (scan css).filterMap Token.statement?,
      endsInEscape (cleanStatement head) = false) : (parse css).IsSheet Norm.legible := by
  refine parse_isSheet fun token ht => ?_
  cases token with
  | space run => trivial
  | comment text =>
    have hclosed := h.comments _ ht text rfl
    show isClosedComment (closeComment text) = true
    rwa [closeComment_of_closed hclosed]
  | opening head => exact (h.soundHead ht rfl).closedSelector
  | statement head ended =>
    intro hne
    have hnamed : Token.statement? (.statement head ended) = some head :=
      if_neg (by simpa using hne)
    exact (h.soundHead ht rfl).closedStatement hne
      (hescape head (List.mem_filterMap.mpr ⟨_, ht, hnamed⟩))
  | closing => trivial

/-- Laying out a text in which nothing is left open leaves the statements at every place as they
are, but for their order, their blanks and the semicolons behind them, if no statement loses an
escaped character at its end. -/
theorem statementsAt_formatText (headers : Bool) {css : Text} (hfinished : Finished css)
    (hescape : ∀ head ∈ (scan css).filterMap Token.statement?,
      endsInEscape (cleanStatement head) = false) (chain : List Text) :
    ((parse (formatText ⟨[], headers⟩ css)).statementsAt chain).Perm
      ((parse css).statementsAt chain) := by
  have hclosed : Spec.Closed [] := by simp [Spec.Closed, Spec.names]
  rw [formatText, parse_format_of_legible hclosed (hfinished.legible hescape)]
  exact statementsAt_canonical ⟨[], headers⟩ css chain

/-- Declarations out of order in two blocks, with escaped and quoted stops, an escaped quote, and
escapes before blanks that stay. -/
def quotedText : Text :=
  (".a\\:b \x7b top:0 ;\tcontent : \"\\\"\x7b;\" ;x\\\x7d y;b\\ c\\\\ ; \x7d" ++
    "/* ; */ .d \\ \x7bb\\ : 'e' \x7d").toList

/-- A text with an escaped colon and a quoted brace keeps its statements. -/
theorem statementsAt_formatText_quoted :
    Finished quotedText ∧
      (∀ head ∈ (scan quotedText).filterMap Token.statement?,
        endsInEscape (cleanStatement head) = false) ∧
      ((parse (formatText ⟨[], true⟩ quotedText)).statementsAt [".a\\:b".toList]).Perm
        ((parse quotedText).statementsAt [".a\\:b".toList]) :=
  have hfinished : Finished quotedText := by decide +kernel
  have hescape : ∀ head ∈ (scan quotedText).filterMap Token.statement?,
      endsInEscape (cleanStatement head) = false := by decide +kernel
  ⟨hfinished, hescape, statementsAt_formatText true hfinished hescape _⟩

/-- Nothing is left open in these texts either. But cleaning takes the escaped blank, or semicolon,
from the end of the first statement. The backslash that is left there escapes the semicolon that is
put behind it, so that what follows is read as part of the statement. -/
theorem statementsAt_formatText_not_perm :
    (Finished "a\\ ; @x:y".toList ∧ ∀ headers,
      ¬((parse (formatText ⟨[], headers⟩ "a\\ ; @x:y".toList)).statementsAt []).Perm
        ((parse "a\\ ; @x:y".toList).statementsAt [])) ∧
    (Finished "a\\;;b\x7bc\x7d".toList ∧ ∀ headers,
      ¬((parse (formatText ⟨[], headers⟩ "a\\;;b\x7bc\x7d".toList)).statementsAt []).Perm
        ((parse "a\\;;b\x7bc\x7d".toList).statementsAt [])) := by
  decide +kernel

end Format

end StyleModules
