import StyleModules.Proofs.Layout.Arrangement
import StyleModules.Proofs.Layout.Comment
import StyleModules.Proofs.Layout.Statement

/-!
# Canonical trees

The canonical tree of a sheet is the tree that its layout stands for. Comments that the layout owns
are gone, the others are closed. A statement has the text that is written for it. The children of a
block are declarations, group by group, and then the rest in its order; where groups are labelled,
the label of a category is the first comment of the first declaration in its group.
-/

namespace StyleModules

/-- The node with one more comment, in front of its own. -/
def Node.precededBy (comment : Text) (node : Node) : Node :=
  { node with comments := comment :: node.comments }

/-- The declarations of a group; the label of a category belongs to the first of them. -/
def Group.labelled (headers : Bool) (group : Group Node) : List Node :=
  match headers, group.category, group.items with
  | true, some category, first :: rest => first.precededBy (headerComment category.name) :: rest
  | _, _, items => items

/-- Without labels, or without a category, a group is left as it is. -/
theorem Group.labelled_of_plain {headers : Bool} {group : Group Node}
    (h : headers = false ∨ group.category = none) : group.labelled headers = group.items := by
  obtain ⟨index, category, items⟩ := group
  rcases h with rfl | rfl
  · rfl
  · cases headers <;> rfl

/-- The children of a block in the order of the layout. -/
def arrange (style : Style) (children : List Node) : List Node :=
  (groups Node.propertyName style.spec (children.filter (·.isDeclaration))).flatMap
      (Group.labelled style.headers) ++
    children.filter (!·.isDeclaration)

/-- The comments that are written, as they are written. -/
def keptComments (style : Style) (comments : List Text) : List Text :=
  (comments.filter (!isSuppressed style.spec.names ·)).map closeComment

mutual

/-- The tree that the layout of a tree stands for. -/
def Node.canonical (style : Style) : Node → Node
  | ⟨.leaf, _, content, _, comments⟩ =>
    Node.ofStatement (laidText content) (keptComments style comments)
  | ⟨.block, selector, _, children, comments⟩ =>
    ⟨.block, selector, [], arrange style (canonicalAll style children),
      keptComments style comments⟩
  | ⟨.header, selector, content, children, comments⟩ =>
    ⟨.header, selector, content, children, comments⟩
  | ⟨.comment, selector, content, children, comments⟩ =>
    ⟨.comment, selector, content, children, comments⟩

/-- The trees that the layouts of several trees stand for. -/
def canonicalAll (style : Style) : List Node → List Node
  | [] => []
  | node :: rest => node.canonical style :: canonicalAll style rest

end

/-- The trees for several trees are those for each. -/
theorem canonicalAll_eq_map (style : Style) (nodes : List Node) :
    canonicalAll style nodes = nodes.map (Node.canonical style) := by
  induction nodes with
  | nil => rfl
  | cons node rest ih => rw [canonicalAll, List.map_cons, ih]

namespace Node

/-- A comment before a node does not change its property. -/
@[simp] theorem propertyName_precededBy (comment : Text) (node : Node) :
    (node.precededBy comment).propertyName = node.propertyName := rfl

variable {norm : Norm} {style : Style} {node : Node}

/-- A declaration stays one, and no other statement becomes one. -/
theorem Meets.isDeclaration_canonical (h : node.Meets norm) :
    (node.canonical style).isDeclaration = node.isDeclaration := by
  cases h with
  | @statement _ _ _ comments _ _ => exact isDeclaration_laidText _ _ comments
  | block _ _ _ => rfl

/-- A declaration keeps its property. -/
theorem Meets.propertyName_canonical (h : node.Meets norm) (hd : node.isDeclaration = true) :
    (node.canonical style).propertyName = node.propertyName := by
  cases h with
  | @statement _ _ _ comments _ _ => exact @propertyName_laidText _ comments _ hd
  | block _ _ _ => simp [isDeclaration] at hd

end Node

/-- The canonical trees of declarations, and of other nodes, are those of the kind in question. -/
theorem filter_canonicalAll (style : Style) {norm : Norm} {children : List Node}
    (h : ∀ child ∈ children, child.Meets norm) (keep : Bool → Bool) :
    (canonicalAll style children).filter (keep ·.isDeclaration) =
      (children.filter (keep ·.isDeclaration)).map (Node.canonical style) := by
  rw [canonicalAll_eq_map, List.filter_map]
  refine congrArg (List.map (Node.canonical style)) (List.filter_congr fun child hc => ?_)
  exact congrArg keep (h child hc).isDeclaration_canonical

section Arrange

variable {style : Style}

/-- The declarations of a labelled group are its items, the first perhaps with the label. -/
theorem Group.mem_labelled {headers : Bool} {group : Group Node} {node : Node}
    (h : node ∈ group.labelled headers) :
    ∃ item ∈ group.items, node = item ∨ ∃ category, group.category = some category ∧
      node = item.precededBy (headerComment category.name) := by
  obtain ⟨index, category, items⟩ := group
  unfold Group.labelled at h
  split at h
  · next inner first rest hcategory hitems =>
    obtain rfl : category = some inner := hcategory
    obtain rfl : items = first :: rest := hitems
    rcases List.mem_cons.mp h with rfl | h
    · exact ⟨first, List.mem_cons_self, Or.inr ⟨_, rfl, rfl⟩⟩
    · exact ⟨node, List.mem_cons_of_mem first h, Or.inl rfl⟩
  · exact ⟨node, h, Or.inl rfl⟩

/-- The groups hold declarations of the children. -/
theorem mem_of_mem_groups {children : List Node} {group : Group Node} {item : Node}
    (hg : group ∈ groups Node.propertyName style.spec (children.filter (·.isDeclaration)))
    (hi : item ∈ group.items) : item ∈ children ∧ item.isDeclaration = true := by
  have hmem := (alike_groupedItems (children.filter (·.isDeclaration))).mem
    (List.mem_flatMap.mpr ⟨group, hg, hi⟩)
  exact List.mem_filter.mp hmem

/-- Labelled groups hold declarations. -/
theorem isDeclaration_of_mem_labelled {children : List Node} {node : Node}
    (h : node ∈ (groups Node.propertyName style.spec (children.filter (·.isDeclaration))).flatMap
      (Group.labelled style.headers)) : node.isDeclaration = true := by
  obtain ⟨group, hg, hn⟩ := List.mem_flatMap.mp h
  obtain ⟨item, hi, rfl | ⟨category, _, rfl⟩⟩ := Group.mem_labelled hn
  · exact (mem_of_mem_groups hg hi).2
  · exact (mem_of_mem_groups hg hi).2

/-- Arranging children brings the declarations to the front, with their labels. -/
theorem filter_arrange (children : List Node) :
    (arrange style children).filter (·.isDeclaration) =
      (groups Node.propertyName style.spec (children.filter (·.isDeclaration))).flatMap
        (Group.labelled style.headers) := by
  rw [arrange, List.filter_append, List.filter_eq_self.mpr fun _ => isDeclaration_of_mem_labelled,
    List.filter_filter]
  simp

/-- Arranging children leaves the order of the others as it is. -/
theorem filter_not_arrange (children : List Node) :
    (arrange style children).filter (!·.isDeclaration) =
      children.filter (!·.isDeclaration) := by
  rw [arrange, List.filter_append, List.filter_filter, List.filter_eq_nil_iff.mpr]
  · simp
  · intro node hn
    simp [isDeclaration_of_mem_labelled hn]

/-- An arranged child is a child, perhaps with a label. -/
theorem mem_arrange {children : List Node} {node : Node} (h : node ∈ arrange style children) :
    ∃ child ∈ children, node = child ∨ child.isDeclaration = true ∧
      ∃ name ∈ style.spec.names, node = child.precededBy (headerComment name) := by
  rw [arrange, List.mem_append] at h
  rcases h with h | h
  · obtain ⟨group, hg, hn⟩ := List.mem_flatMap.mp h
    obtain ⟨item, hi, rfl | ⟨category, hc, rfl⟩⟩ := Group.mem_labelled hn
    · exact ⟨node, (mem_of_mem_groups hg hi).1, Or.inl rfl⟩
    · have hname := List.mem_map_of_mem (f := Category.name) (category_mem_of_mem_groups hg hc)
      exact ⟨item, (mem_of_mem_groups hg hi).1,
        Or.inr ⟨(mem_of_mem_groups hg hi).2, category.name, hname, rfl⟩⟩
  · exact ⟨node, (List.mem_filter.mp h).1, Or.inl rfl⟩

/-- An item of a labelled group is there, perhaps with the label before it. -/
theorem Group.mem_labelled_of_mem {headers : Bool} {group : Group Node} {item : Node}
    (h : item ∈ group.items) :
    item ∈ group.labelled headers ∨
      ∃ comment, item.precededBy comment ∈ group.labelled headers := by
  obtain ⟨index, category, items⟩ := group
  unfold Group.labelled
  split
  · next inner first rest hcategory hitems =>
    obtain rfl : items = first :: rest := hitems
    rcases List.mem_cons.mp h with rfl | h
    · exact Or.inr ⟨_, List.mem_cons_self⟩
    · exact Or.inl (List.mem_cons_of_mem _ h)
  · exact Or.inl h

/-- No child is lost when children are arranged. -/
theorem mem_arrange_of_mem {children : List Node} {child : Node} (h : child ∈ children) :
    child ∈ arrange style children ∨
      ∃ comment, child.precededBy comment ∈ arrange style children := by
  simp only [arrange, List.mem_append]
  cases hd : child.isDeclaration with
  | false => exact Or.inl (Or.inr (List.mem_filter.mpr ⟨h, by simp [hd]⟩))
  | true =>
    have hitem : child ∈ groupedItems Node.propertyName style.spec
        (children.filter (·.isDeclaration)) :=
      (alike_groupedItems _).symm.mem (List.mem_filter.mpr ⟨h, hd⟩)
    obtain ⟨group, hg, hi⟩ := List.mem_flatMap.mp hitem
    rcases Group.mem_labelled_of_mem hi with hl | ⟨comment, hl⟩
    · exact Or.inl (Or.inl (List.mem_flatMap.mpr ⟨group, hg, hl⟩))
    · exact Or.inr ⟨comment, Or.inl (List.mem_flatMap.mpr ⟨group, hg, hl⟩)⟩

end Arrange

/-- What one norm asks of a sheet is carried over to what the other asks of its canonical tree. -/
structure Norm.Carries (style : Style) (norm other : Norm) : Prop where
  /-- For comments, as far as they are written. -/
  comment : ∀ t, norm.comment t → isSuppressed style.spec.names t = false →
    other.comment (closeComment t)
  /-- For statements. -/
  statement : ∀ t, norm.statement t → other.statement (laidText t)
  /-- For selectors. -/
  selector : ∀ t, norm.selector t → other.selector t
  /-- For the labels that are put in. -/
  label : ∀ name ∈ style.spec.names, other.comment (headerComment name)

namespace Norm.Carries

variable {style : Style} {norm other : Norm}

/-- Comments that are kept meet what they are carried to. -/
theorem keptComments (h : Norm.Carries style norm other) {comments : List Text}
    (hc : ∀ comment ∈ comments, norm.comment comment) :
    ∀ comment ∈ keptComments style comments, other.comment comment := by
  intro comment hm
  obtain ⟨original, ho, rfl⟩ := List.mem_map.mp hm
  obtain ⟨hmem, hkept⟩ := List.mem_filter.mp ho
  exact h.comment original (hc original hmem) (by simpa using hkept)

/-- Arranged children meet what the children do. -/
theorem arrange (h : Norm.Carries style norm other) {children : List Node}
    (hc : ∀ child ∈ children, child.Meets other) :
    ∀ child ∈ arrange style children, child.Meets other := by
  intro node hn
  obtain ⟨child, hm, rfl | ⟨hd, name, hname, rfl⟩⟩ := mem_arrange hn
  · exact hc node hm
  · cases hc child hm with
    | statement hcontent hcomments =>
      refine .statement hcontent fun comment hcomment => ?_
      rcases List.mem_cons.mp hcomment with rfl | hcomment
      · exact h.label name hname
      · exact hcomments comment hcomment
    | block _ _ _ => simp [Node.isDeclaration] at hd

/-- The tree for a tree meets what the tree is carried to. -/
theorem canonical (h : Norm.Carries style norm other) {node : Node} (hn : node.Meets norm) :
    (node.canonical style).Meets other := by
  induction hn with
  | statement hcontent hcomments =>
    exact .statement (h.statement _ hcontent) (h.keptComments hcomments)
  | block hselector hcomments _ ih =>
    refine .block (h.selector _ hselector) (h.keptComments hcomments) (h.arrange fun child hc => ?_)
    rw [canonicalAll_eq_map] at hc
    obtain ⟨original, ho, rfl⟩ := List.mem_map.mp hc
    exact ih original ho

/-- The trees for several trees meet what these are carried to. -/
theorem canonicalAll (h : Norm.Carries style norm other) {children : List Node}
    (hc : ∀ child ∈ children, child.Meets norm) :
    ∀ child ∈ canonicalAll style children, child.Meets other := by
  intro child hm
  rw [canonicalAll_eq_map] at hm
  obtain ⟨original, ho, rfl⟩ := List.mem_map.mp hm
  exact h.canonical (hc original ho)

/-- The canonical tree of a sheet meets what is carried over. -/
theorem isSheet (h : Norm.Carries style norm other) {root : Node} (hr : root.IsSheet norm) :
    (root.canonical style).IsSheet other := by
  obtain ⟨hroot, hcomments, hchildren⟩ := hr
  obtain ⟨kind, selector, content, children, comments⟩ := root
  obtain ⟨rfl, rfl⟩ := Node.isRoot_mk_iff.mp hroot
  exact ⟨rfl, h.keptComments hcomments, h.arrange (h.canonicalAll hchildren)⟩

end Norm.Carries

/-- What is asked of a sheet so that its layout can be read back: the texts that are written for
its comments and statements, and its selectors, are closed. -/
def Norm.legible : Norm where
  comment comment := isClosedComment (closeComment comment) = true
  statement content := ClosedStatement (laidText content)
  selector selector := ClosedSelector selector

/-- What is asked of a sheet all of whose comments are closed already. -/
def Norm.printable : Norm where
  comment comment := isClosedComment comment = true
  statement content := ClosedStatement (laidText content)
  selector selector := ClosedSelector selector

/-- What is printable is legible. -/
theorem Norm.legible_of_printable : Norm.printable.Implies Norm.legible where
  comment comment h := by
    have hclosed : isClosedComment comment = true := h
    show isClosedComment (closeComment comment) = true
    rwa [closeComment_of_closed hclosed]
  statement _ h := h
  selector _ h := h

instance : DecidablePred Norm.printable.comment := fun comment =>
  inferInstanceAs (Decidable (isClosedComment comment = true))

instance : DecidablePred Norm.printable.statement := fun content =>
  inferInstanceAs (Decidable (ClosedStatement (laidText content)))

instance : DecidablePred Norm.printable.selector := fun selector =>
  inferInstanceAs (Decidable (ClosedSelector selector))

end StyleModules
