import StyleModules.Proofs.Layout.RoundTrip

/-!
# Laying out a sheet once more

The layout of a body takes little from its children: of each declaration the property and the
entries, up to the order of declarations with different properties, and of the other children the
entries in their order (`bodyEntries_eq_of_views`). Arranging declarations and labelling them under
one style therefore leaves no trace under another, as long as the labels are left out there
(`nodeEntries_canonical`). Together with reading back, this says that a layout under a second style
forgets the first.
-/

namespace StyleModules

/-- What the layout of a body takes from a child. -/
@[ext] structure View where
  /-- The property of a declaration. -/
  property : Text
  /-- The entries, and whether they are those of a block. -/
  part : Part

/-- What the layout of a body takes from a child with its entries. -/
def LaidChild.view (child : LaidChild) : View := ⟨child.node.propertyName, child.part⟩

/-- What the layout of a body takes from a node. -/
def Node.view (style : Style) (depth : Nat) (node : Node) : View :=
  LaidChild.view ⟨node, nodeEntries style depth node⟩

/-- The part of a step of a plan of views. -/
def viewPart (depth : Nat) : Step View → Part
  | .label name => ⟨false, labelEntries depth (headerComment name)⟩
  | .spacer => ⟨false, labelEntries depth []⟩
  | .item view => view.part

/-- A step's part is made from how its child is seen. -/
theorem viewPart_map (depth : Nat) (step : Step LaidChild) :
    viewPart depth (step.map LaidChild.view) = stepPart depth step := by
  cases step <;> rfl

/-- The bodies hold the same declarations of each property in the same order, and the same other
parts. -/
structure SameBody (style : Style) (depth : Nat) (children others : List Node) : Prop where
  /-- The declarations of each property. -/
  declarations : Alike View.property
    ((children.filter (·.isDeclaration)).map (Node.view style depth))
    ((others.filter (·.isDeclaration)).map (Node.view style depth))
  /-- The other children. -/
  rest : (children.filter (!·.isDeclaration)).map (·.view style depth |>.part) =
    (others.filter (!·.isDeclaration)).map (·.view style depth |>.part)

section Body

variable {style : Style} {depth : Nat}

/-- Children are chosen before they are laid out or after. -/
theorem filter_layChildren (children : List Node) (keep : Node → Bool) :
    (layChildren style depth children).filter (keep ·.node) =
      layChildren style depth (children.filter keep) := by
  rw [layChildren_eq_map, layChildren_eq_map, List.filter_map]
  rfl

/-- How laid children are seen is how the children are. -/
theorem map_view_layChildren (children : List Node) :
    (layChildren style depth children).map LaidChild.view =
      children.map (Node.view style depth) := by
  rw [layChildren_eq_map, List.map_map]
  rfl

/-- The node is laid out behind the declarations of a body; labels are left out. -/
def Node.isOther (style : Style) (node : Node) : Bool :=
  !node.isDeclaration && !LaidChild.isDropped style ⟨node, []⟩

/-- A declaration is never dropped. -/
theorem isDropped_of_isDeclaration {child : LaidChild} (h : child.node.isDeclaration = true) :
    child.isDropped style = false := by
  obtain ⟨⟨kind, selector, content, children, comments⟩, entries⟩ := child
  simp only [Node.isDeclaration, Bool.and_eq_true, beq_iff_eq] at h
  obtain rfl := h.1.1
  rfl

/-- The parts of a body in terms of what is seen of its children. -/
theorem bodyParts_eq_views (children : List Node) :
    bodyParts style depth (layChildren style depth children) =
      (plan View.property style.spec style.headers
          ((children.filter (·.isDeclaration)).map (Node.view style depth))).map (viewPart depth) ++
        (children.filter (·.isOther style)).map (·.view style depth |>.part) := by
  have hplan : plan View.property style.spec style.headers
        ((children.filter (·.isDeclaration)).map (Node.view style depth)) =
      (plan (·.node.propertyName) style.spec style.headers
        (layChildren style depth (children.filter (·.isDeclaration)))).map
          (Step.map LaidChild.view) := by
    rw [← map_view_layChildren]
    exact plan_map (fun _ _ => rfl) style.headers
  have hsteps : viewPart depth ∘ Step.map LaidChild.view = stepPart depth :=
    funext (viewPart_map depth)
  have hrest : (children.filter (·.isOther style)).map (·.view style depth |>.part) =
      (layChildren style depth (children.filter (·.isOther style))).map LaidChild.part := by
    rw [layChildren_eq_map, List.map_map]
    rfl
  have hdeclarations : ((layChildren style depth children).filter (!·.isDropped style)).filter
      (·.node.isDeclaration) = layChildren style depth (children.filter (·.isDeclaration)) := by
    rw [← filter_layChildren, List.filter_filter]
    refine List.filter_congr fun child _ => ?_
    cases hd : child.node.isDeclaration with
    | false => rfl
    | true => rw [isDropped_of_isDeclaration hd]; rfl
  have hothers : ((layChildren style depth children).filter (!·.isDropped style)).filter
      (!·.node.isDeclaration) = layChildren style depth (children.filter (·.isOther style)) := by
    rw [← filter_layChildren, List.filter_filter]
    rfl
  rw [hplan, hrest, List.map_map, hsteps]
  simp only [bodyParts]
  rw [hdeclarations, hothers]

/-- The layout of a body depends only on what it takes from the children. -/
theorem bodyEntries_eq_of_views {children others : List Node}
    (hdeclarations : Alike View.property
      ((children.filter (·.isDeclaration)).map (Node.view style depth))
      ((others.filter (·.isDeclaration)).map (Node.view style depth)))
    (hrest : (children.filter (·.isOther style)).map (·.view style depth |>.part) =
      (others.filter (·.isOther style)).map (·.view style depth |>.part)) :
    bodyEntries style depth (layChildren style depth children) =
      bodyEntries style depth (layChildren style depth others) := by
  rw [bodyEntries, bodyEntries, bodyParts_eq_views, bodyParts_eq_views, hrest,
    plan_eq_of_alike hdeclarations]

/-- The other children are those that are no declarations. -/
theorem filter_isOther {norm : Norm} {children : List Node}
    (h : ∀ child ∈ children, child.Meets norm) :
    children.filter (·.isOther style) = children.filter (!·.isDeclaration) := by
  refine List.filter_congr fun child hc => ?_
  cases h child hc with
  | statement _ _ => exact Bool.and_true _
  | block _ _ _ => rfl

/-- Bodies with the same declarations and other parts have the same entries. -/
theorem SameBody.bodyEntries_eq {norm other : Norm} {children others : List Node}
    (h : SameBody style depth children others) (hc : ∀ child ∈ children, child.Meets norm)
    (ho : ∀ child ∈ others, child.Meets other) :
    bodyEntries style depth (layChildren style depth children) =
      bodyEntries style depth (layChildren style depth others) := by
  refine bodyEntries_eq_of_views h.declarations ?_
  rw [filter_isOther hc, filter_isOther ho, h.rest]

end Body

/-- The labels of the other style are left out. -/
def Style.LeavesOut (style other : Style) : Prop :=
  ∀ name ∈ other.spec.names, isSuppressed style.spec.names (headerComment name) = true

section Canonical

variable {first second : Style} {depth : Nat}

/-- Comments are laid out one by one, and suppressed ones not at all. -/
theorem commentEntries_cons (style : Style) (depth : Nat) (comment : Text) (comments : List Text) :
    commentEntries style depth (comment :: comments) =
      (if isSuppressed style.spec.names comment then []
        else [indent depth ++ closeComment comment]) ++
        commentEntries style depth comments := by
  cases h : isSuppressed style.spec.names comment <;> simp [commentEntries, h]

/-- Comments are kept one by one, and suppressed ones not at all. -/
theorem keptComments_cons (style : Style) (comment : Text) (comments : List Text) :
    keptComments style (comment :: comments) =
      (if isSuppressed style.spec.names comment then [] else [closeComment comment]) ++
        keptComments style comments := by
  cases h : isSuppressed style.spec.names comment <;> simp [keptComments, h]

/-- What is asked of a sheet so that a layout under the first style makes no difference to one
under the second: written once more, its statements stay as they are, and so do the comments that
the second style keeps, none of which the first style takes away. -/
def Norm.lasting (first second : Style) : Norm where
  comment comment := closeComment (closeComment comment) = closeComment comment ∧
    (isSuppressed second.spec.names comment = false ↔
      isSuppressed first.spec.names comment = false ∧
        isSuppressed second.spec.names (closeComment comment) = false)
  statement content := laidText (laidText content) = laidText content
  selector _ := True

/-- Comments kept by the first style are laid out by the second as they were. -/
theorem commentEntries_keptComments {comments : List Text}
    (h : ∀ comment ∈ comments, (Norm.lasting first second).comment comment) :
    commentEntries second depth (keptComments first comments) =
      commentEntries second depth comments := by
  induction comments with
  | nil => rfl
  | cons comment comments ih =>
    obtain ⟨hclose, hkept⟩ := h comment List.mem_cons_self
    have hrest := ih fun other ho => h other (List.mem_cons_of_mem comment ho)
    rw [keptComments_cons, commentEntries_cons, ← hrest]
    by_cases hfirst : isSuppressed first.spec.names comment = true
    · have hsecond : isSuppressed second.spec.names comment = true := by
        simpa [hfirst] using hkept
      rw [if_pos hfirst, if_pos hsecond]
      rfl
    · have hiff : isSuppressed second.spec.names (closeComment comment) =
          isSuppressed second.spec.names comment := by
        rw [Bool.eq_iff_iff, ← not_iff_not]
        simpa [hfirst] using hkept.symm
      rw [if_neg hfirst, List.singleton_append, commentEntries_cons, hiff, hclose]

/-- A comment that is left out makes no difference to what is seen of a declaration. -/
theorem Node.view_precededBy {node : Node} {comment : Text} (hd : node.isDeclaration = true)
    (hc : isSuppressed second.spec.names comment = true) :
    (node.precededBy comment).view second depth = node.view second depth := by
  obtain ⟨kind, selector, content, children, comments⟩ := node
  obtain rfl : kind = .leaf := by
    simp only [Node.isDeclaration, Bool.and_eq_true, beq_iff_eq] at hd
    exact hd.1.1
  have hentries : nodeEntries second depth
      (precededBy comment ⟨.leaf, selector, content, children, comments⟩) =
        nodeEntries second depth ⟨.leaf, selector, content, children, comments⟩ := by
    rw [precededBy, nodeEntries_leaf, nodeEntries_leaf, commentEntries_cons, if_pos hc,
      List.nil_append]
  simp only [Node.view, LaidChild.view, LaidChild.part, hentries, Node.propertyName_precededBy]
  rfl

/-- Labels that are left out make no difference to what is seen of a group. -/
theorem Group.map_view_labelled {headers : Bool} {group : Group Node}
    (hd : ∀ item ∈ group.items, item.isDeclaration = true)
    (hc : ∀ category, group.category = some category →
      isSuppressed second.spec.names (headerComment category.name) = true) :
    (group.labelled headers).map (Node.view second depth) =
      group.items.map (Node.view second depth) := by
  obtain ⟨index, category, items⟩ := group
  unfold Group.labelled
  split
  · next inner head rest hcategory hitems =>
    obtain rfl : items = head :: rest := hitems
    rw [List.map_cons, List.map_cons,
      Node.view_precededBy (hd head List.mem_cons_self) (hc inner hcategory)]
  · rfl

/-- Arranging declarations under one style keeps what is seen of those of each property. -/
theorem alike_arrange (hlabels : second.LeavesOut first) (children : List Node) :
    Alike View.property
      (((arrange first children).filter (·.isDeclaration)).map (Node.view second depth))
      ((children.filter (·.isDeclaration)).map (Node.view second depth)) := by
  have hviews : ((arrange first children).filter (·.isDeclaration)).map (Node.view second depth) =
      (groupedItems Node.propertyName first.spec (children.filter (·.isDeclaration))).map
        (Node.view second depth) := by
    rw [filter_arrange, groupedItems, List.map_flatMap, List.map_flatMap]
    refine List.flatMap_congr fun group hg => ?_
    refine Group.map_view_labelled (fun item hi => (mem_of_mem_groups hg hi).2)
      fun category hc => ?_
    exact hlabels _ (List.mem_map_of_mem (category_mem_of_mem_groups hg hc))
  rw [hviews]
  have halike : Alike Node.propertyName
      (groupedItems Node.propertyName first.spec (children.filter (·.isDeclaration)))
      (children.filter (·.isDeclaration)) := alike_groupedItems _
  intro p
  rw [List.filter_map, List.filter_map]
  exact congrArg (List.map (Node.view second depth)) (halike p)

variable {children : List Node}

/-- What is seen of a canonical child is what is seen of the child. -/
theorem map_view_canonicalAll
    (hmeets : ∀ child ∈ children, child.Meets (Norm.lasting first second))
    (hentries : ∀ child ∈ children,
      nodeEntries second depth (child.canonical first) = nodeEntries second depth child) :
    ((canonicalAll first children).filter (·.isDeclaration)).map (Node.view second depth) =
        (children.filter (·.isDeclaration)).map (Node.view second depth) ∧
      ((canonicalAll first children).filter (!·.isDeclaration)).map
          (·.view second depth |>.part) =
        (children.filter (!·.isDeclaration)).map (·.view second depth |>.part) := by
  have hpart : ∀ child ∈ children,
      ((child.canonical first).view second depth).part = (child.view second depth).part := by
    intro child hc
    simp only [Node.view, LaidChild.view, LaidChild.part, hentries child hc]
    cases hmeets child hc <;> rfl
  have hdeclarations := filter_canonicalAll first hmeets id
  have hothers := filter_canonicalAll first hmeets (!·)
  simp only [id_eq] at hdeclarations
  rw [hdeclarations, hothers, List.map_map, List.map_map]
  refine ⟨List.map_congr_left fun child hc => ?_, List.map_congr_left fun child hc => ?_⟩
  · obtain ⟨hmem, hd⟩ := List.mem_filter.mp hc
    exact View.ext ((hmeets child hmem).propertyName_canonical hd) (hpart child hmem)
  · exact hpart child (List.mem_filter.mp hc).1

/-- The layout of a canonical body takes the same from it as the layout of the body. -/
theorem sameBody_canonical (hlabels : second.LeavesOut first)
    (hmeets : ∀ child ∈ children, child.Meets (Norm.lasting first second))
    (hentries : ∀ child ∈ children,
      nodeEntries second depth (child.canonical first) = nodeEntries second depth child) :
    SameBody second depth (arrange first (canonicalAll first children)) children := by
  obtain ⟨hdeclarations, hothers⟩ := map_view_canonicalAll hmeets hentries
  constructor
  · rw [← hdeclarations]
    exact alike_arrange hlabels _
  · rw [filter_not_arrange, hothers]

/-- What is kept of a sheet under the first style asks nothing of its canonical tree. -/
theorem Norm.carries_any (style : Style) (norm : Norm) : norm.Carries style Norm.any :=
  ⟨fun _ _ _ => trivial, fun _ _ => trivial, fun _ _ => trivial, fun _ _ => trivial⟩

/-- The layout of a canonical body is the layout of the body. -/
theorem bodyEntries_canonical (hlabels : second.LeavesOut first)
    (hmeets : ∀ child ∈ children, child.Meets (Norm.lasting first second))
    (hentries : ∀ child ∈ children,
      nodeEntries second depth (child.canonical first) = nodeEntries second depth child) :
    bodyEntries second depth
        (layChildren second depth (arrange first (canonicalAll first children))) =
      bodyEntries second depth (layChildren second depth children) := by
  have hcarries := Norm.carries_any first (Norm.lasting first second)
  refine (sameBody_canonical hlabels hmeets hentries).bodyEntries_eq (hcarries.arrange ?_) hmeets
  exact hcarries.canonicalAll hmeets

/-- A layout under the second style forgets a layout under the first. -/
theorem nodeEntries_canonical (hlabels : second.LeavesOut first) {node : Node}
    (h : node.Meets (Norm.lasting first second)) (depth : Nat) :
    nodeEntries second depth (node.canonical first) = nodeEntries second depth node := by
  induction h generalizing depth with
  | @statement selector content children comments hcontent hcomments =>
    have htext : laidText (laidText content) = laidText content := hcontent
    rw [Node.canonical, Node.ofStatement, nodeEntries_leaf, nodeEntries_leaf, htext]
    exact congrArg (· ++ _) (commentEntries_keptComments hcomments)
  | @block selector content children comments _ hcomments hchildren ih =>
    have hbody := bodyEntries_canonical hlabels hchildren fun child hc => ih child hc (depth + 1)
    show blockEntries second depth selector (keptComments first comments) (bodyEntries ..) =
      blockEntries second depth selector comments (bodyEntries ..)
    rw [blockEntries, blockEntries, hbody, commentEntries_keptComments hcomments]

/-- The second layout of a sheet is the layout of the sheet. -/
theorem format_canonical (hlabels : second.LeavesOut first) {root : Node}
    (h : root.IsSheet (Norm.lasting first second)) :
    (root.canonical first).format second = root.format second := by
  obtain ⟨hroot, hcomments, hchildren⟩ := h
  obtain ⟨kind, selector, content, children, comments⟩ := root
  obtain ⟨rfl, rfl⟩ := Node.isRoot_mk_iff.mp hroot
  have hbody := bodyEntries_canonical hlabels hchildren fun child hc =>
    nodeEntries_canonical hlabels (hchildren child hc) 0
  rw [Node.format, Node.format, Node.canonical, nodeEntries, nodeEntries, hbody,
    commentEntries_keptComments hcomments]

end Canonical

/-- The names of categories are there, have no blanks around them and do not end a comment. -/
structure Spec.Proper (spec : Spec) : Prop where
  /-- There is a name. -/
  ne_nil : ∀ name ∈ spec.names, name ≠ []
  /-- There are no blanks around it. -/
  trimmed : ∀ name ∈ spec.names, Text.trim name = name
  /-- It does not end a comment. -/
  closed : spec.Closed

/-- A style with proper names leaves out its own labels. -/
theorem Spec.Proper.leavesOut {style : Style} (h : style.spec.Proper) : style.LeavesOut style :=
  fun name hname =>
    isSuppressed_headerComment hname (h.ne_nil name hname) (h.trimmed name hname)

section Forget

variable {first second : Style}

/-- A closed statement stays as it is when it is written once more. -/
theorem laidText_of_closed {content : Text} (h : ClosedStatement (laidText content)) :
    laidText (laidText content) = laidText content :=
  laidText_laidText h.2

/-- A printable sheet is not changed by a style that takes away no comment which the other keeps. -/
theorem Norm.lasting_of_printable :
    (Norm.printable.and (Norm.onComments fun comment =>
      isSuppressed first.spec.names comment = true →
        isSuppressed second.spec.names comment = true)).Implies (Norm.lasting first second) where
  comment comment h := by
    have hclose : closeComment comment = comment := closeComment_of_closed h.1
    refine ⟨by rw [hclose, hclose], ?_⟩
    rw [hclose, iff_and_self, ← Bool.not_eq_true, ← Bool.not_eq_true]
    exact mt h.2
  statement content h := laidText_of_closed h.1
  selector _ _ := trivial

/-- A specification whose names are in capitals, none of them blank. -/
def Spec.InCapitals (spec : Spec) : Prop :=
  ∀ name ∈ spec.names, isAllCaps name = true ∧ Text.isBlankText name = false

/-- No name in capitals ends a comment. -/
theorem Spec.InCapitals.closed {spec : Spec} (h : spec.InCapitals) : spec.Closed :=
  fun name hname => occursIn_end_of_caps (h name hname).1

/-- Laying out a sheet under a second style forgets the first: its labels and its order leave no
trace, as long as the second style leaves out every comment that the first does. -/
theorem format_parse_format (hspec : first.spec.InCapitals) {root : Node}
    (h : root.IsSheet Norm.printable)
    (hkept : root.IsSheet (Norm.onComments fun comment =>
      isSuppressed first.spec.names comment = true →
        isSuppressed second.spec.names comment = true)) :
    (parse (root.format first)).format second = root.format second := by
  have hlabels : second.LeavesOut first := fun name hname =>
    isSuppressed_headerComment_of_caps _ (hspec name hname).1 (hspec name hname).2
  rw [parse_format_of_legible hspec.closed (h.mono Norm.legible_of_printable)]
  exact format_canonical hlabels ((h.and hkept).mono Norm.lasting_of_printable)

/-- A style that labels other groups than the sample style, in another order. -/
def otherStyle : Style :=
  { spec := [⟨"QUOTED TEXT".toList, ["content".toList]⟩, ⟨"PLACE".toList, ["top".toList]⟩] }

/-- The sample sheet is laid out as if its labels and its order had never been others. -/
theorem format_parse_format_sample :
    otherStyle.spec.InCapitals ∧ Node.IsSheet Norm.printable sampleSheet ∧
      sampleSheet.IsSheet (Norm.onComments fun comment =>
        isSuppressed otherStyle.spec.names comment = true →
          isSuppressed sampleStyle.spec.names comment = true) ∧
      (parse (sampleSheet.format otherStyle)).format sampleStyle =
        sampleSheet.format sampleStyle :=
  have hspec : otherStyle.spec.InCapitals := by unfold Spec.InCapitals; decide +kernel
  have hsheet : Node.IsSheet Norm.printable sampleSheet := by decide +kernel
  have hkept : sampleSheet.IsSheet (Norm.onComments fun comment =>
      isSuppressed otherStyle.spec.names comment = true →
        isSuppressed sampleStyle.spec.names comment = true) := by decide +kernel
  ⟨hspec, hsheet, hkept, format_parse_format hspec hsheet hkept⟩

end Forget

end StyleModules
