import Mathlib.Data.List.Count
import Mathlib.Logic.Function.Iterate
import StyleModules.Category.Json
import StyleModules.Proofs.Layout.Conservation
import StyleModules.Proofs.Layout.Idempotence
import StyleModules.Proofs.Sheet.Lexis

/-!
# Labels in layout after layout

A layout writes the labels of its groups afresh, so it has to know those of the layout before it.
It compares the text of a comment, which is trimmed, with the names of the categories, which are
not. A label is therefore known again exactly when its trimmed name is the name of a category in
any case, or in capitals (`isSuppressed_headerComment_iff`).

The comments of a sheet that is laid out are the labels that are written and the comments that are
kept (`everyComment_canonical`), and a second layout writes the labels that the first one wrote
(`labels_canonical`). So a label that is known again stands in every later layout as often as in the
first (`count_label_of_known`), and one that is not is added to those of before each time
(`count_label_of_not_known`).
-/

namespace StyleModules

section Known

/-- A label of this name is known again by a layout for categories of these names. -/
def KnownLabel (names : List Text) (name : Text) : Prop :=
  Text.trim name ≠ [] ∧
    (Text.upper (Text.trim name) ∈ headerNames names ∨ isAllCaps (Text.trim name) = true)

instance (names : List Text) (name : Text) : Decidable (KnownLabel names name) :=
  inferInstanceAs (Decidable (_ ∧ _))

/-- Different names have different labels. -/
theorem headerComment_injective : Function.Injective headerComment := fun _ _ h =>
  List.append_cancel_left (List.append_cancel_right h)

/-- A label has nothing to trim. -/
theorem trim_headerComment (name : Text) : Text.trim (headerComment name) = headerComment name := by
  have hlast : (headerComment name).getLast? = some '/' := List.getLast?_append_cons ..
  refine (Text.trim_eq_self_iff _).mpr ⟨fun c hc => ?_, fun c hc => ?_⟩
  · rw [← Option.some.inj hc]
    decide
  · rw [hlast] at hc
    rw [← Option.some.inj hc]
    decide

/-- A label is taken for a header if its name is known. -/
theorem isHeader_headerComment_iff (names : List Text) (name : Text) :
    isHeader names (headerComment name) = true ↔ KnownLabel names name := by
  simp [isHeader, commentText_headerComment, KnownLabel]

/-- Among the labels only headers are left out. The label that reads like the marker is no
exception: its name is trimmed, so it is a header as well. -/
theorem isSuppressed_headerComment_eq {names : List Text} {name : Text} (hname : name ∈ names) :
    isSuppressed names (headerComment name) = isHeader names (headerComment name) := by
  rw [isSuppressed, trim_headerComment]
  by_cases hmarker : headerComment name = generatedMarker
  · obtain rfl : name = "Auto-generated".toList := headerComment_injective hmarker
    have hheader := isHeader_headerComment hname (by decide) (by decide +kernel)
    rw [hheader, Bool.or_true]
  · rw [beq_false_of_ne hmarker, Bool.false_or]

/-- A label is left out of a layout exactly when its name is known. -/
theorem isSuppressed_headerComment_iff {names : List Text} {name : Text} (hname : name ∈ names) :
    isSuppressed names (headerComment name) = true ↔ KnownLabel names name := by
  rw [isSuppressed_headerComment_eq hname, isHeader_headerComment_iff]

/-- A label is read as one comment, whatever stands behind it, exactly when its name does not hold
the end of a comment. -/
theorem scan_headerComment_iff (name : Text) :
    (∀ rest, scan (headerComment name ++ rest) = .comment (headerComment name) :: scan rest) ↔
      Text.occursIn ['*', '/'] name = false := by
  constructor
  · intro h
    have hmem : .comment (headerComment name) ∈ scan (headerComment name ++ []) := by
      rw [h]
      exact List.mem_cons_self
    have hspaced : headerComment name = '/' :: '*' :: (' ' :: name ++ [' '] ++ ['*', '/']) := by
      simp [headerComment]
    rw [← Bool.not_eq_true, Text.occursIn_iff]
    intro hend
    have hinner : ['*', '/'] <:+: ' ' :: name ++ [' '] := hend.trans ⟨[' '], [' '], rfl⟩
    rcases isClosedComment_or_isOpenComment hmem with hclosed | hopen
    · obtain ⟨body, hbody, hfirst⟩ := exists_of_isClosedComment hclosed
      have hsplit := (List.cons.inj (List.cons.inj (hspaced.symm.trans hbody)).2).2
      obtain rfl := List.append_cancel_right hsplit
      rw [← Bool.not_eq_true, Text.occursIn_iff] at hfirst
      exact hfirst (hinner.trans (List.prefix_append _ _).isInfix)
    · obtain ⟨body, hbody, hfirst⟩ := exists_of_isOpenComment hopen
      obtain rfl := (List.cons.inj (List.cons.inj (hspaced.symm.trans hbody)).2).2
      rw [← Bool.not_eq_true, Text.occursIn_iff] at hfirst
      exact hfirst (hinner.trans (List.prefix_append _ _).isInfix)
  · intro h rest
    exact (IsLexed.comment (isClosedComment_headerComment h) (isLexed_scan rest)).scan_eq

end Known

section Plan

variable {α β : Type} {property : α → Text} {target : β → Text} {spec : Spec}

/-- The name that a step of a plan writes. -/
def Step.label? : Step α → Option Text
  | .label name => some name
  | _ => none

/-- The labels in the steps of groups are those of the groups. -/
theorem filterMap_label?_planGroups (headers : Bool) (total before : Nat)
    (list : List (Group α)) :
    (planGroups headers total before list).filterMap Step.label? =
      list.filterMap (Group.label? headers) := by
  induction list generalizing before with
  | nil => rfl
  | cons group list ih =>
    have hitems : (group.items.map Step.item).filterMap Step.label? = [] := by
      rw [List.filterMap_eq_nil_iff]
      intro step hs
      obtain ⟨value, _, rfl⟩ := List.mem_map.mp hs
      rfl
    have hlead : (groupLead headers total before group).filterMap Step.label? =
        (group.label? headers).toList := by
      rcases groupLead_cases headers total before group with
        ⟨category, rfl, hcategory, hlead⟩ | ⟨hnone, hlead | hlead⟩
      · simp [hlead, Step.label?, Group.label?, hcategory]
      · rcases hnone with rfl | hnone <;> simp [Step.label?, Group.label?, *]
      · rcases hnone with rfl | hnone <;> simp [Group.label?, *]
    rw [planGroups, List.filterMap_append, List.filterMap_append, hitems, hlead, ih,
      List.append_nil, List.filterMap_cons]
    cases group.label? headers <;> rfl

/-- A group has no items if no item has its index. -/
theorem isEmpty_groupAt (items : List α) (index : Nat) :
    (groupAt property spec items index).items.isEmpty =
      !items.any fun a => spec.index (property a) == index := by
  rw [groupAt, Bool.eq_iff_iff, List.isEmpty_iff, ← List.length_eq_zero_iff,
    List.length_mergeSort, List.length_eq_zero_iff, List.filter_eq_nil_iff]
  simp

/-- Which labels are written depends only on which properties there are. -/
theorem filterMap_label?_groups {items : List α} {others : List β}
    (h : ∀ keep : Text → Bool, (items.any fun a => keep (property a)) =
      others.any fun b => keep (target b)) (headers : Bool) :
    (groups property spec items).filterMap (Group.label? headers) =
      (groups target spec others).filterMap (Group.label? headers) := by
  have hat : ∀ index, ((groupAt property spec items index).items.isEmpty) =
      (groupAt target spec others index).items.isEmpty := by
    intro index
    rw [isEmpty_groupAt, isEmpty_groupAt, h fun p => spec.index p == index]
  rw [groups, groups, List.filter_map, List.filter_map, List.filterMap_map, List.filterMap_map]
  have hkept : (List.range (spec.length + 1)).filter
        ((!·.items.isEmpty) ∘ groupAt property spec items) =
      (List.range (spec.length + 1)).filter ((!·.items.isEmpty) ∘ groupAt target spec others) :=
    List.filter_congr fun index _ => congrArg (!·) (hat index)
  rw [hkept]
  rfl

end Plan

section Gather

variable {α : Type}

mutual

/-- What is found at a node and at those below it, in the order in which they start. -/
def Node.gather (f : Node → List α) : Node → List α
  | ⟨.block, selector, content, children, comments⟩ =>
    f ⟨.block, selector, content, children, comments⟩ ++ gatherAll f children
  | ⟨.leaf, selector, content, children, comments⟩ =>
    f ⟨.leaf, selector, content, children, comments⟩
  | ⟨.header, selector, content, children, comments⟩ =>
    f ⟨.header, selector, content, children, comments⟩
  | ⟨.comment, selector, content, children, comments⟩ =>
    f ⟨.comment, selector, content, children, comments⟩

/-- What is found at several nodes and at those below them. -/
def gatherAll (f : Node → List α) : List Node → List α
  | [] => []
  | node :: rest => node.gather f ++ gatherAll f rest

end

/-- What is gathered from several nodes is gathered from each. -/
theorem gatherAll_eq_flatMap (f : Node → List α) (nodes : List Node) :
    gatherAll f nodes = nodes.flatMap (Node.gather f) := by
  induction nodes with
  | nil => rfl
  | cons node rest ih => rw [gatherAll, List.flatMap_cons, ih]

/-- All comments of a tree. -/
def Node.everyComment (node : Node) : List Text := node.gather Node.comments

/-- The names of the labels that the layout of a block's own declarations has. -/
def Node.ownLabels (style : Style) (node : Node) : List Text :=
  if node.kind = .block then
    (plan Node.propertyName style.spec style.headers
      (node.children.filter (·.isDeclaration))).filterMap Step.label?
  else []

/-- The names of all labels that the layout of a tree has. -/
def Node.labels (style : Style) (node : Node) : List Text := node.gather (Node.ownLabels style)

variable {style : Style}

/-- The comments in a block are its own and those of its children. -/
theorem Node.everyComment_block (selector : Option Text) (content : Text) (children : List Node)
    (comments : List Text) :
    Node.everyComment ⟨.block, selector, content, children, comments⟩ =
      comments ++ children.flatMap Node.everyComment := by
  rw [Node.everyComment, Node.gather, gatherAll_eq_flatMap]
  rfl

/-- The labels in a block are those among its children and those in them. -/
theorem Node.labels_block (selector : Option Text) (content : Text) (children : List Node)
    (comments : List Text) :
    Node.labels style ⟨.block, selector, content, children, comments⟩ =
      labelsAmong style children ++ children.flatMap (Node.labels style) := by
  rw [Node.labels, Node.gather, gatherAll_eq_flatMap, Node.ownLabels, if_pos rfl, plan,
    filterMap_label?_planGroups]
  rfl

/-- A comment before a node is one of its comments. -/
theorem Node.everyComment_precededBy (comment : Text) (node : Node) :
    (node.precededBy comment).everyComment = comment :: node.everyComment := by
  obtain ⟨kind, selector, content, children, comments⟩ := node
  cases kind <;> rfl

/-- A comment before a node adds no label. -/
theorem Node.labels_precededBy (comment : Text) (node : Node) :
    (node.precededBy comment).labels style = node.labels style := by
  obtain ⟨kind, selector, content, children, comments⟩ := node
  cases kind <;> rfl

end Gather

section Canonical

variable {norm : Norm} {style : Style} {root : Node}

/-- What holds of every statement, and of every block if it holds of its children, holds of a
sheet. -/
theorem Node.IsSheet.induction {motive : Node → Prop}
    (statement : ∀ {selector content children comments},
      (∀ comment ∈ comments, norm.comment comment) →
        motive ⟨.leaf, selector, content, children, comments⟩)
    (block : ∀ {selector content children comments},
      (∀ comment ∈ comments, norm.comment comment) → (∀ child ∈ children, child.Meets norm) →
        (∀ child ∈ children, motive child) →
          motive ⟨.block, selector, content, children, comments⟩)
    (h : root.IsSheet norm) : motive root := by
  have hmeets : ∀ node : Node, node.Meets norm → motive node := by
    intro node hn
    induction hn with
    | statement _ hcomments => exact statement hcomments
    | block _ hcomments hchildren ih => exact block hcomments hchildren ih
  obtain ⟨hroot, hcomments, hchildren⟩ := h
  obtain ⟨kind, selector, content, children, comments⟩ := root
  obtain ⟨rfl, rfl⟩ := Node.isRoot_mk_iff.mp hroot
  exact block hcomments hchildren fun child hc => hmeets child (hchildren child hc)

/-- All comments of a sheet are as the norm asks. -/
theorem Node.IsSheet.everyComment (h : root.IsSheet norm) :
    ∀ comment ∈ root.everyComment, norm.comment comment := by
  refine Node.IsSheet.induction (motive := fun node =>
    ∀ comment ∈ node.everyComment, norm.comment comment) ?_ ?_ h
  · exact fun hcomments => hcomments
  · intro selector content children comments hcomments _ ih comment hm
    rw [Node.everyComment_block, List.mem_append, List.mem_flatMap] at hm
    rcases hm with hm | ⟨child, hc, hm⟩
    · exact hcomments comment hm
    · exact ih child hc comment hm

/-- Children that declare the same properties get the same labels. -/
theorem labelsAmong_eq_of_properties {children others : List Node}
    (h : ∀ child ∈ children, child.isDeclaration = true →
      ∃ other ∈ others, other.isDeclaration = true ∧ other.propertyName = child.propertyName)
    (h' : ∀ other ∈ others, other.isDeclaration = true →
      ∃ child ∈ children, child.isDeclaration = true ∧ child.propertyName = other.propertyName) :
    labelsAmong style children = labelsAmong style others := by
  refine filterMap_label?_groups (fun keep => ?_) style.headers
  rw [Bool.eq_iff_iff, List.any_eq_true, List.any_eq_true]
  simp only [List.mem_filter]
  constructor
  · rintro ⟨child, ⟨hc, hd⟩, hkeep⟩
    obtain ⟨other, ho, hdo, hp⟩ := h child hc hd
    exact ⟨other, ⟨ho, hdo⟩, by rwa [hp]⟩
  · rintro ⟨other, ⟨ho, hd⟩, hkeep⟩
    obtain ⟨child, hc, hdc, hp⟩ := h' other ho hd
    exact ⟨child, ⟨hc, hdc⟩, by rwa [hp]⟩

/-- Arranging children leaves the labels that they get as they are. -/
theorem labelsAmong_arrange (children : List Node) :
    labelsAmong style (arrange style children) = labelsAmong style children := by
  refine labelsAmong_eq_of_properties (fun node hn hd => ?_) fun child hc hd => ?_
  · obtain ⟨child, hc, rfl | ⟨hdc, name, _, rfl⟩⟩ := mem_arrange hn
    · exact ⟨node, hc, hd, rfl⟩
    · exact ⟨child, hc, hdc, rfl⟩
  · rcases mem_arrange_of_mem hc with ha | ⟨comment, ha⟩
    · exact ⟨child, ha, hd, rfl⟩
    · exact ⟨_, ha, hd, rfl⟩

/-- Children and their canonical trees get the same labels. -/
theorem labelsAmong_canonicalAll {children : List Node}
    (h : ∀ child ∈ children, child.Meets norm) :
    labelsAmong style (canonicalAll style children) = labelsAmong style children := by
  rw [canonicalAll_eq_map]
  refine labelsAmong_eq_of_properties (fun node hn hd => ?_) fun child hc hd => ?_
  · obtain ⟨child, hc, rfl⟩ := List.mem_map.mp hn
    rw [(h child hc).isDeclaration_canonical] at hd
    exact ⟨child, hc, hd, ((h child hc).propertyName_canonical hd).symm⟩
  · refine ⟨child.canonical style, List.mem_map_of_mem hc, ?_,
      (h child hc).propertyName_canonical hd⟩
    rwa [(h child hc).isDeclaration_canonical]

/-- A sheet gets the labels that its canonical tree gets, but for their order. -/
theorem labels_canonical (h : root.IsSheet norm) :
    ((root.canonical style).labels style).Perm (root.labels style) := by
  refine Node.IsSheet.induction (motive := fun node =>
    ((node.canonical style).labels style).Perm (node.labels style)) ?_ ?_ h
  · exact fun _ => .refl _
  · intro selector content children comments _ hmeets ih
    rw [Node.canonical, Node.labels_block, Node.labels_block, labelsAmong_arrange,
      labelsAmong_canonicalAll hmeets]
    refine List.Perm.append_left _ ((flatMap_arrange_perm Node.labels_precededBy style _).trans ?_)
    rw [canonicalAll_eq_map, List.flatMap_map]
    exact List.Perm.flatMap_left children ih

/-- Comments in a row are kept one after the other. -/
theorem keptComments_append (comments others : List Text) :
    keptComments style (comments ++ others) =
      keptComments style comments ++ keptComments style others := by
  simp [keptComments]

/-- The kept comments of several nodes are those of each. -/
theorem keptComments_flatMap (f : Node → List Text) (nodes : List Node) :
    keptComments style (nodes.flatMap f) =
      nodes.flatMap fun node => keptComments style (f node) := by
  simp [keptComments, List.filter_flatMap, List.map_flatMap]

/-- The comments of a canonical tree are the labels that are written and the comments that are
kept. -/
theorem everyComment_canonical (h : root.IsSheet norm) :
    (root.canonical style).everyComment.Perm
      ((root.labels style).map headerComment ++ keptComments style root.everyComment) := by
  refine Node.IsSheet.induction (motive := fun node =>
    (node.canonical style).everyComment.Perm
      ((node.labels style).map headerComment ++ keptComments style node.everyComment)) ?_ ?_ h
  · exact fun _ => .refl _
  · intro selector content children comments _ hmeets ih
    -- Arranging the children adds the labels of this block; those of the blocks below are in the
    -- canonical trees of the children already.
    have hown : ((arrange style (canonicalAll style children)).flatMap Node.everyComment).Perm
        ((labelsAmong style children).map headerComment ++
          (canonicalAll style children).flatMap Node.everyComment) := by
      have hperm := flatMap_arrange_labels_perm (g := fun comment => [comment])
        Node.everyComment_precededBy style (canonicalAll style children)
      rwa [← List.map_eq_flatMap, labelsAmong_canonicalAll hmeets] at hperm
    have hbelow : ((canonicalAll style children).flatMap Node.everyComment).Perm
        ((children.flatMap (Node.labels style)).map headerComment ++
          keptComments style (children.flatMap Node.everyComment)) := by
      rw [canonicalAll_eq_map, List.flatMap_map, List.map_flatMap, keptComments_flatMap]
      exact (List.Perm.flatMap_left children ih).trans (List.flatMap_append_perm _ _ _).symm
    rw [Node.canonical, Node.everyComment_block, Node.everyComment_block, Node.labels_block,
      keptComments_append, List.map_append]
    refine ((hown.trans (hbelow.append_left _)).append_left _).trans ?_
    rw [← List.append_assoc (List.map headerComment _)]
    exact List.perm_append_comm_assoc _ _ _

end Canonical

section Count

variable {norm : Norm} {style : Style} {root : Node} {name : Text}

/-- A label stands in the layout as often as it is made and as it is kept. -/
theorem count_label_canonical (h : root.IsSheet norm) (name : Text) :
    (root.canonical style).everyComment.count (headerComment name) =
      (root.labels style).count name +
        (keptComments style root.everyComment).count (headerComment name) := by
  rw [(everyComment_canonical h).count_eq, List.count_append,
    List.count_map_of_injective _ _ headerComment_injective]

/-- No comment is kept as a label that is known. -/
theorem count_keptComments_of_known (hknown : KnownLabel style.spec.names name)
    {comments : List Text}
    (h : ∀ comment ∈ comments, isClosedComment comment = true ∨ isOpenComment comment = true) :
    (keptComments style comments).count (headerComment name) = 0 := by
  rw [List.count_eq_zero]
  intro hm
  obtain ⟨comment, hc, hlabel⟩ := List.mem_map.mp hm
  obtain ⟨hc, hkept⟩ := List.mem_filter.mp hc
  have hheader : isHeader style.spec.names comment = true := by
    rw [← isHeader_closeComment _ (h comment hc), hlabel]
    exact (isHeader_headerComment_iff _ _).mpr hknown
  simp [isSuppressed, hheader] at hkept

/-- Closed comments are kept as they are if they read like a label that is not known. -/
theorem count_keptComments_of_not_known (hname : name ∈ style.spec.names)
    (hunknown : ¬KnownLabel style.spec.names name) {comments : List Text}
    (h : ∀ comment ∈ comments, isClosedComment comment = true) :
    (keptComments style comments).count (headerComment name) =
      comments.count (headerComment name) := by
  have hkept : keptComments style comments =
      comments.filter (!isSuppressed style.spec.names ·) := by
    refine (List.map_congr_left fun comment hc => ?_).trans (List.map_id _)
    exact closeComment_of_closed (h comment (List.mem_filter.mp hc).1)
  rw [hkept, List.count_filter]
  simpa using mt (isSuppressed_headerComment_iff hname).mp hunknown

end Count

section Iterate

variable {style : Style} {root : Node} {css name : Text}

/-- What can be laid out and read back can be laid out again. -/
theorem isSheet_legible_iterate (hspec : style.spec.Closed) (h : root.IsSheet Norm.legible)
    (n : Nat) : ((Node.canonical style)^[n] root).IsSheet Norm.legible := by
  induction n with
  | zero => exact h
  | succ n ih =>
    rw [Function.iterate_succ_apply']
    exact ((Norm.legible_carries hspec).isSheet ih).mono Norm.legible_of_printable

/-- After one layout a legible sheet is printable, however often it is laid out again. -/
theorem isSheet_printable_iterate (hspec : style.spec.Closed) (h : root.IsSheet Norm.legible)
    (n : Nat) : ((Node.canonical style)^[n + 1] root).IsSheet Norm.printable := by
  rw [Function.iterate_succ_apply']
  exact (Norm.legible_carries hspec).isSheet (isSheet_legible_iterate hspec h n)

/-- Layouts made one after the other are read back as canonical trees of canonical trees. -/
theorem parse_formatText_iterate (hspec : style.spec.Closed)
    (h : (parse css).IsSheet Norm.legible) (n : Nat) :
    parse ((formatText style)^[n] css) = (Node.canonical style)^[n] (parse css) := by
  induction n with
  | zero => rfl
  | succ n ih =>
    rw [Function.iterate_succ_apply', Function.iterate_succ_apply', formatText, ih,
      parse_format_of_legible hspec (isSheet_legible_iterate hspec h n)]

/-- Layouts in a row make the same labels. -/
theorem labels_iterate (hspec : style.spec.Closed) (h : root.IsSheet Norm.legible) (n : Nat) :
    (((Node.canonical style)^[n] root).labels style).Perm (root.labels style) := by
  induction n with
  | zero => exact .refl _
  | succ n ih =>
    rw [Function.iterate_succ_apply']
    exact (labels_canonical (isSheet_legible_iterate hspec h n)).trans ih

/-- A label that is known again stands in a sheet as often as one layout writes it. -/
theorem count_label_of_known (hspec : style.spec.Closed) (h : root.IsSheet Norm.legible)
    (hscanned : root.IsSheet Norm.scanned) (hknown : KnownLabel style.spec.names name) (n : Nat) :
    ((Node.canonical style)^[n + 1] root).everyComment.count (headerComment name) =
      (root.labels style).count name := by
  have hlegible := isSheet_legible_iterate hspec h n
  -- A comment may be open in the sheet itself; in what has been laid out all are closed.
  have hcomments : ((Node.canonical style)^[n] root).IsSheet Norm.scanned := by
    cases n with
    | zero => exact hscanned
    | succ n =>
      exact (isSheet_printable_iterate hspec h n).mono
        ⟨fun _ => Or.inl, fun _ _ => trivial, fun _ _ => trivial⟩
  rw [Function.iterate_succ_apply', count_label_canonical hlegible,
    count_keptComments_of_known hknown hcomments.everyComment,
    (labels_iterate hspec h n).count_eq, Nat.add_zero]

/-- A label that is not known again is added to those of before by every layout. -/
theorem count_label_of_not_known (hspec : style.spec.Closed) (h : root.IsSheet Norm.legible)
    (hname : name ∈ style.spec.names) (hunknown : ¬KnownLabel style.spec.names name) (n : Nat) :
    ((Node.canonical style)^[n + 1] root).everyComment.count (headerComment name) =
      (n + 1) * (root.labels style).count name +
        (keptComments style root.everyComment).count (headerComment name) := by
  induction n with
  | zero =>
    rw [Nat.zero_add, Nat.one_mul]
    exact count_label_canonical h name
  | succ n ih =>
    have hprintable := isSheet_printable_iterate hspec h n
    rw [Function.iterate_succ_apply', count_label_canonical hprintable,
      count_keptComments_of_not_known hname hunknown hprintable.everyComment, ih,
      (labels_iterate hspec h (n + 1)).count_eq, Nat.succ_mul (n + 1)]
    omega

/-- A label is read as one comment exactly when its name does not hold the end of a comment, and it
is left out of the next layout exactly when its name is known. In a text whose statements and
selectors can be read back, the comments of a layout are the labels that it writes and those that it
keeps; and however often the text is laid out, a label that is known stands there as often as it is
written in one layout, while one that is not is written as often once more by each. -/
theorem labels_over_layouts (hname : name ∈ style.spec.names) (css : Text) :
    ((∀ rest, scan (headerComment name ++ rest) = .comment (headerComment name) :: scan rest) ↔
        Text.occursIn ['*', '/'] name = false) ∧
      (isSuppressed style.spec.names (headerComment name) = true ↔
        KnownLabel style.spec.names name) ∧
      (style.spec.Closed → (parse css).IsSheet Norm.closedHeads →
        (parse (formatText style css)).everyComment.Perm
            (((parse css).labels style).map headerComment ++
              keptComments style (parse css).everyComment) ∧
          ∀ n, (parse ((formatText style)^[n + 1] css)).everyComment.count (headerComment name) =
            if KnownLabel style.spec.names name then ((parse css).labels style).count name
            else (n + 1) * ((parse css).labels style).count name +
              (keptComments style (parse css).everyComment).count (headerComment name)) := by
  refine ⟨scan_headerComment_iff name, isSuppressed_headerComment_iff hname, fun hspec hheads => ?_⟩
  have hscanned := parse_scanned css
  have hlegible := (hheads.and hscanned).mono Norm.legible_of_closedHeads
  refine ⟨?_, fun n => ?_⟩
  · rw [formatText, parse_format_of_legible hspec hlegible]
    exact everyComment_canonical hlegible
  · rw [parse_formatText_iterate hspec hlegible]
    split
    · next hknown => exact count_label_of_known hspec hlegible hscanned hknown n
    · next hunknown => exact count_label_of_not_known hspec hlegible hname hunknown n

/-- Two categories, the name of the first with blanks around it. -/
def paddedStyle : Style :=
  ⟨[⟨" Box ".toList, ["color".toList]⟩, ⟨"Place".toList, ["top".toList]⟩], true⟩

/-- Declarations in two blocks, with a label in lower case and another comment before them. -/
def paddedText : Text :=
  "a { /* place */ top:0; color:red } @media b { /* kept */ top:1 }".toList

/-- The label of a known name is made anew by each layout, here in two blocks; that of a name with
blanks around it is kept as well, so each layout adds one. -/
theorem labels_over_layouts_padded :
    paddedStyle.spec.Closed ∧ (parse paddedText).IsSheet Norm.closedHeads ∧
      ("Place".toList ∈ paddedStyle.spec.names ∧ ∀ n,
        (parse ((formatText paddedStyle)^[n + 1] paddedText)).everyComment.count
          "/* Place */".toList = 2) ∧
      (" Box ".toList ∈ paddedStyle.spec.names ∧ ∀ n,
        (parse ((formatText paddedStyle)^[n + 1] paddedText)).everyComment.count
          "/*  Box  */".toList = n + 1) := by
  have hspec : paddedStyle.spec.Closed := by unfold Spec.Closed; decide +kernel
  have hheads : (parse paddedText).IsSheet Norm.closedHeads := by decide +kernel
  have hplace : "Place".toList ∈ paddedStyle.spec.names := by decide +kernel
  have hbox : " Box ".toList ∈ paddedStyle.spec.names := by decide +kernel
  have hcounts : ((parse paddedText).labels paddedStyle).count "Place".toList = 2 ∧
      ((parse paddedText).labels paddedStyle).count " Box ".toList = 1 ∧
      (keptComments paddedStyle (parse paddedText).everyComment).count
        (headerComment " Box ".toList) = 0 := by decide +kernel
  refine ⟨hspec, hheads, ⟨hplace, fun n => ?_⟩, hbox, fun n => ?_⟩
  · have hcount := ((labels_over_layouts hplace paddedText).2.2 hspec hheads).2 n
    rwa [if_pos (by decide +kernel), hcounts.1] at hcount
  · have hcount := ((labels_over_layouts hbox paddedText).2.2 hspec hheads).2 n
    rwa [if_neg (by decide +kernel), hcounts.2.1, hcounts.2.2, Nat.mul_one, Nat.add_zero] at hcount

/-- Loaded specifications whose labels are not known again. A name with blanks around it and one
without a text are read back as they were written and yet written a second time. A name that holds
the end of a comment is not read back at all. -/
theorem labels_over_layouts_twice :
    Spec.ofJson paddedStyle.spec.toJson = paddedStyle.spec ∧
      isSuppressed paddedStyle.spec.names (headerComment " Box ".toList) = false ∧
      formatText paddedStyle "a{color:red}".toList =
        "a {

	/*  Box  */
	color: red;
}
".toList ∧
      formatText paddedStyle (formatText paddedStyle "a{color:red}".toList) =
        "a {

	/*  Box  */
	/*  Box  */
	color: red;
}
".toList ∧
      isSuppressed [[]] (headerComment []) = false ∧
      scan (headerComment "a*/b".toList) ≠ [.comment (headerComment "a*/b".toList)] := by
  refine ⟨Spec.ofJson_toJson _, ?_⟩
  decide +kernel

end Iterate

end StyleModules
