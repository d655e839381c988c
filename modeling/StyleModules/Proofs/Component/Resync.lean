import StyleModules.Component.Sync
import StyleModules.Proofs.Component.UseOrder
import StyleModules.Proofs.Layout.Relayout

/-!
# A stylesheet in line with its component stays as it is

Ordering a sheet by use, laying it out, reading the layout back, ordering it once more and laying
it out again gives the same text (`syncText_of_printable`). The layout moves the declarations of the
sheet in front of its rules and labels them, which the second ordering does not touch; it keeps the
order of everything else, which the second ordering finds as the first has left it. The marks of
unused rules are taken away and set again.
-/

namespace StyleModules

section Canonical

variable {style : Style}

/-- Laying a node out keeps the classes it mentions. -/
@[simp] theorem Node.classes_canonical (style : Style) (node : Node) :
    (node.canonical style).classes = node.classes := by
  obtain ⟨kind, selector, content, children, comments⟩ := node
  cases kind <;> rfl

/-- A comment before a node does not change its content. -/
theorem Node.hasContent_precededBy (comment : Text) (node : Node) :
    (node.precededBy comment).hasContent = node.hasContent := by
  obtain ⟨kind, selector, content, children, comments⟩ := node
  cases kind <;> rfl

/-- Arranging children keeps what they hold. -/
theorem anyHasContent_arrange (children : List Node) :
    Node.anyHasContent (arrange style children) = Node.anyHasContent children := by
  rw [Node.anyHasContent_eq_any, Node.anyHasContent_eq_any, Bool.eq_iff_iff, List.any_eq_true,
    List.any_eq_true]
  constructor
  · rintro ⟨node, hn, hcontent⟩
    obtain ⟨child, hc, rfl | ⟨_, name, _, rfl⟩⟩ := mem_arrange hn
    · exact ⟨node, hc, hcontent⟩
    · exact ⟨child, hc, by rwa [Node.hasContent_precededBy] at hcontent⟩
  · rintro ⟨child, hc, hcontent⟩
    rcases mem_arrange_of_mem hc with ha | ⟨comment, ha⟩
    · exact ⟨child, ha, hcontent⟩
    · exact ⟨_, ha, by rwa [Node.hasContent_precededBy]⟩

/-- The canonical tree of a printable node has content exactly when the node has. -/
theorem Node.Meets.hasContent_canonical {node : Node} (h : node.Meets Norm.printable) :
    (node.canonical style).hasContent = node.hasContent := by
  induction h with
  | @statement selector content children comments hcontent _ =>
    have hlaid : laidText content ≠ [] := hcontent.1.ne_nil
    have hne : content ≠ [] := by
      rintro rfl
      exact hlaid rfl
    show (!(laidText content).isEmpty) = !content.isEmpty
    rw [List.isEmpty_eq_false_iff.mpr hlaid, List.isEmpty_eq_false_iff.mpr hne]
  | @block selector content children comments _ _ _ ih =>
    show Node.anyHasContent (arrange style (canonicalAll style children)) =
      Node.anyHasContent children
    have hmap : (children.map (Node.canonical style)).map Node.hasContent =
        children.map Node.hasContent := by
      rw [List.map_map]
      exact List.map_congr_left ih
    rw [anyHasContent_arrange, canonicalAll_eq_map, Node.anyHasContent_eq_any,
      Node.anyHasContent_eq_any]
    simpa only [List.any_map, Function.id_comp] using congrArg (List.any · id) hmap

end Canonical

section Mark

variable {style : Style} {depth : Nat}

/-- Closed comments are kept as they are. -/
theorem keptComments_of_closed {comments : List Text}
    (h : ∀ comment ∈ comments, isClosedComment comment = true) :
    keptComments style comments = comments.filter (!isSuppressed style.spec.names ·) := by
  rw [keptComments, List.map_congr_left fun comment hc =>
    closeComment_of_closed (h comment (List.mem_filter.mp hc).1), List.map_id']

/-- Marks that are taken away and set again are written as before. -/
theorem commentEntries_mark {unused : Bool} {comments : List Text}
    (h : ∀ comment ∈ comments, isClosedComment comment = true)
    (hmark : (if unused then [unusedMarker] else []) ++ comments.filter (!isStaleMarker ·) =
      comments) :
    commentEntries style depth ((if unused then [unusedMarker] else []) ++
        (keptComments style comments).filter (!isStaleMarker ·)) =
      commentEntries style depth comments := by
  conv_rhs => rw [← hmark]
  rw [keptComments_of_closed h, commentEntries, commentEntries, List.filter_append,
    List.filter_append, List.filter_filter, List.filter_filter, List.filter_filter]
  congr 3
  funext comment
  cases isSuppressed style.spec.names comment <;> simp

/-- A printable sheet lasts under its own style. -/
theorem Norm.lasting_self (style : Style) : Norm.printable.Implies (Norm.lasting style style) where
  comment comment h := Norm.lasting_of_printable.comment comment ⟨h, id⟩
  statement content h := Norm.lasting_of_printable.statement content ⟨h, trivial⟩
  selector _ _ := trivial

/-- A node whose marks are as they should be is laid out as before when they are set again on its
canonical tree. -/
theorem nodeEntries_mark_canonical (hlabels : style.LeavesOut style) {node : Node}
    (h : node.Meets Norm.printable) {unused : Bool} (hmark : node.mark unused = node) :
    nodeEntries style depth ((node.canonical style).mark unused) =
      nodeEntries style depth node := by
  have hentries := nodeEntries_canonical hlabels (h.mono (Norm.lasting_self style)) depth
  cases h with
  | @statement selector content children comments hcontent hcomments =>
    have hcomment := @commentEntries_mark style depth unused comments hcomments
      (congrArg Node.comments hmark)
    have htext : laidText (laidText content) = laidText content := laidText_of_closed hcontent
    rw [Node.canonical, Node.ofStatement, Node.mark, nodeEntries_leaf, nodeEntries_leaf, hcomment,
      htext]
  | @block selector content children comments _ hcomments _ =>
    have hcomment := @commentEntries_mark style depth unused comments hcomments
      (congrArg Node.comments hmark)
    have hkept := @commentEntries_keptComments style style depth comments fun comment hc =>
      (Norm.lasting_self style).comment comment (hcomments comment hc)
    rw [Node.canonical, nodeEntries, nodeEntries, blockEntries, blockEntries, hkept] at hentries
    rw [Node.canonical, Node.mark, nodeEntries, nodeEntries, blockEntries, blockEntries, hcomment]
    exact hentries

/-- What is seen of a node with fitting marks stays when they are set again on its canonical
tree. -/
theorem part_refresh_canonical (hlabels : style.LeavesOut style) {used : List Text} {node : Node}
    (h : node.Meets Norm.printable) (hfresh : node.refresh used = node) :
    (((node.canonical style).refresh used).view style depth).part =
      (node.view style depth).part := by
  have hkind : ((node.canonical style).refresh used).kind = node.kind := by
    have hcanonical : (node.canonical style).kind = node.kind := by cases h <;> rfl
    unfold Node.refresh
    split
    · exact hcanonical
    · split <;> exact hcanonical
  have hused : (node.canonical style).isUsed used = node.isUsed used := by
    rw [Node.isUsed, Node.isUsed, Node.mentions_congr (Node.classes_canonical style node)]
  have hentries : nodeEntries style depth ((node.canonical style).refresh used) =
      nodeEntries style depth node := by
    unfold Node.refresh at hfresh ⊢
    rw [hused, Node.classes_canonical]
    split
    · next hu =>
      rw [if_pos hu] at hfresh
      exact nodeEntries_mark_canonical hlabels h hfresh
    · next hu =>
      rw [if_neg hu] at hfresh
      split
      · exact nodeEntries_canonical hlabels (h.mono (Norm.lasting_self style)) depth
      · next hc =>
        rw [if_neg hc] at hfresh
        exact nodeEntries_mark_canonical hlabels h hfresh
  simp only [Node.view, LaidChild.view, LaidChild.part, hkind, hentries]

end Mark

section Sync

variable {style : Style} {used : List Text}

/-- Ordering a canonical body once more gives the body that it was made from. -/
theorem sameBody_orderByUse (hlabels : style.LeavesOut style) (hnodup : used.Nodup)
    (hnames : ∀ name ∈ used, IsClassName name) {children : List Node} {depth : Nat}
    (h : ∀ child ∈ orderByUse used children, child.Meets Norm.printable) :
    SameBody style depth
      (orderByUse used (arrange style (canonicalAll style (orderByUse used children))))
      (orderByUse used children) := by
  have hlasting : ∀ child ∈ orderByUse used children, child.Meets (Norm.lasting style style) :=
    fun child hc => (h child hc).mono (Norm.lasting_self style)
  constructor
  · rw [(filter_orderByUse used (arrange ..)).2]
    refine (alike_arrange hlabels _).trans ?_
    rw [(map_view_canonicalAll hlasting fun child hc =>
      nodeEntries_canonical hlabels (hlasting child hc) depth).1]
    exact fun _ => rfl
  · have hothers := filter_canonicalAll style h (!·)
    rw [(filter_orderByUse used (arrange ..)).1, filter_not_arrange, hothers]
    have hordered := (filter_orderByUse used children).1
    have hrest : ∀ node ∈ orderByUse used (children.filter (!·.isDeclaration)),
        node.Meets Norm.printable := by
      intro node hn
      rw [← hordered] at hn
      exact h node (List.mem_filter.mp hn).1
    rw [hordered, orderByUse_map_orderByUse (Node.classes_canonical style)
      (fun node hn => (hrest node hn).hasContent_canonical) hnodup hnames, List.map_map]
    refine List.map_congr_left fun node hn => ?_
    exact part_refresh_canonical hlabels (hrest node hn) (refresh_of_mem_orderByUse hnames hn)

/-- Ordering the canonical tree of an ordered sheet once more makes no difference to the layout. -/
theorem format_orderByUse_canonical (hspec : style.spec.Proper) (hnodup : used.Nodup)
    (hnames : ∀ name ∈ used, IsClassName name) {root : Node}
    (h : (root.orderByUse used).IsSheet Norm.printable) :
    (((root.orderByUse used).canonical style).orderByUse used).format style =
      (root.orderByUse used).format style := by
  obtain ⟨hroot, hcomments, hchildren⟩ := h
  obtain ⟨kind, selector, content, children, comments⟩ := root
  obtain ⟨rfl, rfl⟩ := Node.isRoot_mk_iff.mp hroot
  have hcarries := Norm.carries_any style Norm.printable
  have hagain : ∀ child ∈ orderByUse used (arrange style (canonicalAll style
      (orderByUse used children))), child.Meets Norm.any :=
    meets_orderByUse trivial (fun _ _ => trivial)
      (hcarries.arrange (hcarries.canonicalAll hchildren))
  have hsame : SameBody style 0 (orderByUse used (arrange style (canonicalAll style
      (orderByUse used children)))) (orderByUse used children) :=
    sameBody_orderByUse hspec.leavesOut hnodup hnames hchildren
  have hbody := hsame.bodyEntries_eq hagain hchildren
  have hkept := @commentEntries_keptComments style style 0 comments fun comment hc =>
    (Norm.lasting_self style).comment comment (hcomments comment hc)
  simp only [Node.orderByUse, Node.format, Node.canonical, nodeEntries]
  rw [hbody, hkept]

/-- Bringing a stylesheet in line with the classes used a second time changes nothing. -/
theorem syncText_of_printable (hspec : style.spec.Proper) (hnodup : used.Nodup)
    (hnames : ∀ name ∈ used, IsClassName name) {css : Text}
    (h : (parse css).IsSheet Norm.printable) :
    syncText style used (syncText style used css) = syncText style used css := by
  have hordered : ((parse css).orderByUse used).IsSheet Norm.printable :=
    h.orderByUse (by decide : isClosedComment unusedMarker = true) fun name hname =>
      (hnames name hname).closedSelector
  rw [syncText, syncText, parse_format_of_legible hspec.closed
    (hordered.mono Norm.legible_of_printable)]
  exact format_orderByUse_canonical hspec hnodup hnames hordered

end Sync

end StyleModules
