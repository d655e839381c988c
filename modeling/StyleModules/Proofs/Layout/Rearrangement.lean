import StyleModules.Proofs.Layout.Relayout

/-!
# The order of unrelated declarations

The children of a block may be permuted as long as declarations of one property stay in their order
and so do the children that are no declarations. Done in any number of blocks, at any depth, this
makes no difference to the layout (`format_of_rearranged`): declarations and other children are laid
out apart, and a plan keeps apart whatever has different properties.
-/

namespace StyleModules

/-- The node is a declaration of the property. -/
def Node.declares (property : Text) (node : Node) : Bool :=
  node.isDeclaration && node.propertyName == property

/-- The second list is the first one permuted, with the declarations of each property in the same
order and the other nodes in the same order. -/
structure Reordered (children others : List Node) : Prop where
  /-- No child is lost or added. -/
  perm : children.Perm others
  /-- The declarations of a property keep their order. -/
  declarations : ∀ property, children.filter (·.declares property) =
    others.filter (·.declares property)
  /-- The other children keep their order. -/
  rest : children.filter (!·.isDeclaration) = others.filter (!·.isDeclaration)

/-- The trees differ at most in the order of children: those of each node are rearranged
themselves, and then reordered. -/
inductive Node.Rearranged : Node → Node → Prop
  | node {kind : NodeKind} {selector : Option Text} {content : Text} {comments : List Text}
      {children middle others : List Node} (length_eq : children.length = middle.length)
      (below : ∀ pair ∈ children.zip middle, Rearranged pair.1 pair.2)
      (reordered : Reordered middle others) :
      Rearranged ⟨kind, selector, content, children, comments⟩
        ⟨kind, selector, content, others, comments⟩

section Lists

variable {α : Type} {children others : List Node}

/-- Lists that agree member by member agree when some members are left out. -/
theorem map_filter_eq_of_zip {keep : Node → Bool} {f : Node → α}
    (hlength : children.length = others.length)
    (h : ∀ pair ∈ children.zip others, keep pair.1 = keep pair.2 ∧ f pair.1 = f pair.2) :
    (children.filter keep).map f = (others.filter keep).map f := by
  induction children generalizing others with
  | nil => rw [List.eq_nil_of_length_eq_zero hlength.symm]
  | cons child children ih =>
    cases others with
    | nil => cases hlength
    | cons other others =>
      rw [List.zip_cons_cons, List.forall_mem_cons] at h
      have htail := ih (Nat.succ.inj hlength) h.2
      rw [List.filter_cons, List.filter_cons, h.1.1]
      cases keep other with
      | false => exact htail
      | true => exact congrArg₂ List.cons h.1.2 htail

/-- Reordered declarations are alike. -/
theorem Reordered.alike (h : Reordered children others) :
    Alike Node.propertyName (children.filter (·.isDeclaration))
      (others.filter (·.isDeclaration)) := by
  intro p
  simpa only [List.filter_filter, Node.declares, Bool.and_comm] using h.declarations p

/-- A reordering keeps the other children in their order. -/
theorem Reordered.filter_isOther (h : Reordered children others) (style : Style) :
    children.filter (·.isOther style) = others.filter (·.isOther style) := by
  have hrest := congrArg (List.filter fun node => !LaidChild.isDropped style ⟨node, []⟩) h.rest
  simpa only [List.filter_filter, Node.isOther, Bool.and_comm] using hrest

end Lists

section Layout

variable {style : Style} {depth : Nat}

/-- What a rearrangement leaves as it is in a node. -/
theorem Node.Rearranged.same {node other : Node} (h : node.Rearranged other) :
    node.kind = other.kind ∧ node.content = other.content := by
  cases h
  exact ⟨rfl, rfl⟩

/-- Whether a node is a declaration is told by its kind and content. -/
theorem Node.isDeclaration_congr {node other : Node} (hkind : node.kind = other.kind)
    (hcontent : node.content = other.content) : node.isDeclaration = other.isDeclaration := by
  rw [Node.isDeclaration, Node.isDeclaration, hkind, hcontent]

/-- Whether a node is another child is told by its kind and content. -/
theorem Node.isOther_congr {node other : Node} (hkind : node.kind = other.kind)
    (hcontent : node.content = other.content) : node.isOther style = other.isOther style := by
  rw [Node.isOther, Node.isOther, Node.isDeclaration_congr hkind hcontent]
  simp only [LaidChild.isDropped, hkind, hcontent]

/-- How a node is seen in a plan is told by its kind, content and entries. -/
theorem Node.view_congr {node other : Node} (hkind : node.kind = other.kind)
    (hcontent : node.content = other.content)
    (hentries : nodeEntries style depth node = nodeEntries style depth other) :
    node.view style depth = other.view style depth := by
  simp only [Node.view, LaidChild.view, LaidChild.part, Node.propertyName, hkind, hcontent,
    hentries]

/-- Where the children keep their entries, reordering them keeps the layout of the body. -/
theorem bodyEntries_of_reordered {children middle others : List Node}
    (hlength : children.length = middle.length)
    (hsame : ∀ pair ∈ children.zip middle, pair.1.kind = pair.2.kind ∧
      pair.1.content = pair.2.content ∧
        nodeEntries style depth pair.1 = nodeEntries style depth pair.2)
    (hreordered : Reordered middle others) :
    bodyEntries style depth (layChildren style depth children) =
      bodyEntries style depth (layChildren style depth others) := by
  have hdeclarations : (children.filter (·.isDeclaration)).map (Node.view style depth) =
      (middle.filter (·.isDeclaration)).map (Node.view style depth) :=
    map_filter_eq_of_zip hlength fun pair hp =>
      have ⟨hkind, hcontent, hentries⟩ := hsame pair hp
      ⟨Node.isDeclaration_congr hkind hcontent, Node.view_congr hkind hcontent hentries⟩
  have hothers : (children.filter (·.isOther style)).map (·.view style depth |>.part) =
      (middle.filter (·.isOther style)).map (·.view style depth |>.part) :=
    map_filter_eq_of_zip hlength fun pair hp =>
      have ⟨hkind, hcontent, hentries⟩ := hsame pair hp
      ⟨Node.isOther_congr hkind hcontent,
        congrArg View.part (Node.view_congr hkind hcontent hentries)⟩
  refine bodyEntries_eq_of_views ?_ ?_
  · intro p
    rw [hdeclarations, List.filter_map, List.filter_map]
    exact congrArg (List.map (Node.view style depth)) (hreordered.alike p)
  · rw [hothers, hreordered.filter_isOther]

/-- A node has the same entries when it is rearranged. -/
theorem nodeEntries_of_rearranged {node other : Node} (h : node.Rearranged other)
    (style : Style) (depth : Nat) :
    nodeEntries style depth node = nodeEntries style depth other := by
  induction h generalizing depth with
  | @node kind selector content comments children middle others hlength hbelow hreordered ih =>
    have hbody : ∀ depth, bodyEntries style depth (layChildren style depth children) =
        bodyEntries style depth (layChildren style depth others) := fun depth =>
      bodyEntries_of_reordered hlength
        (fun pair hp => ⟨(hbelow pair hp).same.1, (hbelow pair hp).same.2, ih pair hp depth⟩)
        hreordered
    cases kind with
    | leaf => rw [nodeEntries_leaf, nodeEntries_leaf]
    | comment => rfl
    | header => rfl
    | block =>
      cases selector with
      | none => rw [nodeEntries, nodeEntries, hbody]
      | some selector => rw [nodeEntries, nodeEntries, hbody]

end Layout

section Swap

/-- Neighbours can change places if they are declarations of different properties, or if just one of
them is a declaration. -/
theorem Reordered.swap {first second : Node}
    (h : first.isDeclaration = second.isDeclaration →
      first.isDeclaration = true ∧ first.propertyName ≠ second.propertyName)
    (front back : List Node) :
    Reordered (front ++ first :: second :: back) (front ++ second :: first :: back) where
  perm := (List.Perm.swap second first back).append_left front
  declarations p := by
    have hone : first.declares p = false ∨ second.declares p = false := by
      by_contra hboth
      simp only [Node.declares, Bool.not_eq_false, Bool.and_eq_true, beq_iff_eq, not_or] at hboth
      obtain ⟨⟨hfirst, rfl⟩, hsecond, hproperty⟩ := hboth
      exact (h (hfirst.trans hsecond.symm)).2 hproperty.symm
    rcases hone with hone | hone <;> simp [List.filter_append, List.filter_cons, hone]
  rest := by
    have hone : first.isDeclaration = true ∨ second.isDeclaration = true := by
      cases hfirst : first.isDeclaration with
      | true => exact Or.inl rfl
      | false =>
        cases hsecond : second.isDeclaration with
        | true => exact Or.inr rfl
        | false => simp [hfirst, hsecond] at h
    rcases hone with hone | hone <;> simp [List.filter_append, List.filter_cons, hone]

/-- Children are a reordering of themselves. -/
theorem Reordered.refl (children : List Node) : Reordered children children :=
  ⟨.refl _, fun _ => rfl, rfl⟩

/-- A node is a rearrangement of itself. -/
theorem Node.Rearranged.refl (node : Node) : node.Rearranged node := by
  induction node using Node.induction_children with
  | step node ih =>
    obtain ⟨kind, selector, content, children, comments⟩ := node
    refine .node rfl (fun pair hp => ?_) (Reordered.refl children)
    have hsame : pair.1 = pair.2 := by
      obtain ⟨index, _, hpair⟩ := List.mem_iff_getElem.mp hp
      simp [← hpair]
    rw [← hsame]
    exact ih pair.1 (List.of_mem_zip hp).1

end Swap

/-- The layout of a tree does not depend on the order of unrelated declarations, nor on where the
other children stand between them. -/
theorem format_of_rearranged {root other : Node} (h : root.Rearranged other) (style : Style) :
    root.format style = other.format style := by
  rw [Node.format, Node.format, nodeEntries_of_rearranged h]

/-- A declaration with a comment of its own. -/
def commentedDeclaration : Node := .ofStatement "b:1".toList ["/* own */".toList]

/-- A rule with declarations. -/
def ruleOf (declarations : List Node) : Node :=
  { kind := .block, selector := some ".a".toList, children := declarations }

/-- Children exchanged at two depths. -/
theorem format_of_rearranged_nested :
    let top : Node := .ofStatement "top:0".toList []
    let color : Node := .ofStatement "color:red".toList []
    let sheet : Node := { kind := .block, children := [commentedDeclaration, ruleOf [top, color]] }
    let other : Node := { kind := .block, children := [ruleOf [color, top], commentedDeclaration] }
    sheet.Rearranged other ∧ sheet.format {} = other.format {} := by
  intro top color sheet other
  have hdeclarations : Reordered [top, color] [color, top] := .swap (by decide +kernel) [] []
  have hrule : (ruleOf [top, color]).Rearranged (ruleOf [color, top]) := by
    refine .node ?_ (fun pair hp => ?_) hdeclarations
    · rfl
    · simp only [List.zip_cons_cons, List.zip_nil_left, List.mem_cons, List.not_mem_nil,
        or_false] at hp
      rcases hp with rfl | rfl <;> exact .refl _
  have hchildren : Reordered [commentedDeclaration, ruleOf [color, top]]
      [ruleOf [color, top], commentedDeclaration] := .swap (by decide +kernel) [] []
  have hsheet : sheet.Rearranged other := by
    refine .node ?_ (fun pair hp => ?_) hchildren
    · rfl
    · simp only [List.zip_cons_cons, List.zip_nil_left, List.mem_cons, List.not_mem_nil,
        or_false] at hp
      rcases hp with rfl | rfl
      · exact .refl _
      · exact hrule
  exact ⟨hsheet, format_of_rearranged hsheet {}⟩

end StyleModules
