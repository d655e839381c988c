import StyleModules.Component.Reorder
import StyleModules.Proofs.Component.ClassName

/-!
# Ordering by use twice

Ordering the statements of a sheet by use puts the rules of each used class together. If the result
is ordered once more, every class finds its rules where they are, the class without a rule finds the
empty one that was made for it, and nothing moves. All that can change is the marks, and these are
as they were left (`refresh_of_mem_orderByUse`). This still holds if each statement is exchanged in
between for one with the same classes and content (`orderByUse_map_orderByUse`).

Statements that mention no class are not touched: the declarations of a sheet stay as they are, and
the other statements are ordered as if there were none (`orderByUse_filter`).
-/

namespace StyleModules

namespace Node

/-- Marking a node keeps what it mentions. -/
@[simp] theorem mentions_mark (unused : Bool) (node : Node) :
    (node.mark unused).mentions = node.mentions := rfl

/-- Marking a node keeps whether it is a declaration. -/
@[simp] theorem isDeclaration_mark (unused : Bool) (node : Node) :
    (node.mark unused).isDeclaration = node.isDeclaration := rfl

/-- Marking a node keeps its content. -/
@[simp] theorem hasContent_mark (unused : Bool) (node : Node) :
    (node.mark unused).hasContent = node.hasContent := by
  obtain ⟨kind, selector, content, children, comments⟩ := node
  cases kind <;> rfl

/-- Marking a node twice is marking it once. -/
theorem mark_mark (unused : Bool) (node : Node) :
    (node.mark unused).mark unused = node.mark unused := by
  have hstale : isStaleMarker unusedMarker = true := by decide
  cases unused <;> simp [mark, hstale, List.filter_filter]

/-- An empty block has no marker to lose. -/
theorem mark_emptyBlock (selector : Text) :
    (emptyBlock selector).mark false = emptyBlock selector := rfl

/-- What nodes mention depends on their classes. -/
theorem mentions_congr {node other : Node} (h : node.classes = other.classes) :
    node.mentions = other.mentions := by
  funext name
  rw [mentions, mentions, h]

/-- A declaration has no classes. -/
theorem classes_of_isDeclaration {node : Node} (h : node.isDeclaration = true) :
    node.classes = [] := by
  obtain ⟨kind, selector, content, children, comments⟩ := node
  simp only [isDeclaration, Bool.and_eq_true, beq_iff_eq] at h
  obtain rfl := h.1.1
  rfl

/-- A node without classes mentions nothing. -/
theorem mentions_of_classes_eq_nil {node : Node} (h : node.classes = []) (name : Text) :
    node.mentions name = false := by
  rw [mentions, h]
  rfl

/-- A block made for a name mentions that name alone. -/
theorem mentions_emptyBlock {name : Text} (h : IsClassName name) (other : Text) :
    (emptyBlock ('.' :: name)).mentions other = (other == name) := by
  rw [mentions, h.classes_emptyBlock, List.contains_cons, List.contains_nil, Bool.or_false]

/-- Some used class is mentioned. -/
def isUsed (used : List Text) (node : Node) : Bool := used.any node.mentions

/-- A node is used if it mentions the first class or one of the others. -/
theorem isUsed_cons (name : Text) (used : List Text) (node : Node) :
    node.isUsed (name :: used) = (node.mentions name || node.isUsed used) := rfl

/-- The node with the marks that its use calls for. -/
def refresh (used : List Text) (node : Node) : Node :=
  if node.isUsed used then node.mark false
  else if node.classes.isEmpty then node
  else node.mark true

end Node

/-- The rules of one class among the remaining statements, or an empty one if it has none. -/
def rulesFor (all : List Node) (name : Text) (remaining : List Node) : List Node :=
  if all.any (·.mentions name) then (remaining.filter (·.mentions name)).map (Node.mark false)
  else [Node.emptyBlock ('.' :: name)]

section Gather

variable {all : List Node} {used : List Text}

/-- The rules of the first class come first, and its blocks are not looked at again. -/
theorem gatherRules_cons (all : List Node) (name : Text) (used : List Text)
    (remaining : List Node) :
    gatherRules all (name :: used) remaining =
      (rulesFor all name remaining ++
          (gatherRules all used (remaining.filter (!·.mentions name))).1,
        (gatherRules all used (remaining.filter (!·.mentions name))).2) := rfl

/-- The rules of a class are the blocks that mention it, or a new block. -/
theorem mem_rulesFor {name : Text} {remaining : List Node} {node : Node}
    (h : node ∈ rulesFor all name remaining) :
    (∃ original ∈ remaining, original.mentions name = true ∧ node = original.mark false) ∨
      node = Node.emptyBlock ('.' :: name) := by
  unfold rulesFor at h
  split at h
  · obtain ⟨original, ho, rfl⟩ := List.mem_map.mp h
    obtain ⟨hmem, hmentions⟩ := List.mem_filter.mp ho
    exact Or.inl ⟨original, hmem, hmentions, rfl⟩
  · exact Or.inr (List.mem_singleton.mp h)

/-- What is gathered are remaining statements that mention a used class, and new rules. -/
theorem mem_gatherRules {remaining : List Node} {node : Node}
    (h : node ∈ (gatherRules all used remaining).1) :
    (∃ original ∈ remaining, original.isUsed used = true ∧ node = original.mark false) ∨
      ∃ name ∈ used, node = Node.emptyBlock ('.' :: name) := by
  induction used generalizing remaining with
  | nil => simp [gatherRules] at h
  | cons name used ih =>
    rw [gatherRules_cons, List.mem_append] at h
    rcases h with h | h
    · rcases mem_rulesFor h with ⟨original, ho, hm, rfl⟩ | rfl
      · exact Or.inl ⟨original, ho, by rw [Node.isUsed_cons, hm, Bool.true_or], rfl⟩
      · exact Or.inr ⟨name, List.mem_cons_self, rfl⟩
    · rcases ih h with ⟨original, ho, hm, rfl⟩ | ⟨other, ho, rfl⟩
      · refine Or.inl ⟨original, (List.mem_filter.mp ho).1, ?_, rfl⟩
        rw [Node.isUsed_cons, hm, Bool.or_true]
      · exact Or.inr ⟨other, List.mem_cons_of_mem name ho, rfl⟩

/-- What no used class takes are the statements that mention none. -/
theorem gatherRules_snd (remaining : List Node) :
    (gatherRules all used remaining).2 = remaining.filter (!·.isUsed used) := by
  induction used generalizing remaining with
  | nil => exact (List.filter_eq_self.mpr fun _ _ => rfl).symm
  | cons name used ih =>
    rw [gatherRules_cons, ih, List.filter_filter]
    refine List.filter_congr fun node _ => ?_
    rw [Node.isUsed_cons, Bool.not_or, Bool.and_comm]

/-- A used node is gathered, with its marker taken away. -/
theorem mark_mem_gatherRules {remaining : List Node} (hall : ∀ node ∈ remaining, node ∈ all)
    {node : Node} (hn : node ∈ remaining) (hused : node.isUsed used = true) :
    node.mark false ∈ (gatherRules all used remaining).1 := by
  induction used generalizing remaining with
  | nil => simp [Node.isUsed] at hused
  | cons name used ih =>
    rw [gatherRules_cons, List.mem_append]
    cases hm : node.mentions name with
    | true =>
      have hany : all.any (·.mentions name) = true := List.any_eq_true.mpr ⟨node, hall node hn, hm⟩
      rw [rulesFor, if_pos hany]
      exact Or.inl (List.mem_map_of_mem (List.mem_filter.mpr ⟨hn, hm⟩))
    | false =>
      rw [Node.isUsed_cons, hm, Bool.false_or] at hused
      exact Or.inr (ih (fun other ho => hall other (List.mem_filter.mp ho).1)
        (List.mem_filter.mpr ⟨hn, by simp [hm]⟩) hused)

/-- A class that no block mentions gets a new block. -/
theorem emptyBlock_mem_gatherRules {name : Text} (hname : name ∈ used)
    (h : all.any (·.mentions name) = false) (remaining : List Node) :
    Node.emptyBlock ('.' :: name) ∈ (gatherRules all used remaining).1 := by
  induction used generalizing remaining with
  | nil => simp at hname
  | cons first used ih =>
    rw [gatherRules_cons, List.mem_append]
    rcases List.mem_cons.mp hname with rfl | hname
    · exact Or.inl (by simp [rulesFor, h])
    · exact Or.inr (ih hname _)

/-- Every used class has a rule among those that are gathered. -/
theorem any_gatherRules (hnames : ∀ name ∈ used, IsClassName name) {name : Text}
    (hname : name ∈ used) : (gatherRules all used all).1.any (·.mentions name) = true := by
  rw [List.any_eq_true]
  cases hany : all.any (·.mentions name) with
  | true =>
    obtain ⟨node, hn, hm⟩ := List.any_eq_true.mp hany
    have hused : node.isUsed used = true := List.any_eq_true.mpr ⟨name, hname, hm⟩
    exact ⟨node.mark false, mark_mem_gatherRules (fun _ h => h) hn hused, hm⟩
  | false =>
    refine ⟨_, emptyBlock_mem_gatherRules hname hany all, ?_⟩
    rw [Node.mentions_emptyBlock (hnames name hname), beq_self_eq_true]

/-- Where the front has the property and the back lacks it, filtering takes them apart. -/
theorem filter_append_of_apart {p : Node → Bool} {front back : List Node}
    (hfront : ∀ node ∈ front, p node = true) (hback : ∀ node ∈ back, p node = false) :
    (front ++ back).filter p = front ∧ (front ++ back).filter (!p ·) = back := by
  rw [List.filter_append, List.filter_append, List.filter_eq_self.mpr hfront,
    List.filter_eq_nil_iff.mpr fun node hn => by simp [hback node hn],
    List.filter_eq_nil_iff.mpr fun node hn => by simp [hfront node hn],
    List.filter_eq_self.mpr fun node hn => by simp [hback node hn]]
  exact ⟨List.append_nil _, List.nil_append _⟩

/-- Gathering gathered rules once more leaves them in place and removes their marks. -/
theorem gatherRules_map_gatherRules {f : Node → Node} (hf : ∀ node, (f node).classes = node.classes)
    (hnodup : used.Nodup) (hnames : ∀ name ∈ used, IsClassName name) {others rest : List Node}
    (hothers : ∀ name ∈ used, others.any (·.mentions name) = true)
    (hrest : ∀ node ∈ rest, node.isUsed used = false) (remaining : List Node) :
    gatherRules others used ((gatherRules all used remaining).1.map f ++ rest) =
      ((gatherRules all used remaining).1.map fun node => (f node).mark false, rest) := by
  induction used generalizing remaining with
  | nil => rfl
  | cons name used ih =>
    obtain ⟨hfresh, hnodup⟩ := List.nodup_cons.mp hnodup
    have hfm : ∀ node, (f node).mentions name = node.mentions name := fun node => by
      rw [Node.mentions_congr (hf node)]
    have hunused : ∀ node ∈ rest, node.mentions name = false ∧ node.isUsed used = false :=
      fun node hn => Bool.or_eq_false_iff.mp (hrest node hn)
    -- The rules of the class are found where they were put; nothing behind them mentions it.
    have hrules : ∀ node ∈ (rulesFor all name remaining).map f, node.mentions name = true := by
      intro node hn
      obtain ⟨rule, hr, rfl⟩ := List.mem_map.mp hn
      rw [hfm]
      rcases mem_rulesFor hr with ⟨original, _, hm, rfl⟩ | rfl
      · exact hm
      · rw [Node.mentions_emptyBlock (hnames name List.mem_cons_self), beq_self_eq_true]
    have hlater : ∀ node ∈ (gatherRules all used (remaining.filter (!·.mentions name))).1.map f ++
        rest, node.mentions name = false := by
      intro node hn
      rcases List.mem_append.mp hn with hn | hn
      · obtain ⟨rule, hr, rfl⟩ := List.mem_map.mp hn
        rw [hfm]
        rcases mem_gatherRules hr with ⟨original, ho, _, rfl⟩ | ⟨other, ho, rfl⟩
        · simpa using (List.mem_filter.mp ho).2
        · rw [Node.mentions_emptyBlock (hnames other (List.mem_cons_of_mem name ho))]
          exact beq_false_of_ne fun he => hfresh (he ▸ ho)
      · exact (hunused node hn).1
    have hagain := ih hnodup (fun other ho => hnames other (List.mem_cons_of_mem name ho))
      (fun other ho => hothers other (List.mem_cons_of_mem name ho))
      (fun node hn => (hunused node hn).2)
      (remaining.filter (!·.mentions name))
    obtain ⟨hfront, hback⟩ := filter_append_of_apart hrules hlater
    rw [gatherRules_cons all, List.map_append, List.append_assoc, gatherRules_cons others, rulesFor,
      if_pos (hothers name List.mem_cons_self), hfront, hback, hagain, List.map_append,
      List.map_map]
    rfl

/-- Statements that mention no class make no difference to what is gathered. -/
theorem gatherRules_filter {keep : Node → Bool}
    (hkeep : ∀ node : Node, keep node = false → node.classes = []) (all remaining : List Node) :
    gatherRules (all.filter keep) used (remaining.filter keep) =
      ((gatherRules all used remaining).1, (gatherRules all used remaining).2.filter keep) := by
  have hmentions : ∀ name (node : Node),
      (keep node && node.mentions name) = node.mentions name := by
    intro name node
    cases hk : keep node with
    | true => rfl
    | false => rw [Node.mentions_of_classes_eq_nil (hkeep node hk)]; rfl
  induction used generalizing remaining with
  | nil => rfl
  | cons name used ih =>
    have hany : (all.filter keep).any (·.mentions name) = all.any (·.mentions name) := by
      rw [List.any_filter]
      exact List.any_congr rfl (fun node => hmentions name node)
    have hrules : (remaining.filter keep).filter (·.mentions name) =
        remaining.filter (·.mentions name) := by
      rw [List.filter_filter]
      refine List.filter_congr fun node _ => ?_
      rw [Bool.and_comm, hmentions]
    have hlater : (remaining.filter keep).filter (!·.mentions name) =
        (remaining.filter (!·.mentions name)).filter keep := by
      rw [List.filter_filter, List.filter_filter]
      exact List.filter_congr fun node _ => Bool.and_comm _ _
    rw [gatherRules_cons, gatherRules_cons, hlater, ih, rulesFor, rulesFor, hany, hrules]

end Gather

section Order

variable {used : List Text} {children : List Node}

/-- Ordering by use gathers the rules of the classes, and settles the others behind them. -/
theorem orderByUse_eq (used : List Text) (children : List Node) :
    orderByUse used children = (gatherRules children used children).1 ++
      (children.filter (!·.isUsed used)).flatMap Node.settle := by
  rw [← @gatherRules_snd children used]
  rfl

/-- A node is settled as it is, or marked if it has classes and content. -/
theorem mem_settle {node result : Node} (h : result ∈ node.settle) :
    (node.classes = [] ∧ result = node) ∨
      (node.classes ≠ [] ∧ node.hasContent = true ∧ result = node.mark true) := by
  unfold Node.settle at h
  split at h
  · next hc => exact Or.inl ⟨List.isEmpty_iff.mp hc, List.mem_singleton.mp h⟩
  · next hc =>
    split at h
    · next hcontent => exact Or.inr ⟨by simpa using hc, hcontent, List.mem_singleton.mp h⟩
    · simp at h

/-- A gathered rule is used and has no mark. -/
theorem isUsed_of_mem_gatherRules (hnames : ∀ name ∈ used, IsClassName name) {node : Node}
    (h : node ∈ (gatherRules children used children).1) :
    node.isUsed used = true ∧ node.mark false = node := by
  rcases mem_gatherRules h with ⟨original, _, hused, rfl⟩ | ⟨name, hname, rfl⟩
  · exact ⟨hused, Node.mark_mark false original⟩
  · refine ⟨List.any_eq_true.mpr ⟨name, hname, ?_⟩, Node.mark_emptyBlock _⟩
    rw [Node.mentions_emptyBlock (hnames name hname), beq_self_eq_true]

/-- A settled statement is not used; if it mentions a class, it has content and is marked. -/
theorem not_isUsed_of_mem_settled {node : Node}
    (h : node ∈ (children.filter (!·.isUsed used)).flatMap Node.settle) :
    node.isUsed used = false ∧
      (node.classes = [] ∨ node.classes ≠ [] ∧ node.hasContent = true ∧ node.mark true = node) := by
  obtain ⟨original, ho, hs⟩ := List.mem_flatMap.mp h
  have hunused : original.isUsed used = false := by simpa using (List.mem_filter.mp ho).2
  rcases mem_settle hs with ⟨hclasses, rfl⟩ | ⟨hclasses, hcontent, rfl⟩
  · exact ⟨hunused, Or.inl hclasses⟩
  · exact ⟨hunused, Or.inr ⟨hclasses, by rw [Node.hasContent_mark, hcontent],
      Node.mark_mark true original⟩⟩

/-- The marks in a sheet ordered by use are those that the use calls for. -/
theorem refresh_of_mem_orderByUse (hnames : ∀ name ∈ used, IsClassName name) {node : Node}
    (h : node ∈ orderByUse used children) : node.refresh used = node := by
  rw [orderByUse_eq, List.mem_append] at h
  rcases h with h | h
  · obtain ⟨hused, hmark⟩ := isUsed_of_mem_gatherRules hnames h
    rw [Node.refresh, if_pos hused, hmark]
  · obtain ⟨hunused, hclasses | ⟨hclasses, _, hmark⟩⟩ := not_isUsed_of_mem_settled h
    · rw [Node.refresh, hunused, hclasses]
      rfl
    · rw [Node.refresh, hunused, if_neg (by simp), if_neg (by simpa using hclasses), hmark]

/-- Ordering an ordered sheet once more moves nothing, even if each statement has been exchanged
for one with the same classes and content. -/
theorem orderByUse_map_orderByUse {f : Node → Node} (hf : ∀ node, (f node).classes = node.classes)
    (hcontent : ∀ node ∈ orderByUse used children, (f node).hasContent = node.hasContent)
    (hnodup : used.Nodup) (hnames : ∀ name ∈ used, IsClassName name) :
    orderByUse used ((orderByUse used children).map f) =
      (orderByUse used children).map fun node => (f node).refresh used := by
  have hused : ∀ node, (f node).isUsed used = node.isUsed used := fun node => by
    rw [Node.isUsed, Node.isUsed, Node.mentions_congr (hf node)]
  rw [orderByUse_eq used children] at hcontent ⊢
  have hothers : ∀ name ∈ used, (((gatherRules children used children).1 ++
      (children.filter (!·.isUsed used)).flatMap Node.settle).map f).any
        (·.mentions name) = true := by
    intro name hname
    obtain ⟨node, hn, hm⟩ := List.any_eq_true.mp (@any_gatherRules children used hnames name hname)
    refine List.any_eq_true.mpr ⟨f node, List.mem_map_of_mem (List.mem_append_left _ hn), ?_⟩
    rw [Node.mentions_congr (hf node), hm]
  have hrest : ∀ node ∈ ((children.filter (!·.isUsed used)).flatMap Node.settle).map f,
      node.isUsed used = false := by
    intro node hn
    obtain ⟨settled, hs, rfl⟩ := List.mem_map.mp hn
    rw [hused, (not_isUsed_of_mem_settled hs).1]
  have hgather := @gatherRules_map_gatherRules children used f hf hnodup hnames _ _ hothers hrest
    children
  rw [← List.map_append] at hgather
  rw [orderByUse, hgather, List.flatMap_map, List.map_append]
  congr 1
  · refine List.map_congr_left fun node hn => ?_
    rw [Node.refresh, hused, (isUsed_of_mem_gatherRules hnames hn).1, if_pos rfl]
  · rw [List.map_eq_flatMap]
    refine List.flatMap_congr fun node hn => ?_
    have hkept := hcontent node (List.mem_append_right _ hn)
    obtain ⟨hunused, hclasses | ⟨hclasses, hnode, _⟩⟩ := not_isUsed_of_mem_settled hn
    · rw [Node.settle, Node.refresh, hused, hunused, hf, hclasses]
      rfl
    · have hempty : node.classes.isEmpty = false := by simpa using hclasses
      rw [Node.settle, Node.refresh, hused, hunused, hf, hempty, hkept, hnode]
      rfl

/-- What is used is no declaration. -/
theorem isDeclaration_of_isUsed {node : Node} (h : node.isUsed used = true) :
    node.isDeclaration = false := by
  cases hd : node.isDeclaration with
  | false => rfl
  | true =>
    obtain ⟨name, _, hm⟩ := List.any_eq_true.mp h
    rw [Node.mentions_of_classes_eq_nil (Node.classes_of_isDeclaration hd)] at hm
    cases hm

/-- What is gathered is no declaration. -/
theorem isDeclaration_of_mem_gatherRules {all remaining : List Node} {node : Node}
    (h : node ∈ (gatherRules all used remaining).1) : node.isDeclaration = false := by
  rcases mem_gatherRules h with ⟨original, _, hused, rfl⟩ | ⟨name, _, rfl⟩
  · rw [Node.isDeclaration_mark, isDeclaration_of_isUsed hused]
  · rfl

/-- Settling keeps apart what a mark does not change, and leaves alone what mentions no class. -/
theorem filter_flatMap_settle {keep : Node → Bool}
    (hmark : ∀ node : Node, keep (node.mark true) = keep node)
    (hkeep : ∀ node : Node, keep node = false → node.classes = []) (nodes : List Node) :
    (nodes.flatMap Node.settle).filter keep = (nodes.filter keep).flatMap Node.settle ∧
      (nodes.flatMap Node.settle).filter (!keep ·) = nodes.filter (!keep ·) := by
  induction nodes with
  | nil => exact ⟨rfl, rfl⟩
  | cons node nodes ih =>
    rw [List.flatMap_cons, List.filter_append, List.filter_append, ih.1, ih.2]
    cases hk : keep node with
    | false =>
      have hsettle : node.settle = [node] := by
        rw [Node.settle, hkeep node hk]
        rfl
      simp [hsettle, hk]
    | true =>
      have hresult : ∀ result ∈ node.settle, keep result = true := by
        intro result hr
        rcases mem_settle hr with ⟨_, rfl⟩ | ⟨_, _, rfl⟩
        · exact hk
        · rw [hmark, hk]
      have hkept : node.settle.filter keep = node.settle :=
        List.filter_eq_self.mpr hresult
      have hnone : node.settle.filter (!keep ·) = [] :=
        List.filter_eq_nil_iff.mpr fun result hr => by simp [hresult result hr]
      simp [hkept, hnone, hk]

/-- Ordering leaves declarations alone, and orders the other statements as if there were none. -/
theorem filter_orderByUse (used : List Text) (children : List Node) :
    (orderByUse used children).filter (!·.isDeclaration) =
        orderByUse used (children.filter (!·.isDeclaration)) ∧
      (orderByUse used children).filter (·.isDeclaration) =
        children.filter (·.isDeclaration) := by
  have hkeep : ∀ node : Node, (!node.isDeclaration) = false → node.classes = [] :=
    fun node hd => Node.classes_of_isDeclaration (by simpa using hd)
  have hgather := @gatherRules_filter used (!·.isDeclaration) hkeep children children
  obtain ⟨hothers, hdeclarations⟩ := filter_flatMap_settle
    (fun node => by rw [Node.isDeclaration_mark]) hkeep (children.filter (!Node.isUsed used ·))
  simp only [Bool.not_not] at hdeclarations
  rw [orderByUse_eq, orderByUse_eq, hgather, List.filter_append, List.filter_append, hothers,
    hdeclarations]
  constructor
  · rw [List.filter_eq_self.mpr fun node hn => by simp [isDeclaration_of_mem_gatherRules hn],
      List.filter_filter, List.filter_filter]
    simp only [Bool.and_comm]
  · rw [List.filter_eq_nil_iff.mpr fun node hn => by simp [isDeclaration_of_mem_gatherRules hn],
      List.nil_append, List.filter_filter]
    refine List.filter_congr fun node _ => ?_
    cases hused : node.isUsed used with
    | false => simp
    | true => simp [isDeclaration_of_isUsed hused]

/-- A marked node meets the norm if the marker does. -/
theorem Node.Meets.mark {norm : Norm} (hmarker : norm.comment unusedMarker) {node : Node}
    (h : node.Meets norm) (unused : Bool) : (node.mark unused).Meets norm := by
  have hcomments : ∀ comments : List Text, (∀ comment ∈ comments, norm.comment comment) →
      ∀ comment ∈ (if unused then [unusedMarker] else []) ++ comments.filter (!isStaleMarker ·),
        norm.comment comment := by
    intro comments hc comment hm
    rcases List.mem_append.mp hm with hm | hm
    · cases unused with
      | true => rwa [List.mem_singleton.mp hm]
      | false => simp at hm
    · exact hc comment (List.mem_filter.mp hm).1
  cases h with
  | statement hcontent hc => exact .statement hcontent (hcomments _ hc)
  | block hselector hc hchildren => exact .block hselector (hcomments _ hc) hchildren

/-- A norm that admits the mark and the new rules is kept. -/
theorem meets_orderByUse {norm : Norm} (hmarker : norm.comment unusedMarker)
    (hnames : ∀ name ∈ used, norm.selector ('.' :: name))
    (h : ∀ child ∈ children, child.Meets norm) :
    ∀ child ∈ orderByUse used children, child.Meets norm := by
  intro child hc
  rw [orderByUse_eq, List.mem_append] at hc
  rcases hc with hc | hc
  · rcases mem_gatherRules hc with ⟨original, ho, _, rfl⟩ | ⟨name, hname, rfl⟩
    · exact (h original ho).mark hmarker false
    · exact .block (hnames name hname) (by simp) (by simp)
  · obtain ⟨original, ho, hs⟩ := List.mem_flatMap.mp hc
    have horiginal := h original (List.mem_filter.mp ho).1
    rcases mem_settle hs with ⟨_, rfl⟩ | ⟨_, _, rfl⟩
    · exact horiginal
    · exact horiginal.mark hmarker true

/-- The norm of a sheet is kept as well. -/
theorem Node.IsSheet.orderByUse {norm : Norm} (hmarker : norm.comment unusedMarker)
    (hnames : ∀ name ∈ used, norm.selector ('.' :: name)) {root : Node}
    (h : root.IsSheet norm) : (root.orderByUse used).IsSheet norm :=
  ⟨h.isRoot, h.comments, meets_orderByUse hmarker hnames h.children⟩

end Order

end StyleModules
