import Mathlib.Data.List.Infix
import StyleModules.Proofs.Component.UseOrder
import StyleModules.Proofs.Layout.Comment

/-!
# Where ordering by use puts a statement

The rules of a sheet are gathered class by class, and what one class takes is gone for the next. So
a rule that mentions several used classes goes with the first of them. This makes its place a matter
of the rule alone: its key is the position of the first used class that it mentions, and the sheet
lists the rules key by key (`gatherRules_eq_flatMap`). No rule is listed twice, and none is lost but
those without content whose classes are all unused (`orderByUse_perm`).
-/

namespace StyleModules

namespace Node

/-- The position of the first used class that the node mentions. -/
def useKey (used : List Text) (node : Node) : Option Nat := used.findIdx? node.mentions

/-- The key of a node is found at the first class or behind it. -/
theorem useKey_cons (name : Text) (used : List Text) (node : Node) :
    node.useKey (name :: used) =
      if node.mentions name then some 0 else (node.useKey used).map (· + 1) :=
  List.findIdx?_cons

/-- A node has a key if it is used. -/
theorem isSome_useKey (used : List Text) (node : Node) :
    (node.useKey used).isSome = node.isUsed used :=
  List.findIdx?_isSome

/-- A node has no key if it is not used. -/
theorem useKey_eq_none (used : List Text) (node : Node) :
    (node.useKey used == none) = !node.isUsed used := by
  rw [← isSome_useKey]
  cases node.useKey used <;> rfl

/-- A statement that is not empty stands at the node or below it, with no other statement
between. -/
inductive HoldsStatement : Node → Prop
  | here {selector : Option Text} {content : Text} {children : List Node} {comments : List Text}
      (content_ne : content ≠ []) : HoldsStatement ⟨.leaf, selector, content, children, comments⟩
  | inside {kind : NodeKind} {selector : Option Text} {content : Text} {children : List Node}
      {comments : List Text} {child : Node} (kind_ne : kind ≠ .leaf) (mem : child ∈ children)
      (holds : HoldsStatement child) : HoldsStatement ⟨kind, selector, content, children, comments⟩

/-- What is no leaf has content if one of its children has. -/
theorem hasContent_mk {kind : NodeKind} (h : kind ≠ .leaf) (selector : Option Text)
    (content : Text) (children : List Node) (comments : List Text) :
    hasContent ⟨kind, selector, content, children, comments⟩ = children.any hasContent := by
  rw [← anyHasContent_eq_any]
  cases kind with
  | leaf => exact absurd rfl h
  | block => rfl
  | header => rfl
  | comment => rfl

/-- A node has content if it holds a statement. -/
theorem hasContent_iff (node : Node) : node.hasContent = true ↔ node.HoldsStatement := by
  induction node using induction_children with
  | step node ih =>
    obtain ⟨kind, selector, content, children, comments⟩ := node
    by_cases hkind : kind = .leaf
    · subst hkind
      have hcontent : hasContent ⟨.leaf, selector, content, children, comments⟩ = true ↔
          content ≠ [] := by simp [hasContent]
      refine hcontent.trans ⟨fun h => .here h, fun h => ?_⟩
      cases h with
      | here h => exact h
      | inside h _ _ => exact absurd rfl h
    · rw [hasContent_mk hkind, List.any_eq_true]
      constructor
      · rintro ⟨child, hc, hcontent⟩
        exact .inside hkind hc ((ih child hc).mp hcontent)
      · intro h
        cases h with
        | here _ => exact absurd rfl hkind
        | @inside _ _ _ _ _ child _ hc hholds => exact ⟨child, hc, (ih child hc).mpr hholds⟩

/-- The node stays in the sheet: it is used, mentions no class, or has content. -/
def isKept (used : List Text) (node : Node) : Bool :=
  node.isUsed used || node.classes.isEmpty || node.hasContent

end Node

section Gather

variable {all : List Node} {used : List Text}

/-- The rules that are gathered, key by key. -/
theorem gatherRules_eq_flatMap (all : List Node) (used : List Text) (remaining : List Node) :
    (gatherRules all used remaining).1 = used.zipIdx.flatMap fun entry =>
      if all.any (·.mentions entry.1) then
        (remaining.filter (·.useKey used == some entry.2)).map (Node.mark false)
      else [Node.emptyBlock ('.' :: entry.1)] := by
  induction used generalizing remaining with
  | nil => rfl
  | cons name used ih =>
    have hfirst : ∀ node : Node, (node.useKey (name :: used) == some 0) = node.mentions name := by
      intro node
      rw [Node.useKey_cons]
      cases node.mentions name with
      | true => rfl
      | false => cases node.useKey used <;> rfl
    have hlater : ∀ (node : Node) (index : Nat),
        (node.useKey (name :: used) == some (index + 1)) =
          (node.useKey used == some index && !node.mentions name) := by
      intro node index
      rw [Node.useKey_cons]
      cases node.mentions name with
      | true => simp
      | false => cases node.useKey used <;> simp
    rw [gatherRules_cons, ih, List.zipIdx_cons, List.flatMap_cons, Nat.zero_add,
      List.zipIdx_succ, List.flatMap_map]
    simp only [hfirst, hlater, List.filter_filter]
    rfl

/-- Statements of two kinds that exclude each other are those of the one and those of the other. -/
theorem filter_perm_of_apart {keep first second : Node → Bool}
    (hkeep : ∀ node, keep node = (first node || second node))
    (hapart : ∀ node, second node = true → first node = false) (nodes : List Node) :
    (nodes.filter keep).Perm (nodes.filter first ++ nodes.filter second) := by
  have hfirst : (nodes.filter keep).filter first = nodes.filter first := by
    rw [List.filter_filter]
    refine List.filter_congr fun node _ => ?_
    rw [hkeep]
    cases first node <;> rfl
  have hsecond : (nodes.filter keep).filter (!first ·) = nodes.filter second := by
    rw [List.filter_filter]
    refine List.filter_congr fun node _ => ?_
    rw [hkeep]
    cases hs : second node with
    | true => rw [hapart node hs]; rfl
    | false => cases first node <;> rfl
  have hparts := List.filter_append_perm first (nodes.filter keep)
  rw [hfirst, hsecond] at hparts
  exact hparts.symm

/-- A rule is made for each used class that no statement mentions; apart from these, what is
gathered are the used statements, each of them once. -/
theorem gatherRules_perm {remaining : List Node} (hall : ∀ node ∈ remaining, node ∈ all) :
    (gatherRules all used remaining).1.Perm
      ((used.filter fun name => !all.any (·.mentions name)).map
          (fun name => Node.emptyBlock ('.' :: name)) ++
        (remaining.filter (·.isUsed used)).map (Node.mark false)) := by
  induction used generalizing remaining with
  | nil =>
    have hnone : remaining.filter (·.isUsed []) = [] := by simp [Node.isUsed]
    rw [hnone]
    exact .refl _
  | cons name used ih =>
    have hlater := @ih (remaining.filter (!·.mentions name))
      fun node hn => hall node (List.mem_filter.mp hn).1
    have hused : (remaining.filter (·.isUsed (name :: used))).Perm
        (remaining.filter (·.mentions name) ++
          (remaining.filter (!·.mentions name)).filter (·.isUsed used)) := by
      rw [List.filter_filter]
      refine filter_perm_of_apart (fun node => ?_) (fun node hn => by simp_all) remaining
      rw [Node.isUsed_cons]
      cases node.mentions name <;> simp
    replace hused := hused.map (Node.mark false)
    rw [List.map_append] at hused
    rw [gatherRules_cons]
    refine (hlater.append_left _).trans (.trans ?_ (hused.symm.append_left _))
    rw [rulesFor]
    cases hany : all.any (·.mentions name) with
    | true =>
      rw [if_pos rfl, List.filter_cons_of_neg (by simp [hany]), ← List.append_assoc,
        ← List.append_assoc]
      exact List.perm_append_comm.append_right _
    | false =>
      have hnone : remaining.filter (·.mentions name) = [] :=
        List.filter_eq_nil_iff.mpr fun node hn =>
          List.any_eq_false.mp hany node (hall node hn)
      rw [if_neg (by simp), List.filter_cons_of_pos (by simp [hany]), hnone]
      exact .refl _

end Gather

section Order

variable {used : List Text} {children : List Node}

/-- A node that is not used is kept with its comments set right, or left out. -/
theorem Node.settle_eq {node : Node} (h : node.isUsed used = false) :
    node.settle = if node.isKept used then [node.refresh used] else [] := by
  rw [Node.settle, Node.isKept, Node.refresh, h]
  cases node.classes.isEmpty <;> cases node.hasContent <;> rfl

/-- Of the statements that are not used, those that are kept stay in their order. -/
theorem flatMap_settle_eq (used : List Text) (children : List Node) :
    (children.filter (!·.isUsed used)).flatMap Node.settle =
      (children.filter fun child => child.useKey used == none && child.isKept used).map
        (·.refresh used) := by
  induction children with
  | nil => rfl
  | cons child children ih =>
    rw [List.filter_cons, List.filter_cons, Node.useKey_eq_none]
    cases hused : child.isUsed used with
    | true => exact ih
    | false =>
      rw [Bool.not_false, Bool.true_and, if_pos rfl, List.flatMap_cons, Node.settle_eq hused, ih]
      cases child.isKept used <;> rfl

/-- Marking used nodes sets their comments right. -/
theorem map_refresh_of_isUsed {nodes : List Node} (h : ∀ node ∈ nodes, node.isUsed used = true) :
    nodes.map (·.refresh used) = nodes.map (Node.mark false) :=
  List.map_congr_left fun node hn => by rw [Node.refresh, if_pos (h node hn)]

/-- Ordering by use lists the statements key by key, and then those without a key. -/
theorem orderByUse_eq_placed (used : List Text) (children : List Node) :
    orderByUse used children =
      (used.zipIdx.flatMap fun entry =>
        if children.any (·.mentions entry.1) then
          (children.filter (·.useKey used == some entry.2)).map (·.refresh used)
        else [Node.emptyBlock ('.' :: entry.1)]) ++
      (children.filter fun child => child.useKey used == none && child.isKept used).map
        (·.refresh used) := by
  rw [orderByUse_eq, flatMap_settle_eq, gatherRules_eq_flatMap]
  congr 1
  refine List.flatMap_congr fun entry _ => ?_
  rw [map_refresh_of_isUsed fun node hn => ?_]
  rw [← Node.isSome_useKey]
  have hkey : node.useKey used = some entry.2 := by simpa using (List.mem_filter.mp hn).2
  rw [hkey]
  rfl

/-- Ordering by use makes a rule for each used class that no statement mentions; apart from these,
each statement that is kept is in the sheet once. -/
theorem orderByUse_perm (used : List Text) (children : List Node) :
    (orderByUse used children).Perm
      ((used.filter fun name => !children.any (·.mentions name)).map
          (fun name => Node.emptyBlock ('.' :: name)) ++
        (children.filter (·.isKept used)).map (·.refresh used)) := by
  have hkept : (children.filter (·.isKept used)).Perm
      (children.filter (·.isUsed used) ++
        children.filter fun child => child.useKey used == none && child.isKept used) := by
    simp only [Node.useKey_eq_none]
    refine filter_perm_of_apart (fun node => ?_) (fun node hn => by simp_all) children
    rw [Node.isKept]
    cases node.isUsed used <;> rfl
  have hused := @map_refresh_of_isUsed used (children.filter (·.isUsed used))
    fun node hn => (List.mem_filter.mp hn).2
  have hgathered := @gatherRules_perm children used children fun _ h => h
  rw [← hused] at hgathered
  rw [orderByUse_eq, flatMap_settle_eq]
  refine (hgathered.append_right _).trans ?_
  rw [List.append_assoc, ← List.map_append]
  exact ((hkept.map _).symm).append_left _

/-- What ordering by use makes of the children of a sheet. -/
structure FollowsUse (used : List Text) (children result : List Node) : Prop where
  /-- For each used class in turn stand the children whose first used class it is, in their order,
  or a new empty rule if no child mentions the class. Behind them stand the children that mention no
  used class, in their order, except those that mention a class and hold no statement. -/
  placed : result =
    (used.zipIdx.flatMap fun entry =>
      if children.any (·.mentions entry.1) then
        (children.filter (·.useKey used == some entry.2)).map (·.refresh used)
      else [Node.emptyBlock ('.' :: entry.1)]) ++
    (children.filter fun child => child.useKey used == none && child.isKept used).map
      (·.refresh used)
  /-- Apart from the new rules, each child that is kept occurs once. -/
  once : result.Perm
    ((used.filter fun name => !children.any (·.mentions name)).map
        (fun name => Node.emptyBlock ('.' :: name)) ++
      (children.filter (·.isKept used)).map (·.refresh used))

/-- What ordering by use makes of a child: only its comments may change. -/
structure KeepsChild (used : List Text) (child : Node) : Prop where
  /-- The child is kept if it mentions a used class, or no class at all, or holds a statement. -/
  kept : child.isKept used = true ↔
    (∃ index, child.useKey used = some index) ∨ child.classes = [] ∨ child.HoldsStatement
  /-- All but the comments stays as it is. -/
  rest : child.refresh used = { child with comments := (child.refresh used).comments }
  /-- A used child loses exactly its marks. -/
  comments_of_used : ∀ index, child.useKey used = some index → (child.refresh used).comments =
    child.comments.filter fun comment =>
      ¬ ("UNUSED".toList <:+: comment ∨ comment = unusedMarker)
  /-- A child with classes that are all unused loses its marks and gets one, in first place. -/
  comments_of_unused : child.useKey used = none → child.classes ≠ [] →
    (child.refresh used).comments = unusedMarker :: child.comments.filter fun comment =>
      ¬ ("UNUSED".toList <:+: comment ∨ comment = unusedMarker)
  /-- A child without classes stays as it is. -/
  eq_of_no_class : child.classes = [] → child.refresh used = child

/-- The comments that are dropped are those that speak of disuse. -/
theorem filter_isStaleMarker (comments : List Text) :
    comments.filter (!isStaleMarker ·) = comments.filter fun comment =>
      ¬ ("UNUSED".toList <:+: comment ∨ comment = unusedMarker) := by
  refine List.filter_congr fun comment _ => ?_
  rw [Bool.eq_iff_iff, decide_eq_true_iff, ← Text.occursIn_iff]
  simp [isStaleMarker]

/-- Ordering by use changes no more than the comments of a child. -/
theorem keepsChild (used : List Text) (child : Node) : KeepsChild used child where
  kept := by
    rw [Node.isKept, ← Node.isSome_useKey, Bool.or_eq_true, Bool.or_eq_true, or_assoc,
      Option.isSome_iff_exists, List.isEmpty_iff, Node.hasContent_iff]
  rest := by
    obtain ⟨kind, selector, content, children, comments⟩ := child
    unfold Node.refresh
    split
    · rfl
    · split <;> rfl
  comments_of_used index h := by
    have hused : child.isUsed used = true := by rw [← Node.isSome_useKey, h]; rfl
    rw [Node.refresh, if_pos hused, ← filter_isStaleMarker]
    rfl
  comments_of_unused h hclasses := by
    have hused : child.isUsed used = false := by rw [← Node.isSome_useKey, h]; rfl
    rw [Node.refresh, hused, if_neg (by simp), if_neg (by simpa using hclasses),
      ← filter_isStaleMarker]
    rfl
  eq_of_no_class h := by
    have hused : child.isUsed used = false := by
      simp [Node.isUsed, Node.mentions_of_classes_eq_nil h]
    rw [Node.refresh, hused, if_neg (by simp), if_pos (by simp [h])]

/-- Ordering a sheet by use puts its statements where their first used class puts them, loses none
but rules that hold no statement and are not used, and changes nothing but marks. -/
theorem orderByUse_follows (root : Node) (used : List Text) :
    root.orderByUse used = { root with children := (root.orderByUse used).children } ∧
      FollowsUse used root.children (root.orderByUse used).children ∧
      ∀ child ∈ root.children, KeepsChild used child :=
  ⟨rfl, ⟨orderByUse_eq_placed used root.children, orderByUse_perm used root.children⟩,
    fun child _ => keepsChild used child⟩

/-- What stands below a statement does not count: a rule that is not used is lost although a
statement that is not empty stands in it, below an empty one. -/
theorem orderByUse_loses_inner :
    let inner : Node := .ofStatement "top:0".toList []
    let outer : Node := { kind := .leaf, children := [inner] }
    let rule : Node := { kind := .block, selector := some ".a".toList, children := [outer] }
    let sheet : Node := { kind := .block, children := [rule] }
    inner.kind = .leaf ∧ inner.content ≠ [] ∧ inner ∈ outer.children ∧ outer ∈ rule.children ∧
      rule.classes = ["a".toList] ∧ (sheet.orderByUse []).children = [] := by
  refine ⟨rfl, by decide, List.mem_singleton.mpr rfl, List.mem_singleton.mpr rfl, ?_, rfl⟩
  decide +kernel

end Order

end StyleModules
