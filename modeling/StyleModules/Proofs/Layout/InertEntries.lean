import StyleModules.Category.Json
import StyleModules.Layout.Lines

/-!
# Entries that name no category

A stored entry that is no object, or has no string for a name, becomes a category without a name and
without keywords. It holds a place in the specification and nothing else. The positions of all
categories behind it are higher by one, but they stay in their order (`Spec.index_le_iff_of_omits`).
It has no group in any plan, and plans take nothing else from a position (`plan_of_omits`). An empty
name makes no comment a header. So a tree has the same layout whether such entries are there or not
(`format_of_omits`).
-/

namespace StyleModules

/-- The second list is the first one without some members of the kind. -/
inductive Omits {α : Type} (kind : α → Prop) : List α → List α → Prop
  | nil : Omits kind [] []
  | keep {a : α} {all kept : List α} (h : Omits kind all kept) : Omits kind (a :: all) (a :: kept)
  | drop {a : α} {all kept : List α} (ha : kind a) (h : Omits kind all kept) :
    Omits kind (a :: all) kept

/-- What is omitted is omitted after a change, too. -/
theorem Omits.map {α β : Type} {kind : α → Prop} {other : β → Prop} {f : α → β}
    (hkind : ∀ a, kind a → other (f a)) {all kept : List α} (h : Omits kind all kept) :
    Omits other (all.map f) (kept.map f) := by
  induction h with
  | nil => exact .nil
  | keep _ ih => exact .keep ih
  | drop ha _ ih => exact .drop (hkind _ ha) ih

/-- The stored entry is no object, or its name is no string. -/
def JsonValue.IsMalformed (entry : JsonValue) : Prop :=
  (∀ members, entry ≠ .object members) ∨ ∀ name, entry.get? nameKey ≠ some (.string name)

/-- The category has neither a name nor keywords. -/
def Category.IsBlank (category : Category) : Prop := category = ⟨[], []⟩

/-- An entry that names no category is stored as a blank one. -/
theorem Category.isBlank_ofJson {entry : JsonValue} (h : entry.IsMalformed) :
    (Category.ofJson entry).IsBlank := by
  have hname : (entry.get? (Script.ofText nameKey)).bind JsonValue.string? = none := by
    rw [Option.bind_eq_none_iff]
    intro value hvalue
    cases value with
    | string name =>
      rcases h with hobject | hstring
      · cases entry with
        | object members => exact absurd rfl (hobject members)
        | _ => cases hvalue
      · exact absurd hvalue (hstring name)
    | _ => rfl
  rw [IsBlank, ofJson, hname]
  rfl

/-- A blank category covers no property. -/
theorem Category.IsBlank.covers_eq {category : Category} (h : category.IsBlank) (property : Text) :
    category.covers property = false := by
  rw [h]
  rfl

section Index

variable {spec thin : Spec}

/-- The first category that covers a property has its index. -/
theorem Spec.index_cons (category : Category) (spec : Spec) (property : Text) :
    Spec.index (category :: spec) property =
      if category.covers property then 0 else spec.index property + 1 := by
  rw [Spec.index, List.findIdx_cons]
  cases category.covers property <;> rfl

/-- The positions of categories stay in their order. -/
theorem Spec.index_le_iff_of_omits (h : Omits Category.IsBlank spec thin) (p q : Text) :
    spec.index p ≤ spec.index q ↔ thin.index p ≤ thin.index q := by
  induction h with
  | nil => rfl
  | @keep category all kept _ ih =>
    rw [Spec.index_cons, Spec.index_cons, Spec.index_cons, Spec.index_cons]
    cases category.covers p <;> cases category.covers q <;> simp [ih]
  | drop hblank _ ih =>
    rw [Spec.index_cons, Spec.index_cons, hblank.covers_eq, hblank.covers_eq, ← ih]
    simp

/-- A property keeps its category. -/
theorem Spec.getElem?_index_of_omits (h : Omits Category.IsBlank spec thin) (p : Text) :
    spec[spec.index p]? = thin[thin.index p]? := by
  induction h with
  | nil => rfl
  | @keep category all kept _ ih =>
    rw [Spec.index_cons, Spec.index_cons]
    cases category.covers p with
    | true => rfl
    | false => exact ih
  | drop hblank _ ih =>
    rw [Spec.index_cons, hblank.covers_eq]
    exact ih

/-- The same comments are headers. -/
theorem headerNames_of_omits (h : Omits Category.IsBlank spec thin) :
    headerNames spec.names = headerNames thin.names := by
  have hnames : spec.names.filter (!·.isEmpty) = thin.names.filter (!·.isEmpty) := by
    induction h with
    | nil => rfl
    | @keep category all kept _ ih =>
      show (category.name :: Spec.names all).filter _ = (category.name :: Spec.names kept).filter _
      rw [List.filter_cons, List.filter_cons, ih]
    | @drop category all kept hblank _ ih =>
      show (category.name :: Spec.names all).filter _ = _
      rw [hblank, List.filter_cons_of_neg (by simp), ih]
  rw [headerNames, headerNames, hnames]

end Index

section Plan

variable {α : Type} {property : α → Text} {spec thin : Spec}

/-- What a plan takes from a group. -/
def Group.part (group : Group α) : Option Category × List α := (group.category, group.items)

/-- The steps of groups depend only on the parts of the groups. -/
theorem planGroups_eq_of_parts {headers : Bool} {total before : Nat} {list others : List (Group α)}
    (h : list.map Group.part = others.map Group.part) :
    planGroups headers total before list = planGroups headers total before others := by
  induction list generalizing others before with
  | nil =>
    rw [List.map_eq_nil_iff.mp h.symm]
  | cons group list ih =>
    obtain ⟨other, others, rfl, hpart, hrest⟩ := List.map_eq_cons_iff.mp h.symm
    obtain ⟨index, category, items⟩ := group
    obtain ⟨place, _, _⟩ := other
    obtain ⟨rfl, rfl⟩ := Prod.mk.inj hpart
    rw [planGroups, planGroups, ih hrest.symm]
    rfl

/-- The parts of groups are those of all positions that have items. -/
theorem parts_groups (property : α → Text) (spec : Spec) (items : List α) :
    (groups property spec items).map Group.part =
      ((List.range (spec.length + 1)).map fun index =>
        (groupAt property spec items index).part).filter (!·.2.isEmpty) := by
  rw [groups, List.filter_map, List.filter_map, List.map_map]
  rfl

/-- The first position has the items that its category covers. -/
theorem part_groupAt_zero (category : Category) (spec : Spec) (items : List α) :
    (groupAt property (category :: spec) items 0).part =
      (some category, (items.filter fun a => category.covers (property a)).mergeSort
        fun a b => groupOrder (some category) (property a) (property b)) := by
  have hitems : (items.filter fun a => Spec.index (category :: spec) (property a) == 0) =
      items.filter fun a => category.covers (property a) := by
    refine List.filter_congr fun a _ => ?_
    rw [Spec.index_cons]
    cases category.covers (property a) <;> rfl
  rw [Group.part, groupAt, hitems]
  rfl

/-- The positions behind the first are those of the specification without its first category, for
the items that this category does not cover. -/
theorem part_groupAt_succ (category : Category) (spec : Spec) (items : List α) (index : Nat) :
    (groupAt property (category :: spec) items (index + 1)).part =
      (groupAt property spec (items.filter fun a => !category.covers (property a)) index).part := by
  have hitems : (items.filter fun a => Spec.index (category :: spec) (property a) == index + 1) =
      (items.filter fun a => !category.covers (property a)).filter
        fun a => spec.index (property a) == index := by
    rw [List.filter_filter]
    refine List.filter_congr fun a _ => ?_
    rw [Spec.index_cons]
    cases category.covers (property a) <;> simp
  rw [Group.part, groupAt, hitems]
  rfl

/-- Groups are made category by category: the items of the first, and the groups of the others. -/
theorem parts_groups_cons (category : Category) (spec : Spec) (items : List α) :
    (groups property (category :: spec) items).map Group.part =
      [(some category, (items.filter fun a => category.covers (property a)).mergeSort
        fun a b => groupOrder (some category) (property a) (property b))].filter (!·.2.isEmpty) ++
      (groups property spec (items.filter fun a => !category.covers (property a))).map
        Group.part := by
  rw [parts_groups, parts_groups, List.length_cons, List.range_succ_eq_map, List.map_cons,
    List.map_map, part_groupAt_zero, ← List.singleton_append, List.filter_append]
  simp only [Function.comp_def, Nat.succ_eq_add_one, part_groupAt_succ]

/-- Blank categories have no groups. -/
theorem parts_groups_of_omits (h : Omits Category.IsBlank spec thin) (items : List α) :
    (groups property spec items).map Group.part = (groups property thin items).map Group.part := by
  induction h generalizing items with
  | nil => rfl
  | keep _ ih => rw [parts_groups_cons, parts_groups_cons, ih]
  | @drop category all kept hblank _ ih =>
    have hnone : (items.filter fun a => category.covers (property a)) = [] :=
      List.filter_eq_nil_iff.mpr fun a _ => by simp [hblank.covers_eq]
    have hall : (items.filter fun a => !category.covers (property a)) = items :=
      List.filter_eq_self.mpr fun a _ => by simp [hblank.covers_eq]
    rw [parts_groups_cons, hnone, hall, List.mergeSort_nil, ih]
    rfl

/-- A plan is the same without blank categories. -/
theorem plan_of_omits (h : Omits Category.IsBlank spec thin) (property : α → Text) (headers : Bool)
    (items : List α) : plan property spec headers items = plan property thin headers items :=
  planGroups_eq_of_parts (parts_groups_of_omits h items)

end Plan

section Layout

/-- The styles have the same plans and leave out the same comments. -/
structure Style.Matches (style other : Style) : Prop where
  /-- The same names make a comment a header. -/
  names : headerNames style.spec.names = headerNames other.spec.names
  /-- Declarations are planned alike. -/
  plans : ∀ children : List LaidChild,
    plan (·.node.propertyName) style.spec style.headers children =
      plan (·.node.propertyName) other.spec other.headers children

namespace Style.Matches

variable {style other : Style} (h : style.Matches other)

include h

/-- The same comments are headers. -/
theorem isHeader_eq (comment : Text) :
    isHeader style.spec.names comment = isHeader other.spec.names comment := by
  rw [isHeader, isHeader, h.names]

/-- The same comments are suppressed. -/
theorem isSuppressed_eq (comment : Text) :
    isSuppressed style.spec.names comment = isSuppressed other.spec.names comment := by
  rw [isSuppressed, isSuppressed, h.isHeader_eq]

/-- Comments are laid out alike. -/
theorem commentEntries_eq (depth : Nat) (comments : List Text) :
    commentEntries style depth comments = commentEntries other depth comments := by
  simp only [commentEntries, h.isSuppressed_eq]

/-- Bodies are laid out alike. -/
theorem bodyEntries_eq (depth : Nat) (children : List LaidChild) :
    bodyEntries style depth children = bodyEntries other depth children := by
  have hdropped : ∀ child : LaidChild, child.isDropped style = child.isDropped other := by
    intro child
    rw [LaidChild.isDropped, LaidChild.isDropped, h.isHeader_eq]
  simp only [bodyEntries, bodyParts, hdropped, h.plans]

/-- Styles that match lay out a node alike if they lay out its children so. -/
theorem nodeEntries_eq (node : Node) (depth : Nat) :
    nodeEntries style depth node = nodeEntries other depth node := by
  induction node using Node.induction_children generalizing depth with
  | step node ih =>
    obtain ⟨kind, selector, content, children, comments⟩ := node
    have hchildren : ∀ depth,
        layChildren style depth children = layChildren other depth children := by
      intro depth
      rw [layChildren_eq_map, layChildren_eq_map]
      exact List.map_congr_left fun child hc => by rw [ih child hc]
    cases kind with
    | leaf =>
      rw [nodeEntries, nodeEntries, statementEntries, statementEntries, h.commentEntries_eq]
    | comment => rw [nodeEntries, nodeEntries, h.commentEntries_eq]
    | header => rw [nodeEntries, nodeEntries]
    | block =>
      cases selector with
      | none =>
        rw [nodeEntries, nodeEntries, hchildren, h.bodyEntries_eq, h.commentEntries_eq]
      | some selector =>
        rw [nodeEntries, nodeEntries, hchildren, h.bodyEntries_eq, blockEntries, blockEntries,
          h.commentEntries_eq]

/-- Trees are laid out alike. -/
theorem format_eq (root : Node) : root.format style = root.format other := by
  rw [Node.format, Node.format, h.nodeEntries_eq]

end Style.Matches

end Layout

/-- Stored entries that name no category can be left out: no tree is laid out otherwise. Categories
move to other positions but keep their order, a property keeps its category, declarations keep their
order, labels and blank lines, and the same comments are left out. -/
theorem format_of_omits {entries kept : List JsonValue}
    (h : Omits JsonValue.IsMalformed entries kept) (headers : Bool) :
    (∀ root : Node, root.format ⟨Spec.ofJson (.array entries), headers⟩ =
      root.format ⟨Spec.ofJson (.array kept), headers⟩) ∧
    (∀ p q, (Spec.ofJson (.array entries)).index p ≤ (Spec.ofJson (.array entries)).index q ↔
      (Spec.ofJson (.array kept)).index p ≤ (Spec.ofJson (.array kept)).index q) ∧
    (∀ p, (Spec.ofJson (.array entries))[(Spec.ofJson (.array entries)).index p]? =
      (Spec.ofJson (.array kept))[(Spec.ofJson (.array kept)).index p]?) ∧
    (∀ (α : Type) (property : α → Text) (items : List α),
      plan property (Spec.ofJson (.array entries)) headers items =
        plan property (Spec.ofJson (.array kept)) headers items) ∧
    ∀ comment, isSuppressed (Spec.ofJson (.array entries)).names comment =
      isSuppressed (Spec.ofJson (.array kept)).names comment := by
  have hspec : Omits Category.IsBlank (Spec.ofJson (.array entries)) (Spec.ofJson (.array kept)) :=
    h.map fun _ => Category.isBlank_ofJson
  have hplans := fun (α : Type) (property : α → Text) => plan_of_omits hspec property headers
  have hmatch : Style.Matches ⟨Spec.ofJson (.array entries), headers⟩
      ⟨Spec.ofJson (.array kept), headers⟩ :=
    ⟨headerNames_of_omits hspec, hplans LaidChild (·.node.propertyName)⟩
  exact ⟨hmatch.format_eq, Spec.index_le_iff_of_omits hspec, Spec.getElem?_index_of_omits hspec,
    hplans, hmatch.isSuppressed_eq⟩

/-- A stored category. -/
def storedCategory (name keyword : String) : JsonValue :=
  .object [(nameKey, .string name.toList), (keywordsKey, .array [.string keyword.toList])]

/-- Two stored categories among entries that are no objects or have no string for a name, though one
of these has keywords. -/
def strayEntries : List JsonValue :=
  [.null, .object [(nameKey, .null), (keywordsKey, .array [.string "top".toList])],
    storedCategory "BOX" "width", .string "BOX".toList, .object [], storedCategory "POSITION" "top"]

/-- The entries without those in front and the last of the others. -/
def fewerEntries : List JsonValue :=
  [storedCategory "BOX" "width", .string "BOX".toList, storedCategory "POSITION" "top"]

/-- The last category moves from position five to position two, and a sheet is laid out as
before. -/
theorem format_of_omits_stray :
    Omits JsonValue.IsMalformed strayEntries fewerEntries ∧
      (Spec.ofJson (.array strayEntries)).index "top".toList = 5 ∧
      (Spec.ofJson (.array fewerEntries)).index "top".toList = 2 ∧
      (parse "a \x7b top: 0; width: 1px \x7d".toList).format
          ⟨Spec.ofJson (.array strayEntries), true⟩ =
        (parse "a \x7b top: 0; width: 1px \x7d".toList).format
          ⟨Spec.ofJson (.array fewerEntries), true⟩ := by
  have h : Omits JsonValue.IsMalformed strayEntries fewerEntries := by
    refine .drop (Or.inl (by simp)) (.drop (Or.inr fun name hname => ?_) (.keep (.keep (.drop
      (Or.inr fun name hname => ?_) (.keep .nil)))))
    · cases hname
    · cases hname
  exact ⟨h, by decide +kernel, by decide +kernel, (format_of_omits h true).1 _⟩

end StyleModules
