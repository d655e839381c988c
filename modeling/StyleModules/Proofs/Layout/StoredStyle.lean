import StyleModules.Layout.Lines
import StyleModules.Proofs.Layout.Arrangement

/-!
# Laying out by a stored specification

A stored specification whose strings are texts lays out every tree as the specification of these
texts does (`Style.lay_stored`). A label that holds a half is one that the plan of some block has:
that of a group whose category has such a name (`Style.any_isNameless_iff`).
-/

namespace StyleModules

variable {σ : Type} [Script σ]

/-- The code points of a specification are spelled by the same texts. -/
@[simp] theorem Spec.spelled_stored (spec : Spec σ) : spec.stored.spelled = spec.spelled := by
  have hcategory : ∀ category : Category σ, category.stored.spelled = category.spelled := by
    intro category
    rw [Category.spelled, Category.stored, List.filterMap_map]
    rfl
  rw [Spec.stored, Spec.spelled, List.map_map]
  exact List.map_congr_left fun category _ => hcategory category

/-- The code points of a specification have the same names that spell no text. -/
theorem Style.isNameless_stored (style : Style σ) (node : Node) :
    style.stored.isNameless node = style.isNameless node := by
  rw [isNameless, isNameless, stored, Spec.spelled_stored, Spec.stored, List.getElem?_map,
    Option.any_map]
  rfl

/-- The code points of a specification label a tree by the same names. -/
theorem Node.needsHalf_stored (style : Style σ) (node : Node) :
    node.needsHalf style.stored = node.needsHalf style := by
  induction node using Node.induction_children with
  | step node ih =>
    obtain ⟨kind, selector, content, children, comments⟩ := node
    cases kind with
    | block =>
      have hbelow : anyNeedsHalf style.stored children = anyNeedsHalf style children := by
        rw [anyNeedsHalf_eq_any, anyNeedsHalf_eq_any, Bool.eq_iff_iff, List.any_eq_true,
          List.any_eq_true]
        exact exists_congr fun child => and_congr_right fun hc => by rw [ih child hc]
      rw [needsHalf, needsHalf, hbelow, funext style.isNameless_stored]
      rfl
    | leaf => rfl
    | header => rfl
    | comment => rfl

/-- The code points of a specification lay out a tree as the specification does. -/
theorem Style.lay_stored (style : Style σ) (root : Node) :
    style.stored.lay root = style.lay root := by
  rw [lay, lay, Node.needsHalf_stored, spelled, spelled, stored, Spec.spelled_stored]

/-- A layout is no text exactly if a label in it holds a half. -/
theorem Style.lay_eq_none_iff {style : Style σ} {root : Node} :
    style.lay root = none ↔ root.needsHalf style = true := by
  rw [lay]
  split
  · next h => simp [h]
  · next h => simp [h]

/-- Among the children of a block there is a declaration of a nameless category exactly if the plan
of its declarations has a group for such a category. -/
theorem Style.any_isNameless_iff (style : Style σ) (children : List Node) :
    children.any style.isNameless = true ↔
      ∃ group ∈ groups Node.propertyName style.spelled.spec (children.filter Node.isDeclaration),
        ∃ category, style.spec[group.index]? = some category ∧
          Script.text? category.name = none := by
  constructor
  · intro h
    obtain ⟨child, hchild, hnameless⟩ := List.any_eq_true.mp h
    obtain ⟨hdecl, hany⟩ := Bool.and_eq_true_iff.mp hnameless
    obtain ⟨category, hcategory, hname⟩ := (Option.any_eq_true _ _).mp hany
    have hlt := (List.getElem?_eq_some_iff.mp hcategory).1
    refine ⟨groupAt _ _ _ _, List.mem_filter.mpr ⟨List.mem_map_of_mem (List.mem_range.mpr
      (?_ : style.spec.spelled.index child.propertyName < _)), ?_⟩, category, hcategory,
        Option.isNone_iff_eq_none.mp hname⟩
    · have hlength : style.spelled.spec.length = style.spec.length := List.length_map _
      omega
    · have hmem : child ∈ (groupAt Node.propertyName style.spelled.spec
          (children.filter Node.isDeclaration)
          (style.spec.spelled.index child.propertyName)).items :=
        List.mem_mergeSort.mpr (List.mem_filter.mpr
          ⟨List.mem_filter.mpr ⟨hchild, hdecl⟩, beq_self_eq_true _⟩)
      simpa using List.ne_nil_of_mem hmem
  · rintro ⟨group, hgroup, category, hcategory, hname⟩
    obtain ⟨hmap, hitems⟩ := List.mem_filter.mp hgroup
    obtain ⟨index, -, rfl⟩ := List.mem_map.mp hmap
    obtain ⟨child, hitem⟩ := List.exists_mem_of_ne_nil _ (by simpa using hitems)
    obtain ⟨hmem, hindex⟩ := List.mem_filter.mp (List.mem_mergeSort.mp hitem)
    obtain ⟨hchild, hdecl⟩ := List.mem_filter.mp hmem
    obtain rfl := eq_of_beq hindex
    refine List.any_eq_true.mpr ⟨child, hchild, Bool.and_eq_true_iff.mpr ⟨hdecl, ?_⟩⟩
    exact (Option.any_eq_true _ _).mpr
      ⟨category, hcategory, Option.isNone_iff_eq_none.mpr hname⟩

end StyleModules
