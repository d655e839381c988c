import StyleModules.Text.CodePoint

/-!
# Categories of properties

A category is a named list of keywords. A keyword is a property, or a family written with three
points at its end: the family `margin...` holds `margin` and every property that goes on with a
hyphen, such as `margin-top`. A sort specification is a list of categories; a property belongs to
the first one that has a keyword for it.

Names and keywords are texts. Those of a stored specification may hold halves of characters: such a
keyword covers nothing, since a property is a text, and such a name is that of no header.
-/

namespace StyleModules

/-- The ending that makes a keyword a family. -/
def familyEnding : Text := "...".toList

/-- The keyword covers the property. -/
def keywordMatches (keyword property : Text) : Bool :=
  if familyEnding.isSuffixOf keyword then
    let base := keyword.take (keyword.length - familyEnding.length)
    property == base || (base ++ ['-']).isPrefixOf property
  else property == keyword

/-- A named group of properties; the order of its keywords is the order of their declarations. -/
structure Category (σ : Type := Text) where
  /-- The name, which labels the group. -/
  name : σ
  /-- The keywords, in the order in which declarations are laid out. -/
  keywords : List σ := []
  deriving DecidableEq, Repr

/-- A sort specification: categories in the order in which they are laid out. -/
abbrev Spec (σ : Type := Text) := List (Category σ)

/-- Some keyword of the category covers the property. -/
def Category.covers (category : Category) (property : Text) : Bool :=
  category.keywords.any (keywordMatches · property)

/-- The position of the first keyword that covers the property, or the number of keywords. -/
def Category.rank (category : Category) (property : Text) : Nat :=
  category.keywords.findIdx (keywordMatches · property)

/-- The position of the property's category, or the number of categories if it has none. -/
def Spec.index (spec : Spec) (property : Text) : Nat := spec.findIdx (·.covers property)

section Stored

variable {σ : Type} [Script σ]

/-- The category with the code points of its strings. -/
def Category.stored (category : Category σ) : Category CodeText :=
  ⟨Script.points category.name, category.keywords.map Script.points⟩

/-- The specification with the code points of its strings. -/
def Spec.stored (spec : Spec σ) : Spec CodeText := spec.map Category.stored

/-- The category as far as it is spelled by texts: without the keywords that hold halves, and
without a name that holds one. -/
def Category.spelled (category : Category σ) : Category :=
  ⟨(Script.text? category.name).getD [], category.keywords.filterMap Script.text?⟩

/-- The specification as far as it is spelled by texts; every category keeps its position. -/
def Spec.spelled (spec : Spec σ) : Spec := spec.map Category.spelled

/-- A category of texts is spelled by them. -/
@[simp] theorem Category.spelled_text (category : Category) : category.spelled = category := by
  have hkeys : category.keywords.filterMap Script.text? = category.keywords := by
    rw [show (Script.text? : Text → Option Text) = some from funext Script.text?_text]
    exact List.filterMap_some
  rw [spelled, hkeys, Script.text?_text, Option.getD_some]

/-- A specification of texts is spelled by them. -/
@[simp] theorem Spec.spelled_text (spec : Spec) : Spec.spelled spec = spec := by
  rw [Spec.spelled, List.map_congr_left fun category _ => Category.spelled_text category]
  exact List.map_id spec

end Stored

end StyleModules
