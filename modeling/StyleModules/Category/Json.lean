import StyleModules.Category.Basic
import StyleModules.Json.Value

/-!
# Specifications as data

A specification is stored as an array of objects with a `category` and `keywords`. Malformed
entries do no harm: an entry without a name or without a list of keywords becomes a category that
covers nothing, and keywords that are no strings are left out.
-/

namespace StyleModules

/-- The key of a category's name. -/
def nameKey : Text := "category".toList

/-- The key of a category's keywords. -/
def keywordsKey : Text := "keywords".toList

variable {σ : Type} [Script σ]

/-- The category that a stored entry stands for. -/
def Category.ofJson [BEq σ] (entry : JsonValue σ) : Category σ :=
  match (entry.get? (Script.ofText nameKey)).bind JsonValue.string? with
  | none => ⟨Script.ofText [], []⟩
  | some name =>
    match (entry.get? (Script.ofText keywordsKey)).bind JsonValue.array? with
    | none => ⟨name, []⟩
    | some keywords => ⟨name, keywords.filterMap JsonValue.string?⟩

/-- The specification that a stored value stands for; one that is no array is empty. -/
def Spec.ofJson [BEq σ] (value : JsonValue σ) : Spec σ :=
  (value.array?.getD []).map Category.ofJson

/-- The stored form of a category. -/
def Category.toJson (category : Category σ) : JsonValue σ :=
  .object [(Script.ofText nameKey, .string category.name),
    (Script.ofText keywordsKey, .array (category.keywords.map .string))]

/-- The stored form of a specification. -/
def Spec.toJson (spec : Spec σ) : JsonValue σ := .array (spec.map Category.toJson)

/-- The stored form of a specification keeps its code points. -/
theorem Spec.stored_toJson (spec : Spec σ) : spec.toJson.stored = spec.stored.toJson := by
  have hkeyword : ∀ keywords : List σ, (keywords.map JsonValue.string).map JsonValue.stored =
      (keywords.map Script.points).map JsonValue.string := by
    intro keywords
    rw [List.map_map, List.map_map]
    rfl
  have hcategory : ∀ category : Category σ, category.toJson.stored = category.stored.toJson := by
    intro category
    rw [Category.toJson, JsonValue.stored, JsonValue.storedMembers_eq_map]
    simp only [List.map_cons, List.map_nil, Script.points_ofText, JsonValue.stored,
      JsonValue.storedItems_eq_map, hkeyword]
    rfl
  rw [Spec.toJson, JsonValue.stored, JsonValue.storedItems_eq_map, List.map_map, Spec.toJson,
    Spec.stored, List.map_map]
  exact congrArg JsonValue.array (List.map_congr_left fun category _ => hcategory category)

variable [BEq σ] [LawfulBEq σ]

/-- A category is restored from its stored form. -/
theorem Category.ofJson_toJson (category : Category σ) :
    Category.ofJson category.toJson = category := by
  have hkeys : category.toJson.get? (Script.ofText keywordsKey) =
      some (.array (category.keywords.map .string)) := by
    simp [toJson, JsonValue.get?, JsonValue.lookupLast]
  have hne : (Script.ofText keywordsKey : σ) ≠ Script.ofText nameKey := fun he =>
    absurd (Script.ofText_injective he) (by decide)
  have hname : category.toJson.get? (Script.ofText nameKey) = some (.string category.name) := by
    simp [toJson, JsonValue.get?, JsonValue.lookupLast, hne]
  have hall : (category.keywords.map JsonValue.string).filterMap JsonValue.string? =
      category.keywords := by
    rw [List.filterMap_map]
    exact List.filterMap_some
  rw [ofJson, hname, hkeys]
  show (⟨category.name, _⟩ : Category σ) = category
  rw [hall]

/-- A specification is restored from its stored form. -/
theorem Spec.ofJson_toJson (spec : Spec σ) : Spec.ofJson spec.toJson = spec := by
  show (spec.map Category.toJson).map Category.ofJson = spec
  rw [List.map_map]
  exact (List.map_congr_left fun c _ => Category.ofJson_toJson c).trans (List.map_id spec)

end StyleModules
