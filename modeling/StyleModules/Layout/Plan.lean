import StyleModules.Category.Basic
import StyleModules.Layout.HeaderComment

/-!
# The order of declarations

Declarations are put into groups, one for each category of the specification that has any, and a
last one for those without a category. Inside a group they are ordered by the position of their
keyword and then by property; equal ones keep their order. A plan lists the groups in sequence.
With headers, a category's group has its label in front. A group without a label is set off by a
blank line if there are enough declarations in all, in the group, and before it.

The items of a plan are arbitrary; all that matters is the property of each.
-/

namespace StyleModules

/-- Blocks with fewer declarations than this are never divided by blank lines. -/
def spacerMinTotal : Nat := 7

/-- The least size of a group, and of what stands before it, for a blank line between them. -/
def spacerMinGroup : Nat := 2

/-- The declarations of one category, or of none. -/
structure Group (α : Type) where
  /-- The position of the category; the group without a category comes last. -/
  index : Nat
  /-- The category, if there is one. -/
  category : Option Category
  /-- The declarations, in order. -/
  items : List α

/-- A step of a plan. -/
inductive Step (α : Type) where
  /-- The label of a category, which has a blank line in front. -/
  | label (name : Text)
  /-- A blank line. -/
  | spacer
  /-- A declaration. -/
  | item (value : α)
  deriving DecidableEq, Repr

/-- The order inside a group: by rank in the category, then by property. -/
def groupOrder (category : Option Category) (p q : Text) : Bool :=
  match category with
  | none => Text.le p q
  | some c => c.rank p < c.rank q || (c.rank p == c.rank q && Text.le p q)

section

variable {α : Type} (property : α → Text)

/-- The group of the category at a position. -/
def groupAt (spec : Spec) (items : List α) (index : Nat) : Group α :=
  { index := index
    category := spec[index]?
    items := (items.filter fun a => spec.index (property a) == index).mergeSort
      fun a b => groupOrder spec[index]? (property a) (property b) }

/-- The groups that are not empty, in the order of the specification. -/
def groups (spec : Spec) (items : List α) : List (Group α) :=
  ((List.range (spec.length + 1)).map (groupAt property spec items)).filter (!·.items.isEmpty)

/-- What stands before a group, given the number of declarations in all and before it. -/
def groupLead (headers : Bool) (total before : Nat) (group : Group α) : List (Step α) :=
  match headers, group.category with
  | true, some category => [.label category.name]
  | _, _ =>
    if spacerMinTotal ≤ total && spacerMinGroup ≤ group.items.length && spacerMinGroup ≤ before
    then [.spacer] else []

/-- The steps for groups, given the number of declarations in all and before them. -/
def planGroups (headers : Bool) (total : Nat) : Nat → List (Group α) → List (Step α)
  | _, [] => []
  | before, group :: rest =>
    groupLead headers total before group ++ group.items.map .item ++
      planGroups headers total (before + group.items.length) rest

/-- The declarations in the order in which they are laid out, with labels and blank lines. -/
def plan (spec : Spec) (headers : Bool) (items : List α) : List (Step α) :=
  planGroups headers items.length 0 (groups property spec items)

end

/-- The declarations of a plan. -/
def Step.item? {α : Type} : Step α → Option α
  | .item value => some value
  | _ => none

/-- No group of a plan is empty. -/
theorem items_ne_nil_of_mem_groups {α : Type} {property : α → Text} {spec : Spec} {items : List α}
    {group : Group α} (h : group ∈ groups property spec items) : group.items ≠ [] := by
  have hm := (List.mem_filter.1 h).2
  simpa using hm

end StyleModules
