import Mathlib.Data.List.Basic
import StyleModules.Layout.Plan

/-!
# What a plan depends on

Two lists are alike if they hold the same items of each property in the same order. Sorting a group
keeps a list alike, and since two properties that come before each other are equal, the sorted
list of a group is the same for all lists that are alike. A plan therefore depends on a list only
up to likeness (`plan_eq_of_alike`), and putting the groups one after the other gives a list alike
to the one they were made from (`alike_groupedItems`). So what one specification has put in order
can be put in order by another as if the first had never been used.
-/

namespace StyleModules

section Order

/-- The order is total, and it tells different properties apart. -/
structure TextOrder (order : Text → Text → Bool) : Prop where
  /-- It is transitive. -/
  trans : ∀ {p q r}, order p q = true → order q r = true → order p r = true
  /-- Of two properties one comes first. -/
  total : ∀ p q, (order p q || order q p) = true
  /-- Properties that each come before the other are equal. -/
  antisymm : ∀ {p q}, order p q = true → order q p = true → p = q

/-- A text order holds between a text and itself. -/
theorem TextOrder.of_eq {order : Text → Text → Bool} (h : TextOrder order) {p q : Text}
    (hpq : p = q) : order p q = true := by
  subst hpq
  simpa using h.total p p

/-- The order by a number, and by another order where the numbers agree. -/
def byNumber (number : Text → Nat) (order : Text → Text → Bool) (p q : Text) : Bool :=
  number p < number q || (number p == number q && order p q)

/-- Texts are ordered by number first, and then as given. -/
theorem byNumber_iff {number : Text → Nat} {order : Text → Text → Bool} {p q : Text} :
    byNumber number order p q = true ↔
      number p < number q ∨ (number p = number q ∧ order p q = true) := by
  simp [byNumber]

/-- Ordering by a number first gives a text order. -/
theorem TextOrder.byNumber {order : Text → Text → Bool} (h : TextOrder order)
    (number : Text → Nat) : TextOrder (byNumber number order) where
  trans {p q r} hpq hqr := by
    rw [byNumber_iff] at hpq hqr ⊢
    rcases hpq with hpq | ⟨hpq, hle⟩
    · exact Or.inl (by omega)
    · rcases hqr with hqr | ⟨hqr, hle'⟩
      · exact Or.inl (by omega)
      · exact Or.inr ⟨by omega, h.trans hle hle'⟩
  total p q := by
    rw [Bool.or_eq_true, byNumber_iff, byNumber_iff]
    have htotal := h.total p q
    rw [Bool.or_eq_true] at htotal
    rcases Nat.lt_trichotomy (number p) (number q) with hlt | heq | hgt
    · exact Or.inl (Or.inl hlt)
    · exact htotal.imp (fun hle => Or.inr ⟨heq, hle⟩) fun hle => Or.inr ⟨heq.symm, hle⟩
    · exact Or.inr (Or.inl hgt)
  antisymm {p q} hpq hqp := by
    rw [byNumber_iff] at hpq hqp
    exact h.antisymm (hpq.resolve_left (by omega)).2 (hqp.resolve_left (by omega)).2

/-- The order of texts is a text order. -/
theorem textOrder_le : TextOrder Text.le := ⟨Text.le_trans, Text.le_total, Text.le_antisymm⟩

/-- The order of a group is a text order. -/
theorem textOrder_groupOrder (category : Option Category) : TextOrder (groupOrder category) := by
  cases category with
  | none => exact textOrder_le
  | some category => exact textOrder_le.byNumber category.rank

end Order

section Alike

variable {α : Type} {property : α → Text}

/-- The lists hold the same items of each property, in the same order. -/
def Alike (property : α → Text) (items others : List α) : Prop :=
  ∀ p, items.filter (property · == p) = others.filter (property · == p)

namespace Alike

/-- If one list is alike another, so is the other to it. -/
theorem symm {items others : List α} (h : Alike property items others) :
    Alike property others items := fun p => (h p).symm

/-- Two lists alike a third are alike. -/
theorem trans {items others more : List α} (h : Alike property items others)
    (h' : Alike property others more) : Alike property items more :=
  fun p => (h p).trans (h' p)

/-- Lists that are alike have the same members. -/
theorem mem {items others : List α} (h : Alike property items others) {a : α}
    (ha : a ∈ items) : a ∈ others := by
  have hf : a ∈ items.filter (property · == property a) := List.mem_filter.mpr ⟨ha, by simp⟩
  rw [h] at hf
  exact (List.mem_filter.mp hf).1

/-- Leaving out all items of certain properties keeps lists alike. -/
theorem filter {items others : List α} (h : Alike property items others) (keep : Text → Bool) :
    Alike property (items.filter fun a => keep (property a))
      (others.filter fun a => keep (property a)) := by
  intro p
  rw [List.filter_filter, List.filter_filter]
  have hp : ∀ list : List α, list.filter (fun a => property a == p && keep (property a)) =
      (list.filter (property · == p)).filter fun _ => keep p := by
    intro list
    rw [List.filter_filter]
    apply List.filter_congr
    intro a _
    by_cases ha : property a = p
    · rw [ha, Bool.and_comm]
    · rw [beq_false_of_ne ha, Bool.false_and, Bool.and_false]
  rw [hp, hp, h p]

/-- In lists that are alike and in order the first items agree, and so on. -/
theorem eq_of_pairwise {le : α → α → Bool}
    (hanti : ∀ a b, le a b = true → le b a = true → property a = property b)
    {items others : List α} (hi : items.Pairwise fun a b => le a b = true)
    (ho : others.Pairwise fun a b => le a b = true) (h : Alike property items others) :
    items = others := by
  induction items generalizing others with
  | nil =>
    cases others with
    | nil => rfl
    | cons b others => exact absurd (h.symm.mem List.mem_cons_self) List.not_mem_nil
  | cons a items ih =>
    cases others with
    | nil => exact absurd (h.mem List.mem_cons_self) List.not_mem_nil
    | cons b others =>
      have hab : property a = property b := by
        rcases List.mem_cons.mp (h.mem List.mem_cons_self) with rfl | ha
        · rfl
        rcases List.mem_cons.mp (h.symm.mem List.mem_cons_self) with rfl | hb
        · rfl
        exact hanti a b (List.rel_of_pairwise_cons hi hb) (List.rel_of_pairwise_cons ho ha)
      have hheads := h (property a)
      rw [List.filter_cons_of_pos (by simp), List.filter_cons_of_pos (by simp [hab]),
        List.cons.injEq] at hheads
      obtain ⟨rfl, _⟩ := hheads
      have htails : Alike property items others := by
        intro p
        have hp := h p
        by_cases ha : property a = p
        · rwa [List.filter_cons_of_pos (by simp [ha]), List.filter_cons_of_pos (by simp [ha]),
            List.cons.injEq, and_iff_right rfl] at hp
        · rwa [List.filter_cons_of_neg (by simp [ha]),
            List.filter_cons_of_neg (by simp [ha])] at hp
      rw [ih hi.of_cons ho.of_cons htails]

end Alike

variable {order : Text → Text → Bool}

/-- Items are ordered transitively by their properties. -/
theorem TextOrder.item_trans (h : TextOrder order) (property : α → Text) (a b c : α)
    (hab : order (property a) (property b) = true)
    (hbc : order (property b) (property c) = true) : order (property a) (property c) = true :=
  h.trans hab hbc

/-- Any two items are ordered by their properties. -/
theorem TextOrder.item_total (h : TextOrder order) (property : α → Text) (a b : α) :
    (order (property a) (property b) || order (property b) (property a)) = true :=
  h.total _ _

/-- Sorting by property leaves the items in order. -/
theorem TextOrder.pairwise_mergeSort (h : TextOrder order) (items : List α) :
    (items.mergeSort fun a b => order (property a) (property b)).Pairwise
      fun a b => order (property a) (property b) = true :=
  List.pairwise_mergeSort (h.item_trans property) (h.item_total property) items

/-- Sorting keeps the order of items of one property. -/
theorem TextOrder.alike_mergeSort (h : TextOrder order) (items : List α) :
    Alike property (items.mergeSort fun a b => order (property a) (property b)) items := by
  intro p
  have hpairwise : (items.filter (property · == p)).Pairwise
      fun a b => order (property a) (property b) = true := by
    refine List.pairwise_of_forall_mem_list fun a ha b hb => ?_
    have hap : property a = p := by simpa using (List.mem_filter.mp ha).2
    have hbp : property b = p := by simpa using (List.mem_filter.mp hb).2
    exact h.of_eq (hap.trans hbp.symm)
  have hsub := (List.sublist_mergeSort (h.item_trans property) (h.item_total property) hpairwise
    List.filter_sublist).filter (property · == p)
  rw [List.filter_filter] at hsub
  simp only [Bool.and_self] at hsub
  have hlen := ((List.mergeSort_perm items fun a b => order (property a) (property b)).filter
    (property · == p)).length_eq
  exact (hsub.eq_of_length hlen.symm).symm

/-- A list that is in order and alike to another one is that one, sorted. -/
theorem TextOrder.eq_mergeSort (h : TextOrder order) {items others : List α}
    (hsorted : items.Pairwise fun a b => order (property a) (property b) = true)
    (halike : Alike property items others) :
    items = others.mergeSort fun a b => order (property a) (property b) := by
  have hboth := halike.trans (h.alike_mergeSort others).symm
  refine hboth.eq_of_pairwise ?_ hsorted (h.pairwise_mergeSort others)
  exact fun a b hab hba => h.antisymm hab hba

/-- Lists that are alike have the same sorted list. -/
theorem TextOrder.mergeSort_eq (h : TextOrder order) {items others : List α}
    (halike : Alike property items others) :
    (items.mergeSort fun a b => order (property a) (property b)) =
      others.mergeSort fun a b => order (property a) (property b) :=
  h.eq_mergeSort (h.pairwise_mergeSort items) ((h.alike_mergeSort items).trans halike)

end Alike

section Groups

variable {α : Type} {property : α → Text} {spec : Spec}

/-- Alike items have the same groups. -/
theorem groupAt_eq_of_alike {items others : List α} (h : Alike property items others)
    (index : Nat) : groupAt property spec items index = groupAt property spec others index := by
  have hfilter := h.filter fun p => spec.index p == index
  unfold groupAt
  congr 1
  exact (textOrder_groupOrder spec[index]?).mergeSort_eq hfilter

/-- Lists that are alike have the same items, in some order. -/
theorem Alike.perm {items others : List α} (h : Alike property items others) :
    items.Perm others := by
  have hsorted := textOrder_le.mergeSort_eq h
  refine (List.mergeSort_perm items fun a b => Text.le (property a) (property b)).symm.trans ?_
  rw [hsorted]
  exact List.mergeSort_perm others _

/-- A plan depends only on the order of the items of each property. -/
theorem plan_eq_of_alike {items others : List α} (h : Alike property items others)
    (headers : Bool) : plan property spec headers items = plan property spec headers others := by
  have hgroups : groups property spec items = groups property spec others := by
    unfold groups
    congr 2
    exact funext fun index => groupAt_eq_of_alike h index
  rw [plan, plan, hgroups, h.perm.length_eq]

/-- The items of all groups, group by group. -/
def groupedItems (property : α → Text) (spec : Spec) (items : List α) : List α :=
  (groups property spec items).flatMap Group.items

/-- Groups without items hold none. -/
theorem flatMap_filter_nonempty (list : List (Group α)) :
    (list.filter (!·.items.isEmpty)).flatMap Group.items = list.flatMap Group.items := by
  induction list with
  | nil => rfl
  | cons group list ih =>
    by_cases hg : group.items = []
    · rw [List.filter_cons_of_neg (by simp [hg]), ih, List.flatMap_cons, hg, List.nil_append]
    · rw [List.filter_cons_of_pos (by simpa using hg), List.flatMap_cons, List.flatMap_cons, ih]

/-- The items of a property all stand in the group of its category. -/
theorem filter_groupAt (items : List α) (p : Text) (index : Nat) :
    (groupAt property spec items index).items.filter (property · == p) =
      if index = spec.index p then items.filter (property · == p) else [] := by
  have hsort : Alike property (groupAt property spec items index).items
      (items.filter fun a => spec.index (property a) == index) :=
    (textOrder_groupOrder spec[index]?).alike_mergeSort _
  rw [hsort p]
  rw [List.filter_filter]
  split
  · next hi =>
    apply List.filter_congr
    intro a _
    by_cases ha : property a = p
    · simp [ha, hi]
    · simp [ha]
  · next hi =>
    apply List.filter_eq_nil_iff.mpr
    intro a _
    simp only [Bool.and_eq_true, beq_iff_eq, not_and]
    rintro rfl ha
    exact hi ha.symm

/-- Of a range one number is the index. -/
theorem flatMap_range_single {n index : Nat} (h : index < n) (items : List α) :
    (List.range n).flatMap (fun i => if i = index then items else []) = items := by
  induction n with
  | zero => omega
  | succ n ih =>
    rw [List.range_succ, List.flatMap_append, List.flatMap_singleton]
    by_cases hn : n = index
    · have hnil : (List.range n).flatMap (fun i => if i = index then items else []) = [] := by
        rw [List.flatMap_eq_nil_iff]
        intro i hi
        exact if_neg (by have := List.mem_range.mp hi; omega)
      rw [hnil, if_pos hn, List.nil_append]
    · rw [ih (by omega), if_neg hn, List.append_nil]

/-- Grouping keeps the order of items of one property, and loses none. -/
theorem alike_groupedItems (items : List α) :
    Alike property (groupedItems property spec items) items := by
  intro p
  have hindex : spec.index p < spec.length + 1 :=
    Nat.lt_succ_of_le List.findIdx_le_length
  rw [groupedItems, groups, flatMap_filter_nonempty, List.flatMap_map, List.filter_flatMap]
  simp only [filter_groupAt]
  exact flatMap_range_single hindex _

end Groups

/-- What stands before a group: the label of its category, or at most a blank line. -/
theorem groupLead_cases {α : Type} (headers : Bool) (total before : Nat) (group : Group α) :
    (∃ category, headers = true ∧ group.category = some category ∧
      groupLead headers total before group = [.label category.name]) ∨
    ((headers = false ∨ group.category = none) ∧
      (groupLead headers total before group = [.spacer] ∨
        groupLead headers total before group = [])) := by
  obtain ⟨index, category, items⟩ := group
  cases headers with
  | false =>
    refine Or.inr ⟨Or.inl rfl, ?_⟩
    simp only [groupLead]
    split
    · exact Or.inl rfl
    · exact Or.inr rfl
  | true =>
    cases category with
    | none =>
      refine Or.inr ⟨Or.inr rfl, ?_⟩
      simp only [groupLead]
      split
      · exact Or.inl rfl
      · exact Or.inr rfl
    | some category => exact Or.inl ⟨category, rfl, rfl, rfl⟩

section Plan

variable {α : Type} {property : α → Text} {spec : Spec}

/-- Every label of a plan names a category of the specification. -/
theorem category_mem_of_mem_groups {items : List α} {group : Group α} {category : Category}
    (h : group ∈ groups property spec items) (hc : group.category = some category) :
    category ∈ spec := by
  obtain ⟨index, _, rfl⟩ := List.mem_map.mp (List.mem_filter.mp h).1
  exact List.mem_of_getElem? hc

/-- A label in the steps of groups is the name of one of their categories. -/
theorem label_mem_planGroups {headers : Bool} {total before : Nat} {list : List (Group α)}
    {name : Text} (h : .label name ∈ planGroups headers total before list) :
    ∃ group ∈ list, ∃ category, group.category = some category ∧ category.name = name := by
  induction list generalizing before with
  | nil => simp [planGroups] at h
  | cons group list ih =>
    rw [planGroups, List.mem_append, List.mem_append] at h
    rcases h with (h | h) | h
    · rcases groupLead_cases headers total before group with
        ⟨category, _, hcategory, hlead⟩ | ⟨_, hlead | hlead⟩
      · rw [hlead, List.mem_singleton, Step.label.injEq] at h
        exact ⟨group, List.mem_cons_self, category, hcategory, h.symm⟩
      · simp [hlead] at h
      · simp [hlead] at h
    · simp at h
    · obtain ⟨next, hn, hc⟩ := ih h
      exact ⟨next, List.mem_cons_of_mem group hn, hc⟩

/-- A label in a plan is a name of the specification. -/
theorem label_mem_plan {headers : Bool} {items : List α} {name : Text}
    (h : .label name ∈ plan property spec headers items) : name ∈ spec.names := by
  obtain ⟨group, hg, category, hc, rfl⟩ := label_mem_planGroups h
  exact List.mem_map_of_mem (category_mem_of_mem_groups hg hc)

/-- An item in the steps of groups is one of theirs. -/
theorem item_mem_planGroups {headers : Bool} {total before : Nat} {list : List (Group α)}
    {value : α} (h : .item value ∈ planGroups headers total before list) :
    ∃ group ∈ list, value ∈ group.items := by
  induction list generalizing before with
  | nil => simp [planGroups] at h
  | cons group list ih =>
    rw [planGroups, List.mem_append, List.mem_append] at h
    rcases h with (h | h) | h
    · rcases groupLead_cases headers total before group with
        ⟨category, _, _, hlead⟩ | ⟨_, hlead | hlead⟩ <;> simp [hlead] at h
    · exact ⟨group, List.mem_cons_self, by simpa using h⟩
    · obtain ⟨next, hn, hv⟩ := ih h
      exact ⟨next, List.mem_cons_of_mem group hn, hv⟩

/-- The items of a plan are those it was made from. -/
theorem item_mem_plan {headers : Bool} {items : List α} {value : α}
    (h : .item value ∈ plan property spec headers items) : value ∈ items := by
  obtain ⟨group, hg, hv⟩ := item_mem_planGroups h
  exact (alike_groupedItems items).mem (List.mem_flatMap.mpr ⟨group, hg, hv⟩)

/-- A plan ends with an item: a label or a blank line always has one behind it. -/
theorem getLast?_planGroups {headers : Bool} {total before : Nat} {list : List (Group α)}
    (hne : ∀ group ∈ list, group.items ≠ []) {step : Step α}
    (h : step ∈ (planGroups headers total before list).getLast?) : ∃ value, step = .item value := by
  induction list generalizing before with
  | nil => simp [planGroups] at h
  | cons group list ih =>
    have hitems := hne group List.mem_cons_self
    obtain ⟨last, hlast⟩ : ∃ last, group.items.getLast? = some last :=
      Option.ne_none_iff_exists'.mp (by simpa using hitems)
    rw [planGroups, List.getLast?_append, List.getLast?_append, List.getLast?_map, hlast,
      Option.map_some, Option.some_or, Option.mem_def, Option.or_eq_some_iff] at h
    rcases h with h | ⟨_, h⟩
    · exact ih (fun next hn => hne next (List.mem_cons_of_mem group hn)) h
    · exact ⟨last, (Option.some.inj h).symm⟩

end Plan

section Map

variable {α β : Type} {property : α → Text} {target : β → Text} {f : α → β} {spec : Spec}

/-- The group with every item exchanged. -/
def Group.map (f : α → β) (group : Group α) : Group β :=
  ⟨group.index, group.category, group.items.map f⟩

/-- The step with its item exchanged. -/
def Step.map (f : α → β) : Step α → Step β
  | .label name => .label name
  | .spacer => .spacer
  | .item value => .item (f value)

/-- A group of changed items has the changed items of the group. -/
theorem groupAt_map {items : List α} (h : ∀ a ∈ items, target (f a) = property a) (index : Nat) :
    groupAt target spec (items.map f) index = (groupAt property spec items index).map f := by
  have hfilter : (items.map f).filter (fun b => spec.index (target b) == index) =
      (items.filter fun a => spec.index (property a) == index).map f := by
    rw [List.filter_map]
    congr 1
    apply List.filter_congr
    intro a ha
    rw [Function.comp_apply, h a ha]
  unfold groupAt Group.map
  congr 1
  rw [hfilter, List.map_mergeSort]
  intro a ha b hb
  rw [h a (List.mem_filter.mp ha).1, h b (List.mem_filter.mp hb).1]

/-- Groups depend on items only through their properties. -/
theorem groups_map {items : List α} (h : ∀ a ∈ items, target (f a) = property a) :
    groups target spec (items.map f) = (groups property spec items).map (Group.map f) := by
  have hat : (List.range (spec.length + 1)).map (groupAt target spec (items.map f)) =
      ((List.range (spec.length + 1)).map (groupAt property spec items)).map (Group.map f) := by
    rw [List.map_map]
    apply List.map_congr_left
    intro index _
    exact groupAt_map h index
  rw [groups, groups, hat, List.filter_map]
  congr 1
  apply List.filter_congr
  intro group _
  simp [Group.map]

/-- What comes before a group does not depend on its items, but on their number. -/
theorem groupLead_map (headers : Bool) (total before : Nat) (group : Group α) :
    groupLead headers total before (group.map f) =
      (groupLead headers total before group).map (Step.map f) := by
  obtain ⟨index, category, items⟩ := group
  cases headers with
  | false =>
    simp only [groupLead, Group.map, List.length_map]
    split <;> rfl
  | true =>
    cases category with
    | none =>
      simp only [groupLead, Group.map, List.length_map]
      split <;> rfl
    | some category => rfl

/-- The steps of changed groups are the changed steps. -/
theorem planGroups_map (headers : Bool) (total before : Nat) (list : List (Group α)) :
    planGroups headers total before (list.map (Group.map f)) =
      (planGroups headers total before list).map (Step.map f) := by
  induction list generalizing before with
  | nil => rfl
  | cons group list ih =>
    rw [List.map_cons, planGroups, planGroups, List.map_append, List.map_append, groupLead_map]
    rw [show (group.map f).items.length = group.items.length from List.length_map .., ih]
    simp [Group.map, Step.map]

/-- A plan depends on items only through their properties. -/
theorem plan_map {items : List α} (h : ∀ a ∈ items, target (f a) = property a) (headers : Bool) :
    plan target spec headers (items.map f) =
      (plan property spec headers items).map (Step.map f) := by
  rw [plan, plan, groups_map h, planGroups_map, List.length_map]

end Map

end StyleModules
