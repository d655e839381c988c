import StyleModules.Proofs.Layout.Arrangement

/-!
# A plan as one stable sort

The groups of a plan are made apart and sorted apart, each in its own way. Put one after the other
they are a single stable sort of the declarations, by category, then by rank in the category, then
by property (`groupedItems_eq_mergeSort`). What a plan puts between them stands in front of groups
only. The item behind it is the first of its category, and whether it is a label, a blank line or
nothing at all follows from the items before it and those of its category
(`header_before_item_iff`).
-/

namespace StyleModules

/-- The rank of a property in its category; without a category it is zero. -/
def Spec.rank (spec : Spec) (property : Text) : Nat :=
  (spec[spec.index property]?).elim 0 (·.rank property)

/-- The order of a specification: by category, then by rank in it, then by property. -/
def specOrder (spec : Spec) : Text → Text → Bool :=
  byNumber spec.index (byNumber spec.rank Text.le)

/-- The order of a specification is a text order. -/
theorem textOrder_specOrder (spec : Spec) : TextOrder (specOrder spec) :=
  (textOrder_le.byNumber spec.rank).byNumber spec.index

/-- Inside a category the order of its group is the order of the specification. -/
theorem specOrder_of_groupOrder {spec : Spec} {index : Nat} {p q : Text} (hp : spec.index p = index)
    (hq : spec.index q = index) (h : groupOrder spec[index]? p q = true) :
    specOrder spec p q = true := by
  rw [specOrder, byNumber_iff, hp, hq]
  refine Or.inr ⟨rfl, ?_⟩
  subst hp
  cases hc : spec[spec.index p]? with
  | none =>
    rw [hc] at h
    have hrank : spec.rank p = spec.rank q := by simp [Spec.rank, hq, hc]
    exact byNumber_iff.mpr (Or.inr ⟨hrank, h⟩)
  | some category =>
    rw [hc] at h
    have hrank : spec.rank p = category.rank p ∧ spec.rank q = category.rank q := by
      simp [Spec.rank, hq, hc]
    rw [byNumber_iff, hrank.1, hrank.2]
    exact byNumber_iff.mp h

section Groups

variable {α : Type} {property : α → Text} {spec : Spec} {items : List α}

/-- What the groups of a list of items are. -/
structure IsGrouping (property : α → Text) (spec : Spec) (items : List α)
    (list : List (Group α)) : Prop where
  /-- No group is empty. -/
  nonempty : ∀ group ∈ list, group.items ≠ []
  /-- The indexes increase from group to group. -/
  increasing : list.Pairwise fun group later => group.index < later.index
  /-- A group has the category at its index, and the last one, behind all categories, has none. -/
  category : ∀ group ∈ list, group.category = spec[group.index]?
  /-- A group holds exactly the items of its index. -/
  holds : ∀ group ∈ list,
    group.items.Perm (items.filter fun a => spec.index (property a) == group.index)
  /-- Every item is in a group. -/
  complete : ∀ a ∈ items, ∃ group ∈ list, a ∈ group.items

/-- The groups of a plan are a grouping of the items. -/
theorem isGrouping_groups (property : α → Text) (spec : Spec) (items : List α) :
    IsGrouping property spec items (groups property spec items) where
  nonempty _ hg := items_ne_nil_of_mem_groups hg
  increasing := by
    have hindexes : ((List.range (spec.length + 1)).map (groupAt property spec items)).Pairwise
        fun group later => group.index < later.index :=
      List.pairwise_map.mpr List.pairwise_lt_range
    exact hindexes.filter _
  category group hg := by
    obtain ⟨index, _, rfl⟩ := List.mem_map.mp (List.mem_filter.mp hg).1
    rfl
  holds group hg := by
    obtain ⟨index, _, rfl⟩ := List.mem_map.mp (List.mem_filter.mp hg).1
    exact List.mergeSort_perm _ _
  complete a ha := List.mem_flatMap.mp ((alike_groupedItems items).symm.mem ha)

/-- The items of a group have its index. -/
theorem IsGrouping.index_eq {list : List (Group α)} (h : IsGrouping property spec items list)
    {group : Group α} (hg : group ∈ list) {a : α} (ha : a ∈ group.items) :
    spec.index (property a) = group.index := by
  have hmem := (h.holds group hg).mem_iff.mp ha
  simpa using (List.mem_filter.mp hmem).2

/-- Groups that are sorted apart are in order when they are put one after the other. -/
theorem pairwise_groupedItems (property : α → Text) (spec : Spec) (items : List α) :
    (groupedItems property spec items).Pairwise
      fun a b => specOrder spec (property a) (property b) = true := by
  have hgrouping := isGrouping_groups property spec items
  refine List.pairwise_flatMap.mpr ⟨fun group hg => ?_, ?_⟩
  · have hindex : ∀ a ∈ group.items, spec.index (property a) = group.index :=
      fun a => hgrouping.index_eq hg
    obtain ⟨index, _, rfl⟩ := List.mem_map.mp (List.mem_filter.mp hg).1
    have hsorted : (groupAt property spec items index).items.Pairwise
        fun a b => groupOrder spec[index]? (property a) (property b) = true :=
      (textOrder_groupOrder spec[index]?).pairwise_mergeSort _
    exact hsorted.imp_of_mem fun ha hb hab =>
      specOrder_of_groupOrder (hindex _ ha) (hindex _ hb) hab
  · refine hgrouping.increasing.imp_of_mem fun hg hl hlt a ha b hb => ?_
    rw [specOrder, byNumber_iff, hgrouping.index_eq hg ha, hgrouping.index_eq hl hb]
    exact Or.inl hlt

/-- Grouping and sorting each group is one stable sort. -/
theorem groupedItems_eq_mergeSort (property : α → Text) (spec : Spec) (items : List α) :
    groupedItems property spec items =
      items.mergeSort fun a b => specOrder spec (property a) (property b) :=
  (textOrder_specOrder spec).eq_mergeSort (pairwise_groupedItems property spec items)
    (alike_groupedItems items)

end Groups

section Steps

variable {α : Type} {headers : Bool} {total before : Nat}

/-- What comes before a group is no item. -/
theorem item?_of_mem_groupLead {group : Group α} {step : Step α}
    (h : step ∈ groupLead headers total before group) : step.item? = none := by
  rcases groupLead_cases headers total before group with
    ⟨category, _, _, hlead⟩ | ⟨_, hlead | hlead⟩ <;>
  simp_all [Step.item?]

/-- At most one step comes before a group. -/
theorem length_groupLead_le (headers : Bool) (total before : Nat) (group : Group α) :
    (groupLead headers total before group).length ≤ 1 := by
  rcases groupLead_cases headers total before group with
    ⟨_, _, _, hlead⟩ | ⟨_, hlead | hlead⟩ <;> simp [hlead]

/-- No item comes before a group. -/
theorem filterMap_groupLead (group : Group α) :
    (groupLead headers total before group).filterMap Step.item? = [] :=
  List.filterMap_eq_nil_iff.mpr fun _ => item?_of_mem_groupLead

/-- Steps that are items hold these items. -/
theorem filterMap_map_item (items : List α) :
    (items.map Step.item).filterMap Step.item? = items := by
  rw [List.filterMap_map]
  exact List.filterMap_some

/-- The items of a plan are those of its groups. -/
theorem filterMap_planGroups (list : List (Group α)) :
    (planGroups headers total before list).filterMap Step.item? = list.flatMap Group.items := by
  induction list generalizing before with
  | nil => rfl
  | cons group list ih =>
    rw [planGroups, List.filterMap_append, List.filterMap_append, filterMap_groupLead,
      filterMap_map_item, ih, List.nil_append, List.flatMap_cons]

/-- A place in two lists put together is in the first or in the second. -/
theorem exists_of_append_eq_append_cons {xs ys earlier later : List (Step α)} {step : Step α}
    (h : xs ++ ys = earlier ++ step :: later) :
    (∃ inner, xs = earlier ++ step :: inner ∧ later = inner ++ ys) ∨
      ∃ inner, earlier = xs ++ inner ∧ ys = inner ++ step :: later := by
  rcases List.append_eq_append_iff.mp h with ⟨inner, hearlier, hys⟩ | ⟨inner, hxs, hlater⟩
  · exact Or.inr ⟨inner, hearlier, hys⟩
  · cases inner with
    | nil => exact Or.inr ⟨[], by simpa using hxs.symm, hlater.symm⟩
    | cons first inner =>
      obtain ⟨rfl, rfl⟩ := List.cons.inj hlater
      exact Or.inl ⟨inner, hxs, rfl⟩

/-- An item of a plan stands in one of its groups, behind the groups before this one, the lead of
the group, and the items before it in the group. -/
theorem exists_of_planGroups_eq {list : List (Group α)} {earlier later : List (Step α)} {a : α}
    (h : planGroups headers total before list = earlier ++ .item a :: later) :
    ∃ front group back first rest, list = front ++ group :: back ∧
      group.items = first ++ a :: rest ∧
      earlier = planGroups headers total before front ++
        groupLead headers total (before + (front.flatMap Group.items).length) group ++
          first.map .item := by
  induction list generalizing before earlier with
  | nil => simp [planGroups] at h
  | cons group list ih =>
    rw [planGroups] at h
    rcases exists_of_append_eq_append_cons h with ⟨inner, hgroup, _⟩ | ⟨inner, rfl, hlater⟩
    · rcases exists_of_append_eq_append_cons hgroup with ⟨_, hlead, _⟩ | ⟨inner, rfl, hitems⟩
      · have hnone := item?_of_mem_groupLead (hlead ▸ List.mem_append_right _ List.mem_cons_self)
        cases hnone
      · obtain ⟨first, rest, hfirst, rfl, hrest⟩ := List.map_eq_append_iff.mp hitems
        obtain ⟨b, rest, rfl, hb, _⟩ := List.map_eq_cons_iff.mp hrest
        obtain rfl := Step.item.inj hb
        exact ⟨[], group, list, first, rest, rfl, hfirst, by simp [planGroups]⟩
    · obtain ⟨front, next, back, first, rest, rfl, hnext, rfl⟩ := ih hlater
      refine ⟨group :: front, next, back, first, rest, rfl, hnext, ?_⟩
      rw [planGroups, List.flatMap_cons, List.length_append, Nat.add_assoc]
      simp only [List.append_assoc]

/-- What stands before a group has an item behind it. -/
theorem item_behind_of_planGroups_eq {list : List (Group α)}
    (hne : ∀ group ∈ list, group.items ≠ []) {earlier later : List (Step α)} {step : Step α}
    (h : planGroups headers total before list = earlier ++ step :: later)
    (hstep : step.item? = none) : ∃ a rest, later = .item a :: rest := by
  induction list generalizing before earlier with
  | nil => simp [planGroups] at h
  | cons group list ih =>
    rw [planGroups] at h
    rcases exists_of_append_eq_append_cons h with ⟨inner, hgroup, rfl⟩ | ⟨inner, rfl, hlater⟩
    · rcases exists_of_append_eq_append_cons hgroup with ⟨deep, hlead, rfl⟩ | ⟨_, _, hitems⟩
      · -- A lead has one step at most, and the group behind it is not empty.
        have hlength := congrArg List.length hlead
        have hshort := length_groupLead_le headers total before group
        obtain rfl : deep = [] := List.eq_nil_of_length_eq_zero (by
          rw [List.length_append, List.length_cons] at hlength
          omega)
        obtain ⟨a, rest, hitems⟩ := List.exists_cons_of_ne_nil (hne group List.mem_cons_self)
        exact ⟨a, _, by rw [hitems]; rfl⟩
      · have hmem : step ∈ group.items.map .item :=
          hitems ▸ List.mem_append_right _ List.mem_cons_self
        obtain ⟨a, _, rfl⟩ := List.mem_map.mp hmem
        cases hstep
    · exact ih (fun next hn => hne next (List.mem_cons_of_mem group hn)) hlater

/-- A label comes before a group if labels are wanted and it has a category. -/
theorem groupLead_eq_label_iff {group : Group α} {name : Text} :
    groupLead headers total before group = [.label name] ↔
      headers = true ∧ ∃ category, group.category = some category ∧ category.name = name := by
  obtain ⟨index, category, items⟩ := group
  cases headers <;> cases category <;> simp [groupLead] <;> split <;> simp

/-- A spacer comes before a group if no label does, and it has two items or more, as many stand
before it, and seven or more are there in all. -/
theorem groupLead_eq_spacer_iff {group : Group α} :
    groupLead headers total before group = [.spacer] ↔
      (headers = true → group.category = none) ∧
        7 ≤ total ∧ 2 ≤ group.items.length ∧ 2 ≤ before := by
  obtain ⟨index, category, items⟩ := group
  cases headers <;> cases category <;> simp [groupLead, and_assoc] <;> exact Iff.rfl

end Steps

section Plan

variable {α : Type} {property : α → Text} {spec : Spec} {headers : Bool} {items : List α}

/-- The item is the first of its category: none of the steps before it is an item of the same. -/
def OpensGroup (property : α → Text) (spec : Spec) (earlier : List (Step α)) (a : α) : Prop :=
  ∀ b, .item b ∈ earlier → spec.index (property b) ≠ spec.index (property a)

section Place

variable {front back : List (Group α)} {group : Group α}
  (hlist : groups property spec items = front ++ group :: back)

include hlist

/-- Behind the groups before it, an item is the first of its category. -/
theorem opensGroup_of_front {total before : Nat} {a : α} (ha : a ∈ group.items) :
    OpensGroup property spec (planGroups headers total before front) a := by
  intro b hb
  have hgrouping := isGrouping_groups property spec items
  obtain ⟨previous, hp, hbp⟩ := item_mem_planGroups hb
  have hincreasing := hgrouping.increasing
  rw [hlist, List.pairwise_append] at hincreasing
  have hlt : previous.index < group.index :=
    hincreasing.2.2 previous hp group List.mem_cons_self
  rw [hgrouping.index_eq (by simp [hlist, hp]) hbp, hgrouping.index_eq (by simp [hlist]) ha]
  exact Nat.ne_of_lt hlt

/-- Directly before the first item of a group stands what the lead of the group ends in. -/
theorem getLast?_front_lead_iff {total before count : Nat} {step : Step α}
    (hstep : step.item? = none) :
    (planGroups headers total before front ++ groupLead headers total count group).getLast? =
      some step ↔ groupLead headers total count group = [step] := by
  have hgrouping := isGrouping_groups property spec items
  have hne : ∀ previous ∈ front, previous.items ≠ [] := fun previous hp =>
    hgrouping.nonempty previous (by simp [hlist, hp])
  have hshort := length_groupLead_le headers total count group
  match hlead : groupLead headers total count group with
  | [] =>
    refine iff_of_false (fun hlast => ?_) (by simp)
    rw [List.append_nil] at hlast
    obtain ⟨a, rfl⟩ := getLast?_planGroups hne hlast
    cases hstep
  | [only] => simp
  | _ :: _ :: _ => simp [hlead] at hshort

end Place

/-- Directly before an item of a plan a label or a blank line stands exactly if it is the lead of
the item's group and the item is the first of its category. -/
theorem header_before_item_iff {earlier later : List (Step α)} {a : α}
    (h : plan property spec headers items = earlier ++ .item a :: later) :
    ∃ group ∈ groups property spec items, a ∈ group.items ∧ ∀ step : Step α, step.item? = none →
      (earlier.getLast? = some step ↔ OpensGroup property spec earlier a ∧
        groupLead headers items.length (earlier.filterMap Step.item?).length group = [step]) := by
  obtain ⟨front, group, back, first, rest, hlist, hitems, rfl⟩ := exists_of_planGroups_eq h
  have hgroup : group ∈ groups property spec items := by simp [hlist]
  have ha : a ∈ group.items := by simp [hitems]
  refine ⟨group, hgroup, ha, fun step hstep => ?_⟩
  rcases List.eq_nil_or_concat' first with rfl | ⟨first, last, rfl⟩
  · have hopens : OpensGroup property spec (planGroups headers items.length 0 front ++
        groupLead headers items.length (0 + (front.flatMap Group.items).length) group ++
          [].map .item) a := by
      intro b hb
      rw [List.map_nil, List.append_nil, List.mem_append] at hb
      rcases hb with hb | hb
      · exact opensGroup_of_front hlist ha b hb
      · cases item?_of_mem_groupLead hb
    rw [and_iff_right hopens, List.map_nil, List.append_nil, List.filterMap_append,
      filterMap_groupLead, filterMap_planGroups, List.append_nil, Nat.zero_add]
    exact getLast?_front_lead_iff hlist hstep
  · -- The item before it in the group is of the same category.
    refine iff_of_false (fun hlast => ?_) fun hboth => ?_
    · rw [List.map_append, List.map_singleton, ← List.append_assoc, List.getLast?_concat] at hlast
      rw [← Option.some.inj hlast] at hstep
      cases hstep
    · have hgrouping := isGrouping_groups property spec items
      have hmem : last ∈ group.items := by simp [hitems]
      refine hboth.1 last (by simp) ?_
      rw [hgrouping.index_eq hgroup hmem, hgrouping.index_eq hgroup ha]

/-- What a plan is: a stable sort, with labels and blank lines between groups. -/
structure IsPlan (property : α → Text) (spec : Spec) (headers : Bool) (items : List α)
    (steps : List (Step α)) : Prop where
  /-- The items are sorted by category, then by rank in it, then by property. -/
  sorted : steps.filterMap Step.item? =
    items.mergeSort fun a b => specOrder spec (property a) (property b)
  /-- No item is lost or comes twice, and items of one property keep their order. -/
  stable : Alike property (steps.filterMap Step.item?) items
  /-- With headers, the label of a category stands directly before its first item; before no
  other item stands a label. -/
  labelled : ∀ earlier a later, steps = earlier ++ .item a :: later → ∀ name,
    (earlier.getLast? = some (.label name) ↔ headers = true ∧ OpensGroup property spec earlier a ∧
      ∃ category, spec[spec.index (property a)]? = some category ∧ category.name = name)
  /-- A blank line stands before the first item of a category that has no label, if there are seven
  items in all, two of the category and two before it, and nowhere else. -/
  spaced : ∀ earlier a later, steps = earlier ++ .item a :: later →
    (earlier.getLast? = some .spacer ↔ OpensGroup property spec earlier a ∧
      (headers = true → spec[spec.index (property a)]? = none) ∧ 7 ≤ items.length ∧
      2 ≤ (items.filter fun b => spec.index (property b) == spec.index (property a)).length ∧
      2 ≤ (earlier.filterMap Step.item?).length)
  /-- Directly behind a label or a blank line stands an item. -/
  followed : ∀ earlier step later, steps = earlier ++ step :: later → step.item? = none →
    ∃ a rest, later = .item a :: rest

/-- The groups of declarations are those of their categories in order, and a plan is one stable sort
of the declarations, with a label or a blank line before the first of a category where it is due. -/
theorem isPlan_plan (property : α → Text) (spec : Spec) (headers : Bool) (items : List α) :
    IsGrouping property spec items (groups property spec items) ∧
      IsPlan property spec headers items (plan property spec headers items) := by
  have hgrouping := isGrouping_groups property spec items
  have hitems : (plan property spec headers items).filterMap Step.item? =
      groupedItems property spec items := filterMap_planGroups _
  refine ⟨hgrouping, ⟨?_, ?_, fun earlier a later h name => ?_, fun earlier a later h => ?_,
    fun _ _ _ => item_behind_of_planGroups_eq hgrouping.nonempty⟩⟩
  · rw [hitems, groupedItems_eq_mergeSort]
  · rw [hitems]
    exact alike_groupedItems items
  · obtain ⟨group, hg, ha, hlead⟩ := header_before_item_iff h
    rw [hlead _ rfl, groupLead_eq_label_iff, hgrouping.category group hg,
      hgrouping.index_eq hg ha, and_left_comm]
  · obtain ⟨group, hg, ha, hlead⟩ := header_before_item_iff h
    rw [hlead _ rfl, groupLead_eq_spacer_iff, hgrouping.category group hg,
      hgrouping.index_eq hg ha, (hgrouping.holds group hg).length_eq]

end Plan

end StyleModules
