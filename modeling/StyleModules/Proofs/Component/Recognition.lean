import StyleModules.Proofs.Component.UseOrder

/-!
# Used names and recognised names

A component may use any name by a key in brackets, but a selector mentions only names that start
with a letter or an underscore. The rule that is made for a used name mentions this name if it
starts so, and no class at all if it does not (`classes_emptyBlock`). So ordering a sheet once more
finds the rules of all names that start like a name, and makes a further empty rule for each of the
others. Rules that mention a class and statements that mention none are followed apart
(`filter_orderByUse_hasClass`): the former settle at once, and the latter grow by the same rules
each time.
-/

namespace StyleModules

/-- The name starts with a letter or an underscore. -/
def startsName (name : Text) : Bool := name.head?.any isNameStart

namespace Node

/-- The node mentions some class. -/
def hasClass (node : Node) : Bool := !node.classes.isEmpty

/-- A node has no class if it mentions none. -/
theorem hasClass_eq_false_iff (node : Node) : node.hasClass = false ↔ node.classes = [] := by
  simp [hasClass]

/-- A node that mentions a name has a class. -/
theorem hasClass_of_mentions {node : Node} {name : Text} (h : node.mentions name = true) :
    node.hasClass = true := by
  have hmem : name ∈ node.classes := by simpa [mentions] using h
  simpa [hasClass] using List.ne_nil_of_mem hmem

/-- A class that a selector mentions has been recognised behind a point of the selector. -/
theorem exists_of_mem_classes {node : Node} {name : Text} (h : name ∈ node.classes) :
    ∃ selector c rest after, node.selector = some selector ∧
      '.' :: c :: after <:+ selector ∧ isNameStart c = true ∧ name = c :: rest := by
  obtain ⟨kind, selector, content, children, comments⟩ := node
  unfold classes at h
  split at h
  · next selector _ hselector =>
    rw [List.mem_eraseDups] at h
    obtain ⟨before, place, length, hplace, hr⟩ := exists_of_mem_occurrences h
    unfold recogniseClass at hr
    split at hr
    · next c after =>
      split at hr
      · next hstart =>
        have hname := (Prod.mk.inj (Option.some.inj hr)).2
        exact ⟨selector, c, _, after, hselector, hplace, hstart, hname.symm⟩
      · simp at hr
    · simp at hr
  · simp at h

/-- No selector mentions a name that does not start like one. -/
theorem mentions_of_not_startsName {name : Text} (h : startsName name = false) (node : Node) :
    node.mentions name = false := by
  cases hm : node.mentions name with
  | false => rfl
  | true =>
    have hmem : name ∈ node.classes := by simpa [mentions] using hm
    obtain ⟨_, c, rest, _, _, _, hstart, rfl⟩ := exists_of_mem_classes hmem
    simp [startsName, hstart] at h

end Node

/-- The rule made for a name mentions this name if it starts like one, and else no class. -/
theorem classes_emptyBlock {name : Text} (h : ∀ c ∈ name, isNameChar c = true) :
    (Node.emptyBlock ('.' :: name)).classes = if startsName name then [name] else [] := by
  by_cases hs : startsName name = true
  · rw [if_pos hs, IsClassName.classes_emptyBlock ⟨hs, h⟩]
  · rw [if_neg hs, List.eq_nil_iff_forall_not_mem]
    intro other ho
    obtain ⟨selector, c, _, after, hselector, hplace, hstart, _⟩ := Node.exists_of_mem_classes ho
    obtain rfl : '.' :: name = selector := Option.some.inj hselector
    -- The point is the first character, since a name holds none.
    rcases List.suffix_cons_iff.mp hplace with he | hinner
    · obtain rfl : c :: after = name := List.tail_eq_of_cons_eq he
      exact hs hstart
    · have hpoint := h '.' (hinner.subset List.mem_cons_self)
      exact absurd hpoint (by decide)

/-- A block made for a name has a class if the name starts like one. -/
theorem hasClass_emptyBlock {name : Text} (h : ∀ c ∈ name, isNameChar c = true) :
    (Node.emptyBlock ('.' :: name)).hasClass = startsName name := by
  rw [Node.hasClass, classes_emptyBlock h]
  cases startsName name <;> rfl

section Gather

variable {all : List Node} {used : List Text}

/-- Names that do not start like a class do not matter for use. -/
theorem isUsed_filter_startsName (used : List Text) (node : Node) :
    node.isUsed (used.filter startsName) = node.isUsed used := by
  rw [Node.isUsed, Node.isUsed, List.any_filter]
  refine List.any_congr rfl fun name => ?_
  cases hs : startsName name with
  | true => exact Bool.true_and _
  | false => rw [Node.mentions_of_not_startsName hs, Bool.false_and]

/-- Of the rules that are gathered, those of names that start like a name mention a class, and the
others are the ones made for the other names. -/
theorem filter_gatherRules_hasClass (hchars : ∀ name ∈ used, ∀ c ∈ name, isNameChar c = true)
    (remaining : List Node) :
    (gatherRules all used remaining).1.filter Node.hasClass =
        (gatherRules all (used.filter startsName) remaining).1 ∧
      (gatherRules all used remaining).1.filter (!·.hasClass) =
        (used.filter (!startsName ·)).map fun name => Node.emptyBlock ('.' :: name) := by
  induction used generalizing remaining with
  | nil => exact ⟨rfl, rfl⟩
  | cons name used ih =>
    have hname := hchars name List.mem_cons_self
    obtain ⟨hclass, hnone⟩ := ih (fun other ho => hchars other (List.mem_cons_of_mem name ho))
      (remaining.filter (!·.mentions name))
    rw [gatherRules_cons, List.filter_append, List.filter_append, hclass, hnone]
    cases hs : startsName name with
    | true =>
      have hrules : ∀ node ∈ rulesFor all name remaining, node.hasClass = true := by
        intro node hn
        rcases mem_rulesFor hn with ⟨original, _, hm, rfl⟩ | rfl
        · exact Node.hasClass_of_mentions (by rw [Node.mentions_mark, hm])
        · rw [hasClass_emptyBlock hname, hs]
      have hnothing : (rulesFor all name remaining).filter (!·.hasClass) = [] :=
        List.filter_eq_nil_iff.mpr fun node hn => by simp [hrules node hn]
      rw [List.filter_cons_of_pos hs, List.filter_cons_of_neg (by simp [hs]), gatherRules_cons,
        List.filter_eq_self.mpr hrules, hnothing]
      exact ⟨rfl, rfl⟩
    | false =>
      -- Nothing mentions the name: it gets a new rule, and takes nothing away.
      have hmentions := Node.mentions_of_not_startsName hs
      have hrules : rulesFor all name remaining = [Node.emptyBlock ('.' :: name)] := by
        simp [rulesFor, hmentions]
      have hrest : remaining.filter (!·.mentions name) = remaining := by simp [hmentions]
      rw [List.filter_cons_of_neg (by simp [hs]), List.filter_cons_of_pos (by simp [hs]), hrules,
        hrest, List.filter_cons_of_neg (by simp [hasClass_emptyBlock hname, hs]),
        List.filter_cons_of_pos (by simp [hasClass_emptyBlock hname, hs])]
      exact ⟨rfl, rfl⟩

end Gather

section Order

variable {used : List Text}

/-- What ordering does to the rules that mention a class, and to the other statements: the former
are ordered by the names that start like one; the latter stay behind the rules that are made for the
other names. -/
theorem filter_orderByUse_hasClass (hchars : ∀ name ∈ used, ∀ c ∈ name, isNameChar c = true)
    (children : List Node) :
    (orderByUse used children).filter Node.hasClass =
        orderByUse (used.filter startsName) (children.filter Node.hasClass) ∧
      (orderByUse used children).filter (!·.hasClass) =
        ((used.filter (!startsName ·)).map fun name => Node.emptyBlock ('.' :: name)) ++
          children.filter (!·.hasClass) := by
  have hkeep : ∀ node : Node, node.hasClass = false → node.classes = [] := fun node =>
    (Node.hasClass_eq_false_iff node).mp
  obtain ⟨hclass, hnone⟩ := @filter_gatherRules_hasClass children used hchars children
  obtain ⟨hsettled, hothers⟩ := filter_flatMap_settle (fun _ => rfl) hkeep
    (children.filter (!Node.isUsed used ·))
  have hgather := @gatherRules_filter (used.filter startsName) Node.hasClass hkeep children children
  constructor
  · rw [orderByUse_eq, orderByUse_eq, List.filter_append, hclass, hsettled, hgather,
      List.filter_filter, List.filter_filter]
    simp only [isUsed_filter_startsName, Bool.and_comm]
  · rw [orderByUse_eq, List.filter_append, hnone, hothers, List.filter_filter]
    congr 1
    refine List.filter_congr fun node _ => ?_
    cases hc : node.hasClass with
    | true => simp
    | false =>
      have hunused : node.isUsed used = false := by
        simp [Node.isUsed, Node.mentions_of_classes_eq_nil (hkeep node hc)]
      simp [hunused]

/-- Where all names start like a name, a second ordering changes nothing. -/
theorem orderByUse_orderByUse (hnodup : used.Nodup) (hnames : ∀ name ∈ used, IsClassName name)
    (children : List Node) :
    orderByUse used (orderByUse used children) = orderByUse used children := by
  have htwice := @orderByUse_map_orderByUse used children id (fun _ => rfl) (fun _ _ => rfl) hnodup
    hnames
  rw [List.map_id] at htwice
  have hmarks : ∀ node ∈ orderByUse used children, node.refresh used = id node :=
    fun node hn => refresh_of_mem_orderByUse hnames hn
  exact htwice.trans ((List.map_congr_left hmarks).trans (List.map_id _))

/-- A second ordering adds one statement for each name that does not start like a name. -/
theorem length_orderByUse_orderByUse (hnodup : used.Nodup)
    (hchars : ∀ name ∈ used, ∀ c ∈ name, isNameChar c = true) (children : List Node) :
    (orderByUse used (orderByUse used children)).length =
      (orderByUse used children).length + (used.filter (!startsName ·)).length := by
  have hnames : ∀ name ∈ used.filter startsName, IsClassName name := fun name hn =>
    ⟨(List.mem_filter.mp hn).2, hchars name (List.mem_filter.mp hn).1⟩
  obtain ⟨hclass, hnone⟩ := filter_orderByUse_hasClass hchars children
  obtain ⟨hclass', hnone'⟩ := filter_orderByUse_hasClass hchars (orderByUse used children)
  rw [hclass, orderByUse_orderByUse (hnodup.filter _) hnames, ← hclass] at hclass'
  rw [List.length_eq_length_filter_add Node.hasClass,
    @List.length_eq_length_filter_add _ (orderByUse used children) Node.hasClass, hclass', hnone',
    List.length_append, List.length_map]
  omega

end Order

/-- Ordering a sheet by the classes of a component a second time adds one empty rule for each used
name that does not start with a letter or an underscore, so it changes nothing exactly when there is
no such name. A rule that is made for a name is recognised as the rule of this very name if the name
starts so, and is taken for a statement without a class if it does not. -/
theorem orderByUse_extractClasses_twice (code : Text) (root : Node) :
    ((root.orderByUse (extractClasses code)).orderByUse (extractClasses code) =
        root.orderByUse (extractClasses code) ↔
      ∀ name ∈ extractClasses code, startsName name = true) ∧
    ((root.orderByUse (extractClasses code)).orderByUse (extractClasses code)).children.length =
      (root.orderByUse (extractClasses code)).children.length +
        ((extractClasses code).filter (!startsName ·)).length ∧
    ∀ name ∈ extractClasses code, (Node.emptyBlock ('.' :: name)).classes =
      if startsName name then [name] else [] := by
  have hchars : ∀ name ∈ extractClasses code, ∀ c ∈ name, isNameChar c = true :=
    fun _ => isNameChar_of_mem_extractClasses
  have hnodup := nodup_extractClasses code
  have hlength := length_orderByUse_orderByUse hnodup hchars root.children
  refine ⟨⟨fun htwice => ?_, fun hnames => ?_⟩, hlength, fun name hn =>
    classes_emptyBlock (hchars name hn)⟩
  · have hsame := congrArg (·.children.length) htwice
    have hnone : (extractClasses code).filter (!startsName ·) = [] :=
      List.eq_nil_of_length_eq_zero (by simp only [Node.orderByUse] at hsame; omega)
    simpa using List.filter_eq_nil_iff.mp hnone
  · simp only [Node.orderByUse]
    rw [orderByUse_orderByUse hnodup fun name hn => ⟨hnames name hn, hchars name hn⟩]

/-- A key that starts with a digit: its rule is not recognised, and made once more. -/
theorem orderByUse_extractClasses_twice_ne :
    let used := extractClasses "styles[\"1col\"]".toList
    let sheet : Node := { kind := .block }
    used = ["1col".toList] ∧
      (sheet.orderByUse used).children.map Node.selector = [some ".1col".toList] ∧
      ((sheet.orderByUse used).orderByUse used).children.map Node.selector =
        [some ".1col".toList, some ".1col".toList] := by
  decide +kernel

end StyleModules
