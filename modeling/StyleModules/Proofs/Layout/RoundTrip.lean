import StyleModules.Proofs.Layout.Canonical

/-!
# Reading back a laid-out sheet

The entries of a layout are read one after the other, so each kind of entry is given its effect on
a reading, whatever has been read before it and whatever stands behind it (`Reads`). Blank entries
have none, and the effects of entries compose. The entries of a node have the effect of accepting
its canonical tree: this is an induction over the node, in which the plan of a block's declarations
is followed group by group. Reading the whole layout from the start then gives the canonical tree
of the sheet (`parse_format_of_legible`).
-/

namespace StyleModules

namespace Reading

/-- A finished node goes to the innermost block, with the comments that wait. -/
def accept (state : Reading) (node : Node) : Reading :=
  { state with
    block := state.block.push { node with comments := state.pending ++ node.comments }
    pending := [] }

/-- Several finished nodes, one after the other. -/
def acceptAll (state : Reading) (nodes : List Node) : Reading := nodes.foldl accept state

/-- Nodes in a row are accepted one after the other. -/
theorem acceptAll_append (state : Reading) (nodes others : List Node) :
    state.acceptAll (nodes ++ others) = (state.acceptAll nodes).acceptAll others :=
  List.foldl_append

/-- A comment that waits for a node comes before the comments of the node. -/
theorem accept_wait (state : Reading) (comment : Text) (node : Node) :
    (state.wait [comment]).accept node = state.accept (node.precededBy comment) := by
  simp [accept, wait, Node.precededBy]

/-- Nodes that are accepted while no comment waits become children as they are. -/
theorem acceptAll_eq {state : Reading} (h : state.pending = []) (nodes : List Node) :
    state.acceptAll nodes =
      { state with block := { state.block with children := state.block.children ++ nodes } } := by
  induction nodes generalizing state with
  | nil => simp [acceptAll]
  | cons node nodes ih =>
    have hfirst : (state.accept node).pending = [] := rfl
    rw [show state.acceptAll (node :: nodes) = (state.accept node).acceptAll nodes from rfl,
      ih hfirst]
    obtain ⟨kind, selector, content, children, comments⟩ := node
    simp [accept, OpenBlock.push, h]

end Reading

open Reading

/-- Reading the entries, whatever is around them, has the effect. -/
def Reads (entries : List Text) (effect : Reading → Reading) : Prop :=
  ∀ (state : Reading) (rest : Text),
    state.read (renderEntries entries ++ rest) = (effect state).read rest

namespace Reads

/-- Reading no entries has no effect. -/
theorem nil : Reads [] id := fun _ _ => rfl

/-- Entries in a row have their effects one after the other. -/
theorem append {entries others : List Text} {effect next : Reading → Reading}
    (h : Reads entries effect) (h' : Reads others next) :
    Reads (entries ++ others) (next ∘ effect) := by
  intro state rest
  rw [renderEntries, List.flatMap_append, List.append_assoc]
  exact (h state _).trans (h' (effect state) rest)

/-- One entry is its indentation, the text proper and a line feed. -/
theorem entry {t : Text} {effect : Reading → Reading} (depth : Nat)
    (h : ∀ (state : Reading) (rest : Text), state.read (t ++ rest) = (effect state).read rest) :
    Reads [indent depth ++ t] effect := by
  intro state rest
  have hindent : ∀ c ∈ indent depth, isSpace c = true := by
    intro c hc
    rw [List.eq_of_mem_replicate hc]
    decide
  have hrender : renderEntries [indent depth ++ t] ++ rest =
      indent depth ++ (t ++ '\n' :: rest) := by
    simp [renderEntries]
  rw [hrender, read_spaces state hindent, h]
  exact read_space _ (by decide) rest

/-- A blank entry has no effect. -/
theorem blank : Reads [[]] id := entry (t := []) 0 fun _ _ => rfl

/-- A closed comment waits for the next node. -/
theorem comment {c : Text} (depth : Nat) (h : isClosedComment c = true) :
    Reads [indent depth ++ c] (·.wait [c]) :=
  entry depth fun state rest => read_comment state h rest

/-- A closed statement is added to the open block. -/
theorem statement {t : Text} (depth : Nat) (h : ClosedStatement t) :
    Reads [indent depth ++ t ++ [';']] (·.addStatement t) := by
  rw [List.append_assoc]
  refine entry depth fun state rest => ?_
  rw [List.append_assoc]
  exact read_statement state h rest

/-- A closed selector opens a block. -/
theorem opening {t : Text} (depth : Nat) (h : ClosedSelector t) :
    Reads [indent depth ++ t ++ [' ', '\x7b']] (·.openBlock (t ++ [' '])) := by
  rw [List.append_assoc]
  refine entry depth fun state rest => ?_
  rw [List.append_assoc]
  exact read_opening state h rest

/-- A closing brace closes the open block. -/
theorem closing (depth : Nat) : Reads [indent depth ++ ['\x7d']] (·.closeBlock) :=
  entry depth fun state rest => read_closing state rest

/-- The comments that are written wait together. -/
theorem comments (style : Style) {comments : List Text} (depth : Nat)
    (h : ∀ comment ∈ comments, isClosedComment (closeComment comment) = true) :
    Reads (commentEntries style depth comments) (·.wait (keptComments style comments)) := by
  unfold commentEntries keptComments
  have hkept := fun c hc =>
    h c (List.mem_of_mem_filter (p := (!isSuppressed style.spec.names ·)) hc)
  generalize comments.filter (!isSuppressed style.spec.names ·) = kept at hkept
  induction kept with
  | nil =>
    intro state rest
    simp [renderEntries, wait]
  | cons c kept ih =>
    have hfirst := Reads.comment depth (hkept c List.mem_cons_self)
    have hrest := ih fun d hd => hkept d (List.mem_cons_of_mem c hd)
    intro state rest
    rw [List.map_cons, ← List.singleton_append, hfirst.append hrest state rest]
    simp [wait]

end Reads

section Plan

variable {style : Style}

/-- The effect of a step of a plan on a reading. -/
def stepEffect (style : Style) (state : Reading) : Step LaidChild → Reading
  | .label name => state.wait [headerComment name]
  | .spacer => state
  | .item child => state.accept (child.node.canonical style)

/-- The steps of a body: the plan of its declarations, then the other children. -/
def bodySteps (style : Style) (children : List LaidChild) : List (Step LaidChild) :=
  let kept := children.filter (!·.isDropped style)
  plan (·.node.propertyName) style.spec style.headers (kept.filter (·.node.isDeclaration)) ++
    (kept.filter (!·.node.isDeclaration)).map .item

/-- The parts of a body are those of the steps of its plan. -/
theorem bodyParts_eq_map (style : Style) (depth : Nat) (children : List LaidChild) :
    bodyParts style depth children = (bodySteps style children).map (stepPart depth) := by
  simp only [bodyParts, bodySteps, List.map_append, List.map_map]
  rfl

/-- Parts are read one after the other; the blank entries between them have no effect. -/
theorem reads_joinParts {depth : Nat} {steps : List (Step LaidChild)}
    (h : ∀ step ∈ steps, Reads (stepPart depth step).entries (stepEffect style · step))
    (started afterBlock : Bool) :
    Reads (joinParts started afterBlock (steps.map (stepPart depth)))
      (steps.foldl (stepEffect style)) := by
  induction steps generalizing started afterBlock with
  | nil => exact Reads.nil
  | cons step steps ih =>
    have hfirst := h step List.mem_cons_self
    have hrest := ih fun next hn => h next (List.mem_cons_of_mem step hn)
    rw [List.map_cons, joinParts, List.append_assoc]
    split
    · exact Reads.blank.append (hfirst.append (hrest _ _))
    · exact Reads.nil.append (hfirst.append (hrest _ _))

/-- The steps of items accept the trees of these items. -/
theorem foldl_items (state : Reading) (items : List LaidChild) :
    (items.map Step.item).foldl (stepEffect style) state =
      state.acceptAll (items.map (·.node.canonical style)) := by
  rw [List.foldl_map, acceptAll, List.foldl_map]
  rfl

/-- What stands before a group ends up with its first declaration. -/
theorem foldl_groupLead (state : Reading) (headers : Bool) (total before : Nat)
    {group : Group LaidChild} (hne : group.items ≠ []) :
    (groupLead headers total before group ++ group.items.map Step.item).foldl
        (stepEffect style) state =
      state.acceptAll ((group.map (·.node.canonical style)).labelled headers) := by
  rcases groupLead_cases headers total before group with
    ⟨category, rfl, hcategory, hlead⟩ | ⟨hplain, hlead⟩
  · obtain ⟨index, category', items⟩ := group
    obtain rfl : category' = some category := hcategory
    obtain ⟨first, rest, rfl⟩ := List.exists_cons_of_ne_nil hne
    rw [hlead, List.foldl_append, List.map_cons, List.foldl_cons, foldl_items]
    exact congrArg (acceptAll · _) (accept_wait ..)
  · rw [Group.labelled_of_plain hplain]
    rcases hlead with hlead | hlead <;> rw [hlead] <;> exact foldl_items state group.items

/-- A plan has the effect of accepting its groups with their labels. -/
theorem foldl_planGroups (headers : Bool) (total before : Nat) {list : List (Group LaidChild)}
    (hne : ∀ group ∈ list, group.items ≠ []) (state : Reading) :
    (planGroups headers total before list).foldl (stepEffect style) state =
      state.acceptAll
        ((list.map (Group.map (·.node.canonical style))).flatMap (Group.labelled headers)) := by
  induction list generalizing before state with
  | nil => rfl
  | cons group list ih =>
    rw [planGroups, List.foldl_append, foldl_groupLead state _ _ _ (hne group List.mem_cons_self),
      ih _ fun next hn => hne next (List.mem_cons_of_mem group hn), List.map_cons,
      List.flatMap_cons, acceptAll_append]

/-- Statements and blocks are never left out of a layout. -/
theorem filter_isDropped {norm : Norm} {children : List Node}
    (h : ∀ child ∈ children, child.Meets norm) (depth : Nat) :
    (layChildren style depth children).filter (!·.isDropped style) =
      layChildren style depth children := by
  rw [layChildren_eq_map, List.filter_eq_self]
  intro laid hl
  obtain ⟨child, hc, rfl⟩ := List.mem_map.mp hl
  cases h child hc <;> rfl

/-- The trees for chosen children are those chosen from the trees. -/
theorem map_canonical_filter (style : Style) {norm : Norm} {children : List Node}
    (h : ∀ child ∈ children, child.Meets norm) (depth : Nat) (keep : Bool → Bool) :
    ((layChildren style depth children).filter (keep ·.node.isDeclaration)).map
        (·.node.canonical style) =
      (canonicalAll style children).filter (keep ·.isDeclaration) := by
  rw [layChildren_eq_map, List.filter_map, List.map_map, filter_canonicalAll style h]
  rfl

/-- The steps of a body have the effect of accepting its children in canonical order. -/
theorem foldl_bodySteps {norm : Norm} {children : List Node}
    (h : ∀ child ∈ children, child.Meets norm) (depth : Nat) (state : Reading) :
    (bodySteps style (layChildren style depth children)).foldl (stepEffect style) state =
      state.acceptAll (arrange style (canonicalAll style children)) := by
  have hgroups : (groups (·.node.propertyName) style.spec
        ((layChildren style depth children).filter (·.node.isDeclaration))).map
          (Group.map (·.node.canonical style)) =
      groups Node.propertyName style.spec
        ((canonicalAll style children).filter (·.isDeclaration)) := by
    have hdeclarations := map_canonical_filter style h depth id
    simp only [id_eq] at hdeclarations
    rw [← hdeclarations, groups_map]
    intro laid hl
    obtain ⟨hmem, hd⟩ := List.mem_filter.mp hl
    rw [layChildren_eq_map] at hmem
    obtain ⟨child, hc, rfl⟩ := List.mem_map.mp hmem
    exact (h child hc).propertyName_canonical hd
  have hothers := map_canonical_filter style h depth (!·)
  rw [bodySteps, filter_isDropped h, List.foldl_append, plan,
    foldl_planGroups _ _ _ fun _ => items_ne_nil_of_mem_groups, hgroups, foldl_items, hothers,
    arrange, acceptAll_append]

end Plan

section Entries

/-- A text with a character that is not blank is not blank. -/
theorem isBlankText_of_mem {t : Text} {c : Char} (h : c ∈ t) (hc : isBlank c = false) :
    Text.isBlankText t = false := by
  rw [Text.isBlankText, List.all_eq_false]
  exact ⟨c, h, by simp [hc]⟩

/-- A closed comment begins with a slash. -/
theorem slash_mem_of_isClosedComment {c : Text} (h : isClosedComment c = true) : '/' ∈ c := by
  obtain ⟨body, rfl, _⟩ := exists_of_isClosedComment h
  exact List.mem_cons_self

/-- Entries that are blank are empty, and the last one is not blank. -/
structure Tidy (entries : List Text) : Prop where
  /-- An entry of blanks alone has none. -/
  blank : ∀ entry ∈ entries, Text.isBlankText entry = true → entry = []
  /-- The last entry is not blank. -/
  last : ∀ entry ∈ entries.getLast?, Text.isBlankText entry = false

namespace Tidy

/-- No entries are tidy. -/
theorem nil : Tidy [] := ⟨by simp, by simp⟩

/-- Tidy entries in a row are tidy. -/
theorem append {entries others : List Text} (h : Tidy entries) (h' : Tidy others) :
    Tidy (entries ++ others) := by
  refine ⟨fun entry he => ?_, fun entry he => ?_⟩
  · rcases List.mem_append.mp he with he | he
    · exact h.blank entry he
    · exact h'.blank entry he
  · rw [List.getLast?_append, Option.mem_def, Option.or_eq_some_iff] at he
    rcases he with he | ⟨_, he⟩
    · exact h'.last entry he
    · exact h.last entry he

/-- Blank entries may stand in front of entries. -/
theorem cons_blank {entries : List Text} (h : Tidy entries) (hne : entries ≠ []) :
    Tidy ([] :: entries) := by
  refine ⟨fun entry he hb => ?_, fun entry he => ?_⟩
  · rcases List.mem_cons.mp he with rfl | he
    · rfl
    · exact h.blank entry he hb
  · rw [List.getLast?_cons_of_ne_nil hne] at he
    exact h.last entry he

/-- An empty entry may stand before tidy ones. -/
theorem separated {entries : List Text} (h : Tidy entries) (hne : entries ≠ []) (apart : Bool) :
    Tidy ((if apart then [[]] else []) ++ entries) := by
  cases apart with
  | false => exact h
  | true => exact h.cons_blank hne

/-- An entry that is not blank is tidy. -/
theorem singleton {entry : Text} (h : Text.isBlankText entry = false) : Tidy [entry] := by
  refine ⟨fun other ho hb => ?_, fun other ho => ?_⟩
  · rw [List.mem_singleton.mp ho, h] at hb
    cases hb
  · obtain rfl : entry = other := by simpa using ho
    exact h

/-- Entries of comments that are closed are tidy. -/
theorem comments (style : Style) {comments : List Text} (depth : Nat)
    (h : ∀ comment ∈ comments, isClosedComment (closeComment comment) = true) :
    Tidy (commentEntries style depth comments) := by
  have hentry : ∀ entry ∈ commentEntries style depth comments, Text.isBlankText entry = false := by
    intro entry he
    obtain ⟨comment, hc, rfl⟩ := List.mem_map.mp he
    have hslash := slash_mem_of_isClosedComment (h comment (List.mem_filter.mp hc).1)
    exact isBlankText_of_mem (List.mem_append_right _ hslash) (by decide)
  refine ⟨fun entry he hb => ?_, fun entry he => hentry entry (List.mem_of_mem_getLast? he)⟩
  rw [hentry entry he] at hb
  cases hb

end Tidy

/-- The part of a step has entries if its child has. -/
theorem stepPart_entries_ne_nil {depth : Nat} {step : Step LaidChild}
    (h : ∀ child, step = .item child → child.entries ≠ []) :
    (stepPart depth step).entries ≠ [] := by
  cases step with
  | label name => simp [stepPart, labelEntries, headerComment]
  | spacer => simp [stepPart, labelEntries]
  | item child => exact h child rfl

/-- Joined parts have entries if each part has. -/
theorem joinParts_ne_nil {started afterBlock : Bool} {parts : List Part} (hne : parts ≠ [])
    (h : ∀ part ∈ parts, part.entries ≠ []) : joinParts started afterBlock parts ≠ [] := by
  cases parts with
  | nil => exact absurd rfl hne
  | cons part parts => simp [joinParts, h part List.mem_cons_self]

/-- Parts that end with an item are tidy if the items are. -/
theorem tidy_joinParts {depth : Nat} {steps : List (Step LaidChild)}
    (hitems : ∀ child, .item child ∈ steps → Tidy child.entries ∧ child.entries ≠ [])
    (hlast : ∀ step ∈ steps.getLast?, ∃ child, step = .item child) (started afterBlock : Bool) :
    Tidy (joinParts started afterBlock (steps.map (stepPart depth))) := by
  induction steps generalizing started afterBlock with
  | nil => exact Tidy.nil
  | cons step steps ih =>
    have hrest : ∀ started afterBlock,
        Tidy (joinParts started afterBlock (steps.map (stepPart depth))) := by
      refine fun _ _ => ih (fun child hc => hitems child (List.mem_cons_of_mem step hc))
        (fun last hl => hlast last ?_) _ _
      rw [List.getLast?_cons_of_ne_nil (fun he => by simp [he] at hl)]
      exact hl
    rw [List.map_cons, joinParts, List.append_assoc]
    refine Tidy.separated ?_ (by simp [stepPart_entries_ne_nil fun child he =>
      (hitems child (he ▸ List.mem_cons_self)).2]) _
    cases step with
    | label name =>
      have hlabel : Text.isBlankText (indent depth ++ headerComment name) = false :=
        isBlankText_of_mem (List.mem_append_right _ List.mem_cons_self) (by decide)
      exact (((Tidy.singleton hlabel).cons_blank (by simp))).append (hrest _ _)
    | spacer =>
      -- A blank line is never last, so there are entries behind it.
      have hne : steps ≠ [] := by
        rintro rfl
        obtain ⟨child, hc⟩ := hlast .spacer rfl
        cases hc
      refine (hrest _ _).cons_blank (joinParts_ne_nil (by simpa using hne) fun part hp => ?_)
      obtain ⟨next, hn, rfl⟩ := List.mem_map.mp hp
      exact stepPart_entries_ne_nil fun child he =>
        (hitems child (List.mem_cons_of_mem _ (he ▸ hn))).2
    | item child => exact (hitems child List.mem_cons_self).1.append (hrest _ _)

end Entries

/-- No name of a category holds the end of a comment. -/
def Spec.Closed (spec : Spec) : Prop := ∀ name ∈ spec.names, Text.occursIn ['*', '/'] name = false

/-- The entries are tidy, and reading them has the effect. -/
structure Laid (entries : List Text) (effect : Reading → Reading) : Prop where
  /-- Reading the entries has the effect. -/
  reads : Reads entries effect
  /-- Blank entries are empty and never last. -/
  tidy : Tidy entries

section Node

variable {style : Style}

/-- An item in the steps of a body is one of the children. -/
theorem item_mem_bodySteps {children : List LaidChild} {child : LaidChild}
    (h : .item child ∈ bodySteps style children) : child ∈ children := by
  rw [bodySteps, List.mem_append] at h
  rcases h with h | h
  · exact (List.mem_filter.mp (List.mem_filter.mp (item_mem_plan h)).1).1
  · obtain ⟨other, ho, he⟩ := List.mem_map.mp h
    rw [← Step.item.inj he]
    exact (List.mem_filter.mp (List.mem_filter.mp ho).1).1

/-- A label in the steps of a body is a name of the specification. -/
theorem label_mem_bodySteps {children : List LaidChild} {name : Text}
    (h : .label name ∈ bodySteps style children) : name ∈ style.spec.names := by
  rw [bodySteps, List.mem_append] at h
  rcases h with h | h
  · exact label_mem_plan h
  · simp at h

/-- The last step of a body is an item. -/
theorem getLast?_bodySteps {children : List LaidChild} {step : Step LaidChild}
    (h : step ∈ (bodySteps style children).getLast?) : ∃ child, step = .item child := by
  rw [bodySteps, List.getLast?_append, Option.mem_def, Option.or_eq_some_iff] at h
  rcases h with h | ⟨_, h⟩
  · obtain ⟨child, _, rfl⟩ := List.mem_map.mp (List.mem_of_mem_getLast? h)
    exact ⟨child, rfl⟩
  · exact getLast?_planGroups (fun _ => items_ne_nil_of_mem_groups) h

/-- A body whose children are laid out well is laid out well. -/
theorem laid_body (hspec : style.spec.Closed) {norm : Norm} {children : List Node} {depth : Nat}
    (hmeets : ∀ child ∈ children, child.Meets norm)
    (h : ∀ child ∈ children, nodeEntries style depth child ≠ [] ∧
      Laid (nodeEntries style depth child) (·.accept (child.canonical style))) :
    Laid (bodyEntries style depth (layChildren style depth children))
      (·.acceptAll (arrange style (canonicalAll style children))) := by
  have hlaid : ∀ laid, .item laid ∈ bodySteps style (layChildren style depth children) →
      laid.entries ≠ [] ∧ Laid laid.entries (·.accept (laid.node.canonical style)) := by
    intro laid hl
    have hmem := item_mem_bodySteps hl
    rw [layChildren_eq_map] at hmem
    obtain ⟨child, hc, rfl⟩ := List.mem_map.mp hmem
    exact h child hc
  rw [bodyEntries, bodyParts_eq_map]
  constructor
  · have hsteps : ∀ step ∈ bodySteps style (layChildren style depth children),
        Reads (stepPart depth step).entries (stepEffect style · step) := by
      intro step hs
      cases step with
      | label name =>
        have hclosed := isClosedComment_headerComment (hspec name (label_mem_bodySteps hs))
        exact Reads.blank.append (Reads.comment depth hclosed)
      | spacer => exact Reads.blank
      | item laid => exact (hlaid laid hs).2.reads
    intro state rest
    rw [reads_joinParts hsteps false false state rest]
    exact congrArg (read · rest) (foldl_bodySteps hmeets depth state)
  · exact tidy_joinParts (fun laid hl => ⟨(hlaid laid hl).2.tidy, (hlaid laid hl).1⟩)
      (fun _ => getLast?_bodySteps) false false

/-- Opening a block, accepting its children and closing it is accepting the block. -/
theorem closeBlock_acceptAll (state : Reading) {selector : Text} (h : ClosedSelector selector)
    (comments : List Text) (children : List Node) :
    (((state.wait comments).openBlock (selector ++ [' '])).acceptAll children).closeBlock =
      state.accept ⟨.block, some selector, [], children, comments⟩ := by
  have hspace : [' '].all isBlank = true := by decide
  have htrim : Text.trim (selector ++ [' ']) = selector := by
    rw [Text.trim_append_blank hspace, h.trimmed]
  have hempty : selector.isEmpty = false := by simpa using h.ne_nil
  have hopen : (state.wait comments).openBlock (selector ++ [' ']) =
      { block := { selector := some selector, comments := state.pending ++ comments }
        outer := state.block :: state.outer } := by
    rw [openBlock, htrim, hempty]
    rfl
  rw [hopen, acceptAll_eq rfl]
  simp [closeBlock, accept, OpenBlock.push, OpenBlock.close]

/-- The entries of a statement or block have the effect of accepting its canonical tree. -/
theorem laid_nodeEntries (hspec : style.spec.Closed) {node : Node} (h : node.Meets Norm.legible)
    (depth : Nat) :
    nodeEntries style depth node ≠ [] ∧
      Laid (nodeEntries style depth node) (·.accept (node.canonical style)) := by
  induction h generalizing depth with
  | @statement selector content children comments hcontent hcomments =>
    have hne : laidText content ≠ [] := hcontent.1.ne_nil
    have hsemicolon : Text.isBlankText (indent depth ++ laidText content ++ [';']) = false :=
      isBlankText_of_mem (List.mem_append_right _ List.mem_cons_self) (by decide)
    rw [nodeEntries_leaf, if_neg (by simpa using hne)]
    refine ⟨by simp, fun state rest => ?_,
      (Tidy.comments style depth hcomments).append (Tidy.singleton hsemicolon)⟩
    rw [(Reads.comments style depth hcomments).append (Reads.statement depth hcontent) state rest]
    have hempty : (Text.trim (laidText content)).isEmpty = false := by
      rw [hcontent.1.trimmed]
      simpa using hne
    simp only [Function.comp_apply, addStatement, hempty]
    rfl
  | @block selector content children comments hselector hcomments hchildren ih =>
    have hbody := laid_body hspec hchildren fun child hc => ih child hc (depth + 1)
    have hbrace : Text.isBlankText (indent depth ++ ['\x7d']) = false :=
      isBlankText_of_mem (List.mem_append_right _ List.mem_cons_self) (by decide)
    have hhead : Text.isBlankText (indent depth ++ selector ++ [' ', '\x7b']) = false :=
      isBlankText_of_mem (c := '\x7b') (by simp) (by decide)
    show blockEntries style depth selector comments
        (bodyEntries style (depth + 1) (layChildren style (depth + 1) children)) ≠ [] ∧
      Laid (blockEntries style depth selector comments
        (bodyEntries style (depth + 1) (layChildren style (depth + 1) children)))
        (·.accept ⟨.block, some selector, [], arrange style (canonicalAll style children),
          keptComments style comments⟩)
    generalize bodyEntries style (depth + 1) (layChildren style (depth + 1) children) = body
      at hbody ⊢
    -- An empty body is written as a blank entry, which has no effect either.
    have hfilled : Reads (if body.isEmpty then [[]] else body)
        (·.acceptAll (arrange style (canonicalAll style children))) ∧
        Tidy ((if body.isEmpty then [[]] else body) ++ [indent depth ++ ['\x7d']]) := by
      cases body with
      | nil => exact ⟨Reads.blank.append hbody.reads, (Tidy.singleton hbrace).cons_blank (by simp)⟩
      | cons entry body => exact ⟨hbody.reads, hbody.tidy.append (Tidy.singleton hbrace)⟩
    refine ⟨by simp [blockEntries], fun state rest => ?_, ?_⟩
    · rw [blockEntries, (((Reads.comments style depth hcomments).append
        (Reads.opening depth hselector)).append hfilled.1).append (Reads.closing depth) state rest]
      exact congrArg (read · rest) (closeBlock_acceptAll state hselector _ _)
    · rw [blockEntries, List.append_assoc]
      exact ((Tidy.comments style depth hcomments).append (Tidy.singleton hhead)).append hfilled.2

end Node

section Sheet

variable {style : Style}

/-- Entries that do not end in a blank one have none to drop at the end. -/
theorem dropBlankEnd_eq_self {entries : List Text}
    (h : ∀ entry ∈ entries.getLast?, Text.isBlankText entry = false) :
    dropBlankEnd entries = entries := by
  induction entries with
  | nil => rfl
  | cons entry entries ih =>
    cases entries with
    | nil => simp [dropBlankEnd, h entry rfl]
    | cons next kept => rw [dropBlankEnd, ih h]

/-- What is last without the blank entries at the start is last of all. -/
theorem mem_getLast?_of_dropWhile {entries : List Text} {entry : Text}
    (h : entry ∈ (entries.dropWhile Text.isBlankText).getLast?) : entry ∈ entries.getLast? := by
  rw [← List.takeWhile_append_dropWhile (p := Text.isBlankText) (l := entries)]
  exact List.mem_getLast?_append_of_mem_getLast? h

/-- Tidy entries lose only what is blank at their start. -/
theorem Tidy.trimEntries_eq {entries : List Text} (h : Tidy entries) :
    trimEntries entries = entries.dropWhile Text.isBlankText :=
  dropBlankEnd_eq_self fun entry he => h.last entry (mem_getLast?_of_dropWhile he)

/-- Leaving out the blank entries at the start makes no difference to a reading. -/
theorem Tidy.read_dropWhile {entries : List Text} (h : Tidy entries) (state : Reading) :
    state.read (renderEntries (entries.dropWhile Text.isBlankText)) =
      state.read (renderEntries entries) := by
  have hblank := h.blank
  clear h
  induction entries with
  | nil => rfl
  | cons entry entries ih =>
    by_cases he : Text.isBlankText entry = true
    · rw [List.dropWhile_cons_of_pos he,
        ih fun other ho => hblank other (List.mem_cons_of_mem _ ho),
        hblank entry List.mem_cons_self he]
      exact (read_space state (by decide) _).symm
    · rw [List.dropWhile_cons_of_neg he]

/-- The layout of a sheet that can be read back is read as its canonical tree. -/
theorem parse_format_of_legible (hspec : style.spec.Closed) {root : Node}
    (h : root.IsSheet Norm.legible) : parse (root.format style) = root.canonical style := by
  obtain ⟨hroot, hcomments, hchildren⟩ := h
  obtain ⟨kind, selector, content, children, comments⟩ := root
  obtain ⟨rfl, rfl⟩ := Node.isRoot_mk_iff.mp hroot
  have hbody := laid_body hspec hchildren fun child hc =>
    laid_nodeEntries hspec (hchildren child hc) 0
  have hreads := hbody.reads.append (Reads.comments style 0 hcomments)
  have htidy := hbody.tidy.append (Tidy.comments style 0 hcomments)
  have hread := hreads {} []
  rw [List.append_nil, read_nil, Function.comp_apply, acceptAll_eq rfl] at hread
  rw [parse_eq_finish_read, Node.format, nodeEntries, htidy.trimEntries_eq, htidy.read_dropWhile,
    hread]
  simp [wait, finish, closeAll, OpenBlock.close, Node.canonical]

/-- A sheet with declarations out of order, two of one property, a nested rule, an at-rule, an
escape and a quoted brace. -/
def sampleSheet : Node :=
  { kind := .block
    children :=
      [{ kind := .block
         selector := some ".a\\:b".toList
         children :=
          [Node.ofStatement "  top:0 ; ".toList ["/* x */".toList],
            Node.ofStatement "content : \"\x7b\"".toList [],
            Node.emptyBlock "&:hover".toList,
            Node.ofStatement "top: 1px".toList []]
         comments := ["/* AB */".toList, "/* first */".toList] },
        Node.ofStatement "@import \"b.css\"".toList []]
    comments := ["/* end */".toList] }

/-- One category, with labels. -/
def sampleStyle : Style := { spec := [⟨"Place".toList, ["top".toList]⟩] }

/-- Reading the layout of a printable sheet gives its canonical tree, whatever the specification,
as long as no category's name ends a comment. -/
theorem parse_format (hspec : style.spec.Closed) {root : Node}
    (h : root.IsSheet Norm.printable) : parse (root.format style) = root.canonical style :=
  parse_format_of_legible hspec (h.mono Norm.legible_of_printable)

/-- Declarations out of order, two of one property, a nested rule, an at-rule, an escape and a
quoted brace are all read back under a specification with labels. -/
theorem parse_format_nested :
    Node.IsSheet Norm.printable sampleSheet ∧ sampleStyle.spec.Closed ∧
      parse (sampleSheet.format sampleStyle) = sampleSheet.canonical sampleStyle :=
  have hsheet : Node.IsSheet Norm.printable sampleSheet := by decide +kernel
  have hspec : sampleStyle.spec.Closed := by unfold Spec.Closed; decide +kernel
  ⟨hsheet, hspec, parse_format hspec hsheet⟩

end Sheet

end StyleModules
