import StyleModules.Proofs.Layout.RoundTrip

/-!
# The characters of a layout

A layout has a few characters of its own: tabs and line ends, spaces, and the marks that divide
statements, blocks and comments. Every other character comes from the sheet or from the name of a
category (`not_mem_format`), and every character of a sheet comes from the text that it was read
from (`parse_without`).
-/

namespace StyleModules

/-- The characters that a layout puts in. -/
def layoutChars : Text := "\t\n :;/*\x7b\x7d".toList

/-- The norm of sheets without a character. -/
def Norm.without (c : Char) : Norm := ⟨(c ∉ ·), (c ∉ ·), (c ∉ ·)⟩

section Read

/-- A sheet has no character that the text lacks. -/
theorem parse_without {c : Char} {t : Text} (h : c ∉ t) : (parse t).IsSheet (Norm.without c) := by
  refine parse_isSheet fun token ht => ?_
  have htext : c ∉ token.text := fun hc => h (mem_of_mem_token ht hc)
  cases token with
  | space run => trivial
  | comment text => exact htext
  | opening head => exact fun _ hc => htext (List.mem_append_left _ (Text.mem_of_mem_trim hc))
  | statement head ended =>
    refine fun _ hc => htext ?_
    cases ended with
    | true => exact List.mem_append_left _ hc
    | false => exact hc
  | closing => trivial

end Read

section Write

variable {c : Char}

/-- A text of the layout's own characters holds no other. -/
theorem not_mem_of_own (hc : c ∉ layoutChars) {t : Text}
    (h : t.all layoutChars.contains = true) : c ∉ t := by
  intro hm
  exact hc (List.contains_iff_mem.mp (List.all_eq_true.mp h c hm))

/-- Closing a comment adds no other character. -/
theorem not_mem_closeComment (hc : c ∉ layoutChars) {comment : Text} (h : c ∉ comment) :
    c ∉ closeComment comment := by
  rw [closeComment]
  split
  · exact h
  · rw [List.mem_append, not_or]
    exact ⟨fun hm => h ((trimEnd_isPrefix comment).subset hm), not_mem_of_own hc rfl⟩

/-- Laying out a statement adds no other character. -/
theorem not_mem_laidText (hc : c ∉ layoutChars) {content : Text} (h : c ∉ content) :
    c ∉ laidText content := by
  intro hm
  rcases mem_laidText hm with hm | rfl | rfl
  · exact h hm
  · exact hc (by decide)
  · exact hc (by decide)

/-- A label holds no other character than its name. -/
theorem not_mem_headerComment (hc : c ∉ layoutChars) {name : Text} (h : c ∉ name) :
    c ∉ headerComment name := by
  rw [headerComment, List.mem_append, List.mem_append, not_or, not_or]
  exact ⟨⟨not_mem_of_own hc rfl, h⟩, not_mem_of_own hc rfl⟩

/-- Indentation adds no other character. -/
theorem not_mem_indent_append (hc : c ∉ layoutChars) (depth : Nat) {t : Text} (h : c ∉ t) :
    c ∉ indent depth ++ t := by
  rw [List.mem_append, not_or]
  refine ⟨fun hm => hc ?_, h⟩
  rw [List.eq_of_mem_replicate hm]
  decide

/-- Joined parts have the entries of the parts, and empty ones. -/
theorem mem_joinParts {started afterBlock : Bool} {parts : List Part} {entry : Text}
    (h : entry ∈ joinParts started afterBlock parts) :
    entry = [] ∨ ∃ part ∈ parts, entry ∈ part.entries := by
  induction parts generalizing started afterBlock with
  | nil => simp [joinParts] at h
  | cons part parts ih =>
    rw [joinParts, List.mem_append, List.mem_append] at h
    rcases h with (h | h) | h
    · split at h
      · exact Or.inl (List.mem_singleton.mp h)
      · simp at h
    · exact Or.inr ⟨part, List.mem_cons_self, h⟩
    · rcases ih h with h | ⟨other, ho, he⟩
      · exact Or.inl h
      · exact Or.inr ⟨other, List.mem_cons_of_mem part ho, he⟩

variable {style : Style}

/-- An entry of a body is blank, a label, or an entry of a child. -/
theorem mem_bodyEntries {depth : Nat} {children : List LaidChild} {entry : Text}
    (h : entry ∈ bodyEntries style depth children) :
    entry = [] ∨ (∃ name ∈ style.spec.names, entry = indent depth ++ headerComment name) ∨
      ∃ child ∈ children, entry ∈ child.entries := by
  rw [bodyEntries, bodyParts_eq_map] at h
  rcases mem_joinParts h with h | ⟨part, hp, he⟩
  · exact Or.inl h
  · obtain ⟨step, hs, rfl⟩ := List.mem_map.mp hp
    cases step with
    | label name =>
      have hlabel : entry ∈ [[], indent depth ++ headerComment name] := he
      rw [List.mem_cons, List.mem_singleton] at hlabel
      exact hlabel.imp id fun h => Or.inl ⟨name, label_mem_bodySteps hs, h⟩
    | spacer => exact Or.inl (List.mem_singleton.mp he)
    | item child => exact Or.inr (Or.inr ⟨child, item_mem_bodySteps hs, he⟩)

/-- Entries of comments hold no other character than the comments. -/
theorem not_mem_commentEntries (hc : c ∉ layoutChars) {comments : List Text}
    (h : ∀ comment ∈ comments, c ∉ comment) (depth : Nat) :
    ∀ entry ∈ commentEntries style depth comments, c ∉ entry := by
  intro entry he
  obtain ⟨comment, hm, rfl⟩ := List.mem_map.mp he
  have hcomment := h comment (List.mem_filter.mp hm).1
  exact not_mem_indent_append hc depth (not_mem_closeComment hc hcomment)

/-- Entries of a body hold no other character than the names and the children. -/
theorem not_mem_bodyEntries (hc : c ∉ layoutChars) (hspec : ∀ name ∈ style.spec.names, c ∉ name)
    {depth : Nat} {children : List Node}
    (h : ∀ child ∈ children, ∀ entry ∈ nodeEntries style depth child, c ∉ entry) :
    ∀ entry ∈ bodyEntries style depth (layChildren style depth children), c ∉ entry := by
  intro entry he
  rcases mem_bodyEntries he with rfl | ⟨name, hname, rfl⟩ | ⟨laid, hl, he⟩
  · exact List.not_mem_nil
  · exact not_mem_indent_append hc depth (not_mem_headerComment hc (hspec name hname))
  · rw [layChildren_eq_map] at hl
    obtain ⟨child, hm, rfl⟩ := List.mem_map.mp hl
    exact h child hm entry he

/-- The entries of a node have no character that is neither in the node nor in a name. -/
theorem not_mem_nodeEntries (hc : c ∉ layoutChars) (hspec : ∀ name ∈ style.spec.names, c ∉ name)
    {node : Node} (h : node.Meets (Norm.without c)) (depth : Nat) :
    ∀ entry ∈ nodeEntries style depth node, c ∉ entry := by
  induction h generalizing depth with
  | statement hcontent hcomments =>
    intro entry he
    rw [nodeEntries_leaf, List.mem_append] at he
    rcases he with he | he
    · exact not_mem_commentEntries hc hcomments depth entry he
    · split at he
      · simp at he
      · rw [List.mem_singleton.mp he, List.append_assoc]
        refine not_mem_indent_append hc depth ?_
        rw [List.mem_append, not_or]
        exact ⟨not_mem_laidText hc hcontent, not_mem_of_own hc rfl⟩
  | @block selector content children comments hselector hcomments _ ih =>
    have hbody := not_mem_bodyEntries hc hspec fun child hm => ih child hm (depth + 1)
    intro entry he
    rw [nodeEntries, blockEntries, List.mem_append, List.mem_append, List.mem_append,
      List.mem_singleton, List.mem_singleton] at he
    rcases he with ((he | rfl) | he) | rfl
    · exact not_mem_commentEntries hc hcomments depth entry he
    · rw [List.append_assoc]
      refine not_mem_indent_append hc depth ?_
      rw [List.mem_append, not_or]
      exact ⟨hselector, not_mem_of_own hc rfl⟩
    · split at he
      · rw [List.mem_singleton.mp he]
        exact List.not_mem_nil
      · exact hbody entry he
    · exact not_mem_indent_append hc depth (not_mem_of_own hc rfl)

/-- Dropping blank entries at the end adds none. -/
theorem mem_of_mem_dropBlankEnd {entries : List Text} {entry : Text}
    (h : entry ∈ dropBlankEnd entries) : entry ∈ entries := by
  induction entries with
  | nil => exact h
  | cons first rest ih =>
    rw [dropBlankEnd] at h
    split at h
    · split at h
      · simp at h
      · rw [List.mem_singleton.mp h]
        exact List.mem_cons_self
    · next next kept hkept =>
      rcases List.mem_cons.mp h with rfl | h
      · exact List.mem_cons_self
      · rw [← hkept] at h
        exact List.mem_cons_of_mem first (ih h)

/-- A layout has no character that is neither its own, nor in the sheet, nor in a name. -/
theorem not_mem_format (hc : c ∉ layoutChars) (hspec : ∀ name ∈ style.spec.names, c ∉ name)
    {root : Node} (h : root.IsSheet (Norm.without c)) : c ∉ root.format style := by
  obtain ⟨hroot, hcomments, hchildren⟩ := h
  obtain ⟨kind, selector, content, children, comments⟩ := root
  obtain ⟨rfl, rfl⟩ := Node.isRoot_mk_iff.mp hroot
  have hbody := not_mem_bodyEntries hc hspec fun child hm =>
    not_mem_nodeEntries hc hspec (hchildren child hm) 0
  intro hm
  obtain ⟨entry, he, hm⟩ := List.mem_flatMap.mp hm
  have hentry : entry ∈ nodeEntries style 0 ⟨.block, none, content, children, comments⟩ :=
    (List.dropWhile_sublist _).subset (mem_of_mem_dropBlankEnd he)
  rw [List.mem_append, List.mem_singleton] at hm
  rcases hm with hm | rfl
  · rw [nodeEntries, List.mem_append] at hentry
    rcases hentry with hentry | hentry
    · exact hbody entry hentry hm
    · exact not_mem_commentEntries hc hcomments 0 entry hentry hm
  · exact hc (by decide)

end Write

end StyleModules
