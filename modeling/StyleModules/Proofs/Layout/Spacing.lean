import Mathlib.Data.List.Chain
import StyleModules.Proofs.Layout.PlanOrder
import StyleModules.Proofs.Layout.Quoting
import StyleModules.Proofs.Layout.RoundTrip

/-!
# Blank entries of a layout

Blank entries come from the labels and blank lines of a plan, from empty blocks, and from blocks
that are set apart from what stands beside them. A body is a row of pieces, each of them a child
with what stands before it. Before a child that is a block or follows one there is exactly one blank
entry, and before any other child there is what the plan of the declarations has there (`IsBody`).

Every node of a sheet that has been read is given entries of its own, since a statement keeps
something when it is cleaned. So the first entry of a node is not blank, nor is the last, and blank
entries from different sources never meet (`SetOut.filled`). This holds of a layout as a whole once
the blank entries at its ends are gone (`spaced_formatText`).
-/

namespace StyleModules

/-- No two entries that follow each other are blank, and neither is the first nor the last. -/
structure Spaced (entries : List Text) : Prop where
  /-- Of two entries that follow each other one is not blank. -/
  pairs : entries.IsChain fun entry next =>
    Text.isBlankText entry = false ∨ Text.isBlankText next = false
  /-- The first entry is not blank. -/
  first : ∀ entry ∈ entries.head?, Text.isBlankText entry = false
  /-- The last entry is not blank. -/
  last : ∀ entry ∈ entries.getLast?, Text.isBlankText entry = false

/-- A child of a body, with what stands before it. -/
structure Piece where
  /-- What the plan of the body has directly before the child: a label, a blank line or nothing. -/
  lead : Option (Step LaidChild)
  /-- The entries between the child and the one before it. -/
  gap : List Text
  /-- The child. -/
  child : LaidChild

namespace Piece

/-- The steps of the body that belong to the piece. -/
def steps (piece : Piece) : List (Step LaidChild) := piece.lead.toList ++ [.item piece.child]

/-- The entries of the piece. -/
def entries (piece : Piece) : List Text := piece.gap ++ piece.child.entries

/-- The child is a block. -/
def isBlock (piece : Piece) : Bool := piece.child.part.isBlock

/-- The entries of what the plan has before the child. -/
def leadEntries (depth : Nat) (piece : Piece) : List Text :=
  piece.lead.elim [] fun step => (stepPart depth step).entries

/-- A child that is set apart has one blank entry before it, and the plan has nothing there. Before
any other child stands what the plan has there. -/
def Gapped (depth : Nat) (apart : Bool) (piece : Piece) : Prop :=
  if apart then piece.lead = none ∧ piece.gap = [[]] else piece.gap = piece.leadEntries depth

end Piece

/-- The pieces are those of a body with these children. -/
structure IsBody (style : Style) (depth : Nat) (children : List LaidChild)
    (pieces : List Piece) : Prop where
  /-- The pieces have the children, and what the plan puts between them, in their order. -/
  steps : bodySteps style children = pieces.flatMap Piece.steps
  /-- The plan has labels and blank lines before statements only. -/
  leads : ∀ piece ∈ pieces, ∀ step ∈ piece.lead, step.item? = none ∧ piece.isBlock = false
  /-- Every child has entries, and they are well spaced. -/
  filled : ∀ piece ∈ pieces, piece.child.entries ≠ [] ∧ Spaced piece.child.entries
  /-- The first child has nothing to be set apart from. -/
  first : ∀ piece ∈ pieces.head?, piece.Gapped depth false
  /-- A block behind another child, and any child behind a block, is set apart. -/
  apart : pieces.IsChain fun piece next => next.Gapped depth (next.isBlock || piece.isBlock)

/-- The entries are those of the node at the depth, with all bodies below it made of pieces. -/
inductive SetOut (style : Style) : Nat → Node → List Text → Prop
  | statement {depth : Nat} {selector : Option Text} {content : Text} {children : List Node}
      {comments : List Text} (hne : laidText content ≠ []) :
      SetOut style depth ⟨.leaf, selector, content, children, comments⟩
        (commentEntries style depth comments ++ [indent depth ++ laidText content ++ [';']])
  | block {depth : Nat} {selector content : Text} {children : List LaidChild}
      {comments : List Text} {pieces : List Piece}
      (hchildren : ∀ child ∈ children, SetOut style (depth + 1) child.node child.entries)
      (hbody : IsBody style (depth + 1) children pieces) :
      SetOut style depth ⟨.block, some selector, content, children.map LaidChild.node, comments⟩
        (blockEntries style depth selector comments (pieces.flatMap Piece.entries))

section Entries

/-- The entry ends in a character that is not blank. -/
def IsFilled (entry : Text) : Prop := ∃ c ∈ entry.getLast?, isBlank c = false

/-- A filled entry is filled with anything before it. -/
theorem isFilled_append (front : Text) {entry : Text} (h : IsFilled entry) :
    IsFilled (front ++ entry) := by
  obtain ⟨c, hc, hblank⟩ := h
  exact ⟨c, List.mem_getLast?_append_of_mem_getLast? hc, hblank⟩

/-- A filled entry is not blank. -/
theorem IsFilled.isBlankText {entry : Text} (h : IsFilled entry) :
    Text.isBlankText entry = false := by
  obtain ⟨c, hc, hblank⟩ := h
  exact isBlankText_of_mem (List.mem_of_mem_getLast? hc) hblank

/-- A filled entry is not empty. -/
theorem IsFilled.ne_nil {entry : Text} (h : IsFilled entry) : entry ≠ [] := by
  rintro rfl
  obtain ⟨c, hc, -⟩ := h
  simp at hc

/-- A comment that is written ends with its delimiter. -/
theorem isFilled_comment (depth : Nat) (comment : Text) :
    IsFilled (indent depth ++ closeComment comment) := by
  refine isFilled_append _ ?_
  rw [closeComment]
  split
  · next h =>
    rw [Bool.and_eq_true] at h
    obtain ⟨front, hfront⟩ := List.isSuffixOf_iff_suffix.mp h.2
    rw [← hfront]
    exact isFilled_append front ⟨'/', rfl, by decide⟩
  · exact isFilled_append _ ⟨'/', rfl, by decide⟩

/-- The entry of a label is filled. -/
theorem isFilled_label (depth : Nat) (name : Text) :
    IsFilled (indent depth ++ headerComment name) :=
  isFilled_append _ (isFilled_append _ ⟨'/', rfl, by decide⟩)

/-- Every entry is empty or filled, no two that follow each other are empty, and the last is
filled. -/
structure Airy (entries : List Text) : Prop where
  /-- An entry has nothing in it or ends in a character that is not blank. -/
  filled : ∀ entry ∈ entries, entry = [] ∨ IsFilled entry
  /-- Of two entries that follow each other one is filled. -/
  pairs : entries.IsChain fun entry next => entry ≠ [] ∨ next ≠ []
  /-- The last entry is filled. -/
  last : ∀ entry ∈ entries.getLast?, IsFilled entry

/-- Entries of a node: there are some, and the first is filled. -/
structure Filled (entries : List Text) : Prop extends Airy entries where
  /-- There is a first entry, and it is filled. -/
  first : ∃ entry ∈ entries.head?, IsFilled entry

namespace Airy

/-- No entries are airy. -/
theorem nil : Airy [] := ⟨by simp, .nil, by simp⟩

/-- Airy entries in a row are airy. -/
theorem append {entries others : List Text} (h : Airy entries) (h' : Airy others) :
    Airy (entries ++ others) where
  filled entry he := (List.mem_append.mp he).elim (h.filled entry) (h'.filled entry)
  pairs := List.isChain_append.mpr ⟨h.pairs, h'.pairs, fun entry he _ _ =>
    Or.inl (h.last entry he).ne_nil⟩
  last entry he := by
    rw [List.getLast?_append, Option.mem_def, Option.or_eq_some_iff] at he
    rcases he with he | ⟨-, he⟩
    · exact h'.last entry he
    · exact h.last entry he

/-- Entries that are all filled. -/
theorem of_filled {entries : List Text} (h : ∀ entry ∈ entries, IsFilled entry) :
    Airy entries := by
  induction entries with
  | nil => exact nil
  | cons entry entries ih =>
    have hentry := h entry List.mem_cons_self
    have hone : Airy [entry] := ⟨by simp [hentry], .singleton entry, by simp [hentry]⟩
    exact hone.append (ih fun other ho => h other (List.mem_cons_of_mem entry ho))

/-- A filled entry is airy. -/
theorem singleton {entry : Text} (h : IsFilled entry) : Airy [entry] :=
  of_filled (by simpa using h)

/-- Entries of comments are airy. -/
theorem comments (style : Style) (depth : Nat) (comments : List Text) :
    Airy (commentEntries style depth comments) := by
  refine of_filled fun entry he => ?_
  obtain ⟨comment, -, rfl⟩ := List.mem_map.mp he
  exact isFilled_comment depth comment

/-- Entries of several parts are airy if those of each part are. -/
theorem flatMap {α : Type} {f : α → List Text} {list : List α} (h : ∀ a ∈ list, Airy (f a)) :
    Airy (list.flatMap f) := by
  induction list with
  | nil => exact nil
  | cons a list ih =>
    exact (h a List.mem_cons_self).append (ih fun b hb => h b (List.mem_cons_of_mem a hb))

/-- Airy entries are tidy. -/
theorem tidy {entries : List Text} (h : Airy entries) : Tidy entries where
  blank entry he hblank := (h.filled entry he).resolve_right fun hfull => by
    rw [hfull.isBlankText] at hblank
    cases hblank
  last entry he := (h.last entry he).isBlankText

/-- Without the blank entries at their start they are well spaced. -/
theorem spaced_dropWhile {entries : List Text} (h : Airy entries) :
    Spaced (entries.dropWhile Text.isBlankText) where
  pairs := by
    have hmem := fun {other} => List.dropWhile_subset (l := entries) Text.isBlankText (a := other)
    have hchain := h.pairs.suffix (List.dropWhile_suffix Text.isBlankText)
    refine hchain.imp_of_mem_imp fun entry next he hn hpair => ?_
    rcases hpair with hpair | hpair
    · exact Or.inl ((h.filled entry (hmem he)).resolve_left hpair).isBlankText
    · exact Or.inr ((h.filled next (hmem hn)).resolve_left hpair).isBlankText
  first entry he := by
    have hfirst := List.head?_dropWhile_not Text.isBlankText entries
    rwa [Option.mem_def.mp he] at hfirst
  last entry he := (h.last entry (mem_getLast?_of_dropWhile he)).isBlankText

/-- Their text is empty, or it ends with an entry that is not blank and one line feed. -/
theorem renderEntries_cases {entries : List Text} (h : Airy entries) {kept : List Text}
    (hkept : kept = entries.dropWhile Text.isBlankText) :
    kept = [] ∧ renderEntries kept = [] ∨
      ∃ front last, kept = front ++ [last] ∧
        renderEntries kept = renderEntries front ++ last ++ ['\n'] ∧
        Text.isBlankText last = false ∧ last.getLast? ≠ some '\n' := by
  rcases List.eq_nil_or_concat' kept with rfl | ⟨front, last, rfl⟩
  · exact Or.inl ⟨rfl, rfl⟩
  · have hlast : IsFilled last :=
      h.last last (mem_getLast?_of_dropWhile (hkept ▸ List.getLast?_concat))
    refine Or.inr ⟨front, last, rfl, by simp [renderEntries], hlast.isBlankText, fun hline => ?_⟩
    obtain ⟨c, hc, hblank⟩ := hlast
    obtain rfl := Option.some.inj (hc.symm.trans hline)
    exact absurd hblank (by decide)

end Airy

namespace Filled

/-- The entries of a node are not none. -/
theorem ne_nil {entries : List Text} (h : Filled entries) : entries ≠ [] := by
  rintro rfl
  obtain ⟨entry, he, -⟩ := h.first
  simp at he

/-- The entries of a node are spaced. -/
theorem spaced {entries : List Text} (h : Filled entries) : Spaced entries := by
  obtain ⟨entry, rest, rfl⟩ := List.exists_cons_of_ne_nil h.ne_nil
  obtain ⟨first, hfirst, hfull⟩ := h.first
  obtain rfl : entry = first := by simpa using hfirst
  have hdrop := h.toAiry.spaced_dropWhile
  rwa [List.dropWhile_cons_of_neg (by simp [hfull.isBlankText])] at hdrop

/-- A filled entry with others behind it. -/
theorem cons {entry : Text} {entries : List Text} (h : IsFilled entry) (h' : Airy entries) :
    Filled (entry :: entries) where
  toAiry := (Airy.singleton h).append h'
  first := ⟨entry, rfl, h⟩

/-- Comments may stand before entries. -/
theorem behind_comments {style : Style} {depth : Nat} {comments entries : List Text}
    (h : Filled entries) : Filled (commentEntries style depth comments ++ entries) where
  toAiry := (Airy.comments style depth comments).append h.toAiry
  first := by
    unfold commentEntries
    cases comments.filter (!isSuppressed style.spec.names ·) with
    | nil => exact h.first
    | cons comment kept => exact ⟨_, rfl, isFilled_comment depth comment⟩

/-- One blank entry may stand before entries. -/
theorem cons_blank {entries : List Text} (h : Filled entries) : Airy ([] :: entries) where
  filled entry he := by
    rcases List.mem_cons.mp he with rfl | he
    · exact Or.inl rfl
    · exact h.filled entry he
  pairs := by
    obtain ⟨first, hfirst, hfull⟩ := h.first
    refine List.isChain_cons.mpr ⟨fun entry he => Or.inr ?_, h.pairs⟩
    obtain rfl := Option.some.inj (he.symm.trans hfirst)
    exact hfull.ne_nil
  last entry he := h.last entry (by rwa [List.getLast?_cons_of_ne_nil h.ne_nil] at he)

end Filled

end Entries

section Pieces

variable {depth : Nat}

/-- What the plan has before a child is nothing, a blank entry, or a blank entry and a label. -/
theorem Piece.Gapped.airy {piece : Piece} {apart : Bool} (h : piece.Gapped depth apart)
    (hlead : ∀ step ∈ piece.lead, step.item? = none) (hchild : Filled piece.child.entries) :
    Airy piece.entries := by
  obtain ⟨lead, gap, child⟩ := piece
  show Airy (gap ++ child.entries)
  cases apart with
  | true =>
    obtain ⟨-, rfl⟩ : lead = none ∧ gap = [[]] := h
    exact hchild.cons_blank
  | false =>
    obtain rfl : gap = lead.elim [] fun step => (stepPart depth step).entries := h
    cases lead with
    | none => exact hchild.toAiry
    | some step =>
      cases step with
      | label name => exact (Filled.cons (isFilled_label depth name) hchild.toAiry).cons_blank
      | spacer => exact hchild.cons_blank
      | item value => cases hlead _ rfl

/-- The child of a piece is one of the children. -/
theorem Piece.child_mem {style : Style} {children : List LaidChild} {pieces : List Piece}
    (h : bodySteps style children = pieces.flatMap Piece.steps) {piece : Piece}
    (hp : piece ∈ pieces) : piece.child ∈ children := by
  refine @item_mem_bodySteps style _ _ ?_
  rw [h]
  exact List.mem_flatMap.mpr ⟨piece, hp, List.mem_append_right _ List.mem_cons_self⟩

/-- Every piece of a body is set apart or has before it what the plan has there. -/
theorem IsBody.gapped {style : Style} {children : List LaidChild} {pieces : List Piece}
    (h : IsBody style depth children pieces) :
    ∀ piece ∈ pieces, ∃ apart, piece.Gapped depth apart := by
  have hfirst : ∀ piece ∈ pieces.head?, ∃ apart, piece.Gapped depth apart :=
    fun piece hp => ⟨false, h.first piece hp⟩
  have hchain := h.apart
  clear h
  induction pieces with
  | nil => simp
  | cons piece pieces ih =>
    obtain ⟨hnext, hrest⟩ := List.isChain_cons.mp hchain
    intro other ho
    rcases List.mem_cons.mp ho with rfl | ho
    · exact hfirst _ rfl
    · exact ih (fun next hn => ⟨_, hnext next hn⟩) hrest other ho

/-- The pieces of a body are airy. -/
theorem IsBody.airy {style : Style} {children : List LaidChild} {pieces : List Piece}
    (h : IsBody style depth children pieces)
    (hchildren : ∀ child ∈ children, Filled child.entries) :
    Airy (pieces.flatMap Piece.entries) := by
  refine Airy.flatMap fun piece hp => ?_
  obtain ⟨apart, hgapped⟩ := h.gapped piece hp
  exact hgapped.airy (fun step hs => (h.leads piece hp step hs).1)
    (hchildren _ (Piece.child_mem h.steps hp))

/-- Whatever is set out has entries, with filled ones at both ends and between blank ones. -/
theorem SetOut.filled {style : Style} {node : Node} {entries : List Text}
    (h : SetOut style depth node entries) : Filled entries := by
  induction h with
  | @statement depth selector content children comments hne =>
    exact (Filled.cons (isFilled_append _ ⟨';', rfl, by decide⟩) Airy.nil).behind_comments
  | @block depth selector content children comments pieces hchildren hbody ih =>
    have hairy := hbody.airy ih
    have hclosing : Filled [indent depth ++ ['\x7d']] :=
      Filled.cons (isFilled_append _ ⟨'\x7d', rfl, by decide⟩) Airy.nil
    have hopening : IsFilled (indent depth ++ selector ++ [' ', '\x7b']) :=
      isFilled_append _ ⟨'\x7b', rfl, by decide⟩
    -- An empty body is one blank entry, which stands between the two braces.
    have hfilled : Airy ((if (pieces.flatMap Piece.entries).isEmpty then [[]]
        else pieces.flatMap Piece.entries) ++ [indent depth ++ ['\x7d']]) := by
      split
      · exact hclosing.cons_blank
      · exact hairy.append hclosing.toAiry
    rw [blockEntries, List.append_assoc, List.append_assoc]
    exact (Filled.cons hopening hfilled).behind_comments

end Pieces

section Body

/-- Steps in which a label or a blank line stands only before a child that is no block and behind no
block. The truth value says whether a block stands before them. -/
inductive IsRun : Bool → List (Step LaidChild) → Prop
  | nil {afterBlock : Bool} : IsRun afterBlock []
  | item {afterBlock : Bool} {child : LaidChild} {steps : List (Step LaidChild)}
      (h : IsRun child.part.isBlock steps) : IsRun afterBlock (.item child :: steps)
  | led {step : Step LaidChild} {child : LaidChild} {steps : List (Step LaidChild)}
      (hstep : step.item? = none) (hchild : child.part.isBlock = false) (h : IsRun false steps) :
      IsRun false (step :: .item child :: steps)

/-- Items alone are a run. -/
theorem isRun_items (items : List LaidChild) (afterBlock : Bool) :
    IsRun afterBlock (items.map .item) := by
  induction items generalizing afterBlock with
  | nil => exact .nil
  | cons child items ih => exact .item (ih _)

/-- Declarations are no blocks, so a run may follow them. -/
theorem IsRun.items_append {items : List LaidChild} {steps : List (Step LaidChild)}
    (hitems : ∀ child ∈ items, child.part.isBlock = false) (h : IsRun false steps) :
    IsRun false (items.map .item ++ steps) := by
  induction items with
  | nil => exact h
  | cons child items ih =>
    refine .item ?_
    rw [hitems child List.mem_cons_self]
    exact ih fun other ho => hitems other (List.mem_cons_of_mem child ho)

/-- Groups of declarations, each with its lead, and what follows them. -/
theorem IsRun.planGroups_append {headers : Bool} {total before : Nat}
    {list : List (Group LaidChild)} {steps : List (Step LaidChild)}
    (hne : ∀ group ∈ list, group.items ≠ [])
    (hitems : ∀ group ∈ list, ∀ child ∈ group.items, child.part.isBlock = false)
    (h : IsRun false steps) : IsRun false (planGroups headers total before list ++ steps) := by
  induction list generalizing before with
  | nil => exact h
  | cons group list ih =>
    have hrest : IsRun false
        (planGroups headers total (before + group.items.length) list ++ steps) :=
      ih (fun next hn => hne next (List.mem_cons_of_mem group hn))
        fun next hn => hitems next (List.mem_cons_of_mem group hn)
    have hgroup := hitems group List.mem_cons_self
    have hlead : ∀ step ∈ groupLead headers total before group, step.item? = none :=
      fun _ => item?_of_mem_groupLead
    have hshort := length_groupLead_le headers total before group
    rw [planGroups, List.append_assoc, List.append_assoc]
    generalize groupLead headers total before group = lead at hlead hshort ⊢
    rcases lead with _ | ⟨step, _ | ⟨second, more⟩⟩
    · exact hrest.items_append hgroup
    · obtain ⟨first, rest, hfirst⟩ := List.exists_cons_of_ne_nil (hne group List.mem_cons_self)
      rw [hfirst] at hgroup hrest ⊢
      exact .led (hlead step List.mem_cons_self) (hgroup first List.mem_cons_self)
        (hrest.items_append fun other ho => hgroup other (List.mem_cons_of_mem first ho))
    · simp at hshort

/-- The steps of a body are a run. -/
theorem isRun_bodySteps (style : Style) (children : List LaidChild) :
    IsRun false (bodySteps style children) := by
  refine IsRun.planGroups_append (fun _ => items_ne_nil_of_mem_groups) (fun group hg child hc => ?_)
    (isRun_items _ _)
  have hmem := (alike_groupedItems _).mem (List.mem_flatMap.mpr ⟨group, hg, hc⟩)
  have hdeclaration := (List.mem_filter.mp hmem).2
  simp only [Node.isDeclaration, Bool.and_eq_true, beq_iff_eq] at hdeclaration
  simp [LaidChild.part, hdeclaration.1.1]

/-- What the plan has before a child is followed by the child at once. -/
theorem joinParts_led {depth : Nat} {step : Step LaidChild} {child : LaidChild}
    (hstep : step.item? = none) (hchild : child.part.isBlock = false) (started : Bool)
    (parts : List Part) :
    joinParts started false (stepPart depth step :: child.part :: parts) =
      (stepPart depth step).entries ++ child.entries ++ joinParts true false parts := by
  have hpart : (stepPart depth step).isBlock = false ∧
      (stepPart depth step).entries.isEmpty = false := by
    cases step with
    | label name => simp [stepPart, labelEntries, headerComment]
    | spacer => simp [stepPart, labelEntries]
    | item value => cases hstep
  rw [joinParts, joinParts, hpart.1, hpart.2, hchild]
  simp [LaidChild.part]

/-- A run of steps is cut into pieces, and the entries of its parts are those of the pieces. -/
theorem IsRun.exists_pieces {afterBlock : Bool} {steps : List (Step LaidChild)}
    (h : IsRun afterBlock steps) (hfilled : ∀ child, .item child ∈ steps → child.entries ≠ [])
    (depth : Nat) (started : Bool) :
    ∃ pieces : List Piece, steps = pieces.flatMap Piece.steps ∧
      joinParts started afterBlock (steps.map (stepPart depth)) = pieces.flatMap Piece.entries ∧
      (∀ piece ∈ pieces, ∀ step ∈ piece.lead, step.item? = none ∧ piece.isBlock = false) ∧
      (∀ piece ∈ pieces.head?, piece.Gapped depth (started && (piece.isBlock || afterBlock))) ∧
      pieces.IsChain fun piece next => next.Gapped depth (next.isBlock || piece.isBlock) := by
  induction h generalizing started with
  | nil => exact ⟨[], rfl, rfl, by simp, by simp, .nil⟩
  | @item afterBlock child steps h ih =>
    have hchild : (started || !child.entries.isEmpty) = true := by
      simp [hfilled child List.mem_cons_self]
    obtain ⟨pieces, hsteps, hentries, hleads, hfirst, hchain⟩ :=
      ih (fun other ho => hfilled other (List.mem_cons_of_mem _ ho)) true
    let apart := started && (child.part.isBlock || afterBlock)
    refine ⟨⟨none, if apart then [[]] else [], child⟩ :: pieces, ?_, ?_, ?_, ?_, ?_⟩
    · rw [hsteps, List.flatMap_cons]
      rfl
    · rw [List.map_cons, joinParts, List.flatMap_cons, ← hentries]
      exact congrArg (_ ++ joinParts · _ _) hchild
    · simpa using hleads
    · rintro piece hp
      obtain rfl := Option.some.inj hp
      show Piece.Gapped depth apart _
      cases apart <;> simp [Piece.Gapped, Piece.leadEntries]
    · exact List.isChain_cons.mpr ⟨hfirst, hchain⟩
  | @led step child steps hstep hchild h ih =>
    obtain ⟨pieces, hsteps, hentries, hleads, hfirst, hchain⟩ :=
      ih (fun other ho => hfilled other (by simp [ho])) true
    refine ⟨⟨some step, (stepPart depth step).entries, child⟩ :: pieces, ?_, ?_, ?_, ?_, ?_⟩
    · rw [hsteps, List.flatMap_cons]
      rfl
    · rw [List.flatMap_cons, ← hentries]
      exact joinParts_led hstep hchild started _
    · simpa using ⟨⟨hstep, hchild⟩, hleads⟩
    · rintro piece hp
      obtain rfl := Option.some.inj hp
      show Piece.Gapped depth (started && (child.part.isBlock || false)) _
      simp [hchild, Piece.Gapped, Piece.leadEntries]
    · refine List.isChain_cons.mpr ⟨?_, hchain⟩
      intro next hn
      have hnext := hfirst next hn
      show Piece.Gapped depth (next.isBlock || child.part.isBlock) next
      rwa [hchild]

/-- The entries of a body are those of its pieces. -/
theorem exists_isBody (style : Style) (depth : Nat) {children : List LaidChild}
    (h : ∀ child ∈ children, Filled child.entries) :
    ∃ pieces, IsBody style depth children pieces ∧
      bodyEntries style depth children = pieces.flatMap Piece.entries := by
  obtain ⟨pieces, hsteps, hentries, hleads, hfirst, hchain⟩ :=
    (isRun_bodySteps style children).exists_pieces
      (fun child hc => (h child (item_mem_bodySteps hc)).ne_nil) depth false
  refine ⟨pieces, ⟨hsteps, hleads, fun piece hp => ?_, hfirst, hchain⟩, ?_⟩
  · have hfull := h _ (Piece.child_mem hsteps hp)
    exact ⟨hfull.ne_nil, hfull.spaced⟩
  · rw [bodyEntries, bodyParts_eq_map, hentries]

end Body

section Sheet

/-- The norm that asks of a statement that something is written for it. -/
def Norm.worded : Norm := ⟨fun _ => True, (laidText · ≠ []), fun _ => True⟩

/-- A head that nothing in it ends keeps something when it is cleaned: semicolons alone would have
ended it. -/
theorem cleanStatement_ne_nil {head : Text}
    (hunended : HeadState.never HeadState.ends {} head = true) (hne : Text.trim head ≠ []) :
    cleanStatement head ≠ [] := by
  intro hempty
  obtain ⟨before, after, hhead, hbefore, hafter⟩ := exists_cleanStatement head
  rw [hempty, List.append_nil] at hhead
  have hall : ∀ c ∈ head, isBlank c = true ∨ c = ';' := by
    intro c hc
    rw [hhead] at hc
    rcases List.mem_append.mp hc with hc | hc
    · exact Or.inl (List.all_eq_true.mp hbefore c hc)
    · exact hafter c hc
  have hinert : ∀ c ∈ head, HeadState.isInert c = true := by
    intro c hc
    rcases hall c hc with hblank | rfl
    · exact HeadState.isInert_of_isBlank hblank
    · decide
  have hends := HeadState.not_endsHead_of_never_ends hinert hunended
  have hblank : head.all isBlank = true := by
    refine List.all_eq_true.mpr fun c hc => (hall c hc).resolve_right ?_
    rintro rfl
    exact absurd (hends ';' hc) (by decide)
  have htrim := Text.trim_blank_append hblank []
  rw [List.append_nil] at htrim
  exact hne htrim

/-- Something is written for every statement of a sheet. -/
theorem parse_worded (css : Text) : (parse css).IsSheet Norm.worded := by
  refine parse_isSheet fun token hm => ?_
  cases token with
  | space run => trivial
  | comment text => trivial
  | opening head => exact fun _ => trivial
  | statement head ended =>
    intro hne
    obtain ⟨-, hunended, -⟩ := (isLexed_scan css).head_of_mem hm rfl
    exact laidText_ne_nil (cleanStatement_ne_nil hunended hne)
  | closing => trivial

variable {style : Style}

/-- Laid children are those of the nodes. -/
theorem map_node_layChildren (style : Style) (depth : Nat) (children : List Node) :
    (layChildren style depth children).map LaidChild.node = children := by
  rw [layChildren_eq_map, List.map_map]
  exact List.map_id _

/-- Laid children are set out as their nodes are. -/
theorem setOut_layChildren {depth : Nat} {children : List Node}
    (h : ∀ child ∈ children, SetOut style depth child (nodeEntries style depth child)) :
    ∀ laid ∈ layChildren style depth children, SetOut style depth laid.node laid.entries := by
  intro laid hl
  rw [layChildren_eq_map] at hl
  obtain ⟨child, hc, rfl⟩ := List.mem_map.mp hl
  exact h child hc

/-- The entries of every node of a sheet are set out. -/
theorem setOut_nodeEntries {node : Node} (h : node.Meets Norm.worded) (depth : Nat) :
    SetOut style depth node (nodeEntries style depth node) := by
  induction h generalizing depth with
  | @statement selector content children comments hcontent hcomments =>
    have hne : laidText content ≠ [] := hcontent
    rw [nodeEntries_leaf, if_neg (by simpa using hne)]
    exact .statement hne
  | @block selector content children comments hselector hcomments hchildren ih =>
    have hset := setOut_layChildren fun child hc => ih child hc (depth + 1)
    obtain ⟨pieces, hbody, hentries⟩ := exists_isBody style (depth + 1) fun child hc =>
      (hset child hc).filled
    have hnodes := map_node_layChildren style (depth + 1) children
    rw [nodeEntries, hentries]
    conv => arg 3; rw [← hnodes]
    exact .block hset hbody

/-- The layout of a sheet. Its body is made of pieces, and so is every body below: before a block
that is not the first child, and before every child behind a block, there is exactly one blank
entry, and before any other child what the plan has there. Without the blank entry that a label may
have at the start, no two entries that follow each other are blank, and neither is the first nor the
last. The text is empty, or ends with an entry that is not blank and one line feed. -/
theorem spaced_formatText (style : Style) (css : Text) :
    ∃ children pieces, children.map LaidChild.node = (parse css).children ∧
      (∀ child ∈ children, SetOut style 0 child.node child.entries) ∧
      IsBody style 0 children pieces ∧
      ∃ entries, trimEntries (nodeEntries style 0 (parse css)) = entries ∧
        entries = (pieces.flatMap Piece.entries ++
          commentEntries style 0 (parse css).comments).dropWhile Text.isBlankText ∧
        Spaced entries ∧
        (entries = [] ∧ formatText style css = [] ∨
          ∃ front last, entries = front ++ [last] ∧
            formatText style css = renderEntries front ++ last ++ ['\n'] ∧
            Text.isBlankText last = false ∧ last.getLast? ≠ some '\n') := by
  have hsheet := parse_worded css
  have hformat : formatText style css =
      renderEntries (trimEntries (nodeEntries style 0 (parse css))) := rfl
  rw [hformat]
  generalize parse css = root at hsheet
  obtain ⟨hroot, -, hchildren⟩ := hsheet
  obtain ⟨kind, selector, content, children, comments⟩ := root
  obtain ⟨rfl, rfl⟩ := Node.isRoot_mk_iff.mp hroot
  have hset := setOut_layChildren fun child hc =>
    @setOut_nodeEntries style child (hchildren child hc) 0
  obtain ⟨pieces, hbody, hentries⟩ := exists_isBody style 0 fun child hc => (hset child hc).filled
  have hairy := (hbody.airy fun child hc => (hset child hc).filled).append
    (Airy.comments style 0 comments)
  have htrim : trimEntries (nodeEntries style 0 ⟨.block, none, content, children, comments⟩) =
      (pieces.flatMap Piece.entries ++ commentEntries style 0 comments).dropWhile
        Text.isBlankText := by
    rw [nodeEntries, hentries, hairy.tidy.trimEntries_eq]
  exact ⟨layChildren style 0 children, pieces, map_node_layChildren style 0 children, hset, hbody,
    _, rfl, htrim, htrim ▸ hairy.spaced_dropWhile, hairy.renderEntries_cases htrim⟩

end Sheet

end StyleModules
