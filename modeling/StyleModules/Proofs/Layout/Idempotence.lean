import StyleModules.Category.Default
import StyleModules.Proofs.Layout.Ordinary
import StyleModules.Proofs.Layout.Relayout

/-!
# Laying out a text twice

Where every statement and selector of a text can be read back, a second layout changes nothing,
with one exception: the marker of a freshly made sheet without its end. It is no marker while it is
open, so the first layout keeps it and closes it; then it is one, and the second layout leaves it
out. So a second layout changes nothing exactly when there is no such comment
(`format_canonical_iff`): one direction is that a layout is forgotten by the next, the other that a
text laid out twice holds no marker, because its tree is its own canonical tree. Every text without
escapes, quotes and strange blanks can be read back (`parse_closedHeads`), and so can every text
without escapes, quotes and comments, its blanks whatever they are (`parse_printable`).

Statements and selectors that cannot be read back are another matter. A blank that only trimming
takes for one, an escaped blank at the end of a statement, or a quote that is closed by the end of
its line can each make a second layout differ.
-/

namespace StyleModules

/-- What is asked of a sheet all of whose statements and selectors can be read back. -/
def Norm.closedHeads : Norm where
  comment _ := True
  statement content := ClosedStatement (laidText content)
  selector selector := ClosedSelector selector

instance : DecidablePred Norm.closedHeads.comment := fun _ => instDecidableTrue

instance : DecidablePred Norm.closedHeads.statement := fun content =>
  inferInstanceAs (Decidable (ClosedStatement (laidText content)))

instance : DecidablePred Norm.closedHeads.selector := fun selector =>
  inferInstanceAs (Decidable (ClosedSelector selector))

/-- All statements and selectors of a text can be read back if it has no escapes, no quotes and no
blanks but spaces. -/
theorem parse_closedHeads {css : Text} (h : ∀ c ∈ css, isOrdinary c = true) :
    (parse css).IsSheet Norm.closedHeads := by
  refine parse_isSheet fun token ht => ?_
  cases token with
  | space run => trivial
  | comment text => trivial
  | opening head => exact (ordinaryHead_of_mem_scan h ht rfl).bareHead.closedSelector
  | statement head ended => exact (ordinaryHead_of_mem_scan h ht rfl).bareHead.closedStatement
  | closing => trivial

/-- The names of categories are proper, and none is the text of the marker. -/
structure Spec.Plain (spec : Spec) : Prop extends Spec.Proper spec where
  /-- The marker is no label. -/
  marker : isHeader spec.names generatedMarker = false

/-- The specification without categories is plain. -/
theorem Spec.plain_nil : Spec.Plain [] where
  ne_nil := by simp [Spec.names]
  trimmed := by simp [Spec.names]
  closed := by simp [Spec.Closed, Spec.names]
  marker := by decide +kernel

/-- The built-in specification is plain. -/
theorem Spec.plain_builtin : Spec.Plain Spec.builtin where
  ne_nil := by decide +kernel
  trimmed := by decide +kernel
  closed := by unfold Spec.Closed; decide +kernel
  marker := by decide +kernel

/-- What holds of the comments of every text: they are closed or open. -/
def Norm.scanned : Norm :=
  Norm.onComments fun comment => isClosedComment comment = true ∨ isOpenComment comment = true

/-- Every text is read as a sheet of what a scan finds. -/
theorem parse_scanned (css : Text) : (parse css).IsSheet Norm.scanned := by
  refine parse_isSheet fun token ht => ?_
  cases token with
  | comment text => exact isClosedComment_or_isOpenComment ht
  | space run => trivial
  | opening head => exact fun _ => trivial
  | statement head ended => exact fun _ => trivial
  | closing => trivial

/-- A text with closed heads can be read back. -/
theorem Norm.legible_of_closedHeads :
    (Norm.closedHeads.and Norm.scanned).Implies Norm.legible where
  comment _ h := isClosedComment_closeComment h.2
  statement _ h := h.1
  selector _ h := h.1

section Carried

variable {style : Style}

/-- The canonical tree of a sheet that can be read back is printable. -/
theorem Norm.legible_carries (hspec : style.spec.Closed) :
    Norm.legible.Carries style Norm.printable where
  comment _ h _ := h
  statement content h := by
    have hclosed : ClosedStatement (laidText content) := h
    show ClosedStatement (laidText (laidText content))
    rwa [laidText_of_closed hclosed]
  selector _ h := h
  label name hname := isClosedComment_headerComment (hspec name hname)

/-- A sheet that has been laid out twice holds no marker. -/
theorem Norm.printable_carries (hspec : style.spec.Plain) :
    Norm.printable.Carries style (Norm.onComments (· ≠ generatedMarker)) where
  comment comment h hkept := by
    have hclose : closeComment comment = comment := closeComment_of_closed h
    show closeComment comment ≠ generatedMarker
    rw [hclose]
    rintro rfl
    rw [isSuppressed_generatedMarker] at hkept
    cases hkept
  statement _ _ := trivial
  selector _ _ := trivial
  label name hname he := by
    have hheader := isHeader_headerComment hname (hspec.ne_nil name hname)
      (hspec.trimmed name hname)
    rw [he, hspec.marker] at hheader
    cases hheader

/-- A node meets what it meets with a comment before it. -/
theorem Node.Meets.of_precededBy {norm : Norm} {node : Node} {comment : Text}
    (h : (node.precededBy comment).Meets norm) : node.Meets norm := by
  obtain ⟨kind, selector, content, children, comments⟩ := node
  cases h with
  | statement hcontent hcomments =>
    exact .statement hcontent fun other ho => hcomments other (List.mem_cons_of_mem comment ho)
  | block hselector hcomments hchildren =>
    exact .block hselector (fun other ho => hcomments other (List.mem_cons_of_mem comment ho))
      hchildren

/-- A norm that arranged children meet is met by each child, with or without its label. -/
theorem meets_canonical_of_mem {norm : Norm} {children : List Node} {child : Node}
    (h : ∀ node ∈ arrange style (canonicalAll style children), node.Meets norm)
    (hm : child ∈ children) : (child.canonical style).Meets norm := by
  have hcanonical : child.canonical style ∈ canonicalAll style children := by
    rw [canonicalAll_eq_map]
    exact List.mem_map_of_mem hm
  rcases mem_arrange_of_mem hcanonical with ha | ⟨comment, ha⟩
  · exact h _ ha
  · exact (h _ ha).of_precededBy

/-- What holds of the kept comments holds of those that are not suppressed, once they are closed. -/
theorem of_keptComments {p : Text → Prop} {comments : List Text}
    (h : ∀ comment ∈ keptComments style comments, p comment) :
    ∀ comment ∈ comments, isSuppressed style.spec.names comment = false →
      p (closeComment comment) :=
  fun comment hc hkept =>
    h _ (List.mem_map_of_mem (List.mem_filter.mpr ⟨hc, by simp [hkept]⟩))

/-- What holds of the comments of a canonical tree holds of the comments it was made from, as they
are written. -/
theorem Node.Meets.of_canonical {norm : Norm} {p : Text → Prop} {node : Node}
    (h : node.Meets norm) (hc : (node.canonical style).Meets (Norm.onComments p)) :
    node.Meets (Norm.onComments fun comment =>
      isSuppressed style.spec.names comment = false → p (closeComment comment)) := by
  induction h with
  | statement _ _ =>
    cases hc with
    | statement _ hcomments => exact .statement trivial (of_keptComments hcomments)
  | @block selector content children comments _ _ _ ih =>
    rw [Node.canonical] at hc
    cases hc with
    | block _ hcomments hchildren =>
      exact .block trivial (of_keptComments hcomments) fun child hm =>
        ih child hm (meets_canonical_of_mem hchildren hm)

/-- What holds of the comments of the layout holds of those that are not suppressed, once they are
closed. -/
theorem Node.IsSheet.of_canonical {norm : Norm} {p : Text → Prop} {root : Node}
    (h : root.IsSheet norm) (hc : (root.canonical style).IsSheet (Norm.onComments p)) :
    root.IsSheet (Norm.onComments fun comment =>
      isSuppressed style.spec.names comment = false → p (closeComment comment)) := by
  obtain ⟨hroot, _, hchildren⟩ := h
  obtain ⟨kind, selector, content, children, comments⟩ := root
  obtain ⟨rfl, rfl⟩ := Node.isRoot_mk_iff.mp hroot
  exact ⟨rfl, of_keptComments hc.comments, fun child hm =>
    (hchildren child hm).of_canonical (meets_canonical_of_mem hc.children hm)⟩

end Carried

section Twice

variable {style : Style}

/-- What is asked of a sheet without the marker that lacks its end. -/
def Norm.unmarked : Norm := Norm.onComments fun comment => Text.trimEnd comment ≠ openMarker

instance : DecidablePred Norm.unmarked.comment := fun comment =>
  inferInstanceAs (Decidable (Text.trimEnd comment ≠ openMarker))

instance : DecidablePred Norm.unmarked.statement := fun _ => instDecidableTrue

instance : DecidablePred Norm.unmarked.selector := fun _ => instDecidableTrue

/-- Comments that are closed in a layout stay, unless they come to light as the marker. -/
theorem Norm.lasting_of_unmarked :
    ((Norm.closedHeads.and Norm.scanned).and Norm.unmarked).Implies (Norm.lasting style style) where
  comment comment h := by
    obtain ⟨⟨_, hscanned⟩, hmarker⟩ := h
    exact ⟨closeComment_of_closed (isClosedComment_closeComment hscanned),
      fun hkept => ⟨hkept, isSuppressed_closeComment hscanned hkept hmarker⟩, And.left⟩
  statement content h := laidText_of_closed h.1.1
  selector _ _ := trivial

/-- The marker without its end is kept, so it is missed if no marker is written. -/
theorem Norm.unmarked_of_written (hspec : style.spec.Plain) :
    ((Norm.onComments fun comment => isSuppressed style.spec.names comment = false →
      closeComment comment ≠ generatedMarker).and Norm.scanned).Implies Norm.unmarked where
  comment comment h := by
    obtain ⟨hwritten, hscanned⟩ := h
    intro hmarker
    have hkept := isSuppressed_of_openMarker hscanned hmarker hspec.marker
    exact hwritten hkept (closeComment_of_openMarker hmarker)
  statement _ _ := trivial
  selector _ _ := trivial

/-- A second layout changes nothing exactly when there is no marker without its end. -/
theorem format_canonical_iff (hspec : style.spec.Plain) {root : Node}
    (h : root.IsSheet (Norm.closedHeads.and Norm.scanned)) :
    (root.canonical style).format style = root.format style ↔ root.IsSheet Norm.unmarked := by
  constructor
  · intro htwice
    have hlegible := h.mono Norm.legible_of_closedHeads
    have hprintable := (Norm.legible_carries hspec.closed).isSheet hlegible
    -- Read back, the two layouts say that the canonical tree is its own canonical tree.
    have hfixed : (root.canonical style).canonical style = root.canonical style := by
      rw [← parse_format_of_legible hspec.closed (hprintable.mono Norm.legible_of_printable),
        htwice, parse_format_of_legible hspec.closed hlegible]
    have hmarkers := (Norm.printable_carries hspec).isSheet hprintable
    rw [hfixed] at hmarkers
    have hscanned : root.IsSheet Norm.scanned := h.mono ⟨fun _ => And.right, fun _ => And.right,
      fun _ => And.right⟩
    exact ((h.of_canonical hmarkers).and hscanned).mono (Norm.unmarked_of_written hspec)
  · intro hunmarked
    exact format_canonical hspec.leavesOut ((h.and hunmarked).mono Norm.lasting_of_unmarked)

/-- Where all statements and selectors of a text can be read back, a second layout under the
built-in or the empty specification changes nothing exactly when no comment of the text is the
marker of a freshly made sheet without its end. -/
theorem formatText_formatText_iff (hspec : style.spec = [] ∨ style.spec = Spec.builtin) {css : Text}
    (h : (parse css).IsSheet Norm.closedHeads) :
    formatText style (formatText style css) = formatText style css ↔
      (parse css).IsSheet Norm.unmarked := by
  have hplain : style.spec.Plain := by
    rcases hspec with hspec | hspec <;> rw [hspec]
    · exact Spec.plain_nil
    · exact Spec.plain_builtin
  have hsheet := h.and (parse_scanned css)
  rw [formatText, formatText,
    parse_format_of_legible hplain.closed (hsheet.mono Norm.legible_of_closedHeads)]
  exact format_canonical_iff hplain hsheet

/-- A rule with a comment behind it that is never closed. -/
def unfinishedText : Text := ".a \x7b top:0; left : 1px \x7d /* more ".toList

/-- Open comments as such do no harm: closed by the first layout, they stay in the second. -/
theorem formatText_formatText_unfinished :
    (parse unfinishedText).IsSheet Norm.closedHeads ∧
      (parse unfinishedText).IsSheet Norm.unmarked ∧
      formatText ⟨Spec.builtin, true⟩ (formatText ⟨Spec.builtin, true⟩ unfinishedText) =
        formatText ⟨Spec.builtin, true⟩ unfinishedText :=
  have hordinary : unfinishedText.all isOrdinary = true := by decide +kernel
  have hheads := parse_closedHeads (List.all_eq_true.mp hordinary)
  have hunmarked : (parse unfinishedText).IsSheet Norm.unmarked := by decide +kernel
  ⟨hheads, hunmarked, (formatText_formatText_iff (Or.inr rfl) hheads).mpr hunmarked⟩

/-- Texts that a second layout changes: the marker without its end, a comment behind a blank that
only trimming takes for one, an escaped blank at the end of a statement, and a quote in a selector
that is closed by the end of its line. -/
theorem formatText_formatText_ne :
    formatText {} (formatText {} "/* Auto-generated".toList) ≠
        formatText {} "/* Auto-generated".toList ∧
      formatText {} (formatText {} "\u00a0/* x */ a".toList) ≠
        formatText {} "\u00a0/* x */ a".toList ∧
      formatText {} (formatText {} "a\\ ; @x:y".toList) ≠ formatText {} "a\\ ; @x:y".toList ∧
      formatText {} (formatText {} "a\"b\n\x7bc:d\x7d".toList) ≠
        formatText {} "a\"b\n\x7bc:d\x7d".toList := by
  decide +kernel

end Twice

section Plain

/-- The stylesheet has no escapes, no quotes and no comments. -/
def isPlainSheet (css : Text) : Bool := css.all isBare && !Text.occursIn ['/', '*'] css

/-- A comment is cut from a text in which one begins. -/
theorem delimiter_of_comment_mem_scan {t text : Text} (h : .comment text ∈ scan t) :
    ['/', '*'] <:+: t := by
  have hbegins : ['/', '*'] <+: text := by
    rcases isClosedComment_or_isOpenComment h with hc | ho
    · obtain ⟨body, rfl, -⟩ := exists_of_isClosedComment hc
      exact ⟨_, rfl⟩
    · obtain ⟨body, rfl, -⟩ := exists_of_isOpenComment ho
      exact ⟨_, rfl⟩
  obtain ⟨front, back, hsplit⟩ := List.append_of_mem h
  have hinfix : text <:+: t := by
    rw [← flatMap_scan t, hsplit]
    refine ⟨front.flatMap Token.text, back.flatMap Token.text, ?_⟩
    simp [List.flatMap_append, Token.text]
  exact hbegins.isInfix.trans hinfix

/-- A plain stylesheet can be laid out and read back. -/
theorem parse_printable {css : Text} (h : isPlainSheet css = true) :
    (parse css).IsSheet Norm.printable := by
  rw [isPlainSheet, Bool.and_eq_true, List.all_eq_true, Bool.not_eq_true', ← Bool.not_eq_true,
    Text.occursIn_iff] at h
  obtain ⟨hbare, hfree⟩ := h
  refine parse_isSheet fun token ht => ?_
  cases token with
  | space run => trivial
  | comment text => exact absurd (delimiter_of_comment_mem_scan ht) hfree
  | opening head => exact (bareHead_of_mem_scan hbare hfree ht rfl).closedSelector
  | statement head ended => exact (bareHead_of_mem_scan hbare hfree ht rfl).closedStatement
  | closing => trivial

end Plain

end StyleModules
