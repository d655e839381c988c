import StyleModules.Proofs.Component.ImportPattern
import StyleModules.Proofs.Component.Preamble
import StyleModules.Proofs.Text.Segments

/-!
# When the set import is the only one

Setting the import takes every styles import out and puts the canonical line behind the preamble.
The removal can bring another import to the start of a line, and the insertion breaks the line
behind the preamble, so an import there comes to a line start as well; a path that is opened in the
preamble is closed by the quote of the inserted line. If none of this happens, the result has the
canonical line as its only import and is a fixed point, and if the result has it as its only import,
none of this happens (`setImport_sole_iff`).
-/

namespace StyleModules

/-- The canonical line is the only styles import of the text. -/
def HoldsSoleImport (name t : Text) : Prop :=
  ∃ before after, t = before ++ (importLine name ++ '\n' :: after) ∧
    segments recogniseImport t = before.map .plain ++ .found [] :: after.map .plain

/-- With its imports taken out, the source has none: neither in the preamble, even if a quote
follows and closes what is opened there, nor in the rest, which comes to the start of a line. -/
def ClearOfImports (source : Text) : Prop :=
  let bare := replaceOccurrences recogniseImport source
  let place := preambleLength bare
  occurrences recogniseImport (endLine (bare.take place) ++ ['"']) = [] ∧
    occurrences recogniseImport (bare.drop place) = []

instance (source : Text) : Decidable (ClearOfImports source) :=
  inferInstanceAs (Decidable (_ ∧ _))

/-- What follows the text is at the start of a line. -/
def EndsLine (t : Text) : Prop := t = [] ∨ t.getLast? = some '\n'

/-- A text whose line is ended ends a line. -/
theorem endsLine_endLine (t : Text) : EndsLine (endLine t) := by
  rw [endLine]
  split
  · next h => simpa [EndsLine] using h
  · exact .inr List.getLast?_concat

/-- A text that ends a line needs no line feed. -/
theorem EndsLine.endLine_eq {t : Text} (h : EndsLine t) : endLine t = t := by
  obtain rfl | h := h
  · rfl
  · exact endLine_of_getLast? h

/-- The back of a text that ends a line ends a line. -/
theorem EndsLine.of_append {front back : Text} (h : EndsLine (front ++ back)) : EndsLine back := by
  cases back with
  | nil => exact .inl rfl
  | cons c back =>
    refine h.imp (fun h => ?_) fun h => ?_
    · exact (List.append_eq_nil_iff.mp h).2
    · rwa [List.getLast?_append_of_ne_nil _ (List.cons_ne_nil c back)] at h

/-- A text that ends a line and is not empty ends in a line feed. -/
theorem EndsLine.exists_concat {t : Text} (h : EndsLine t) (hne : t ≠ []) :
    ∃ init, t = init ++ ['\n'] :=
  List.getLast?_eq_some_iff.mp (h.resolve_left hne)

/-- Behind a text that ends a line an import may start as at the start. -/
theorem recogniseImport_lastOf {previous : Option Char} {t : Text} (h : EndsLine t)
    (hprevious : recogniseImport previous = recogniseImport none) :
    recogniseImport (lastOf previous t) = recogniseImport none := by
  obtain rfl | h := h
  · exact hprevious
  · rw [lastOf, h]
    rfl

/-- An import may start behind a line feed as at the start. -/
theorem recogniseImport_feed : recogniseImport (some '\n') = recogniseImport none := rfl

/-- At the start an import is recognised as far as it reaches. -/
theorem recogniseImport_none (t : Text) :
    recogniseImport none t = (afterImport? t).map fun after => (t.length - after.length, []) := rfl

/-- A place is the start of a line, or nothing is recognised there. -/
theorem recogniseImport_eq_or (previous : Option Char) :
    recogniseImport previous = recogniseImport none ∨
      ∀ t, recogniseImport previous t = none := by
  by_cases h : (previous == none || previous == some '\n') = true
  · refine .inl (funext fun t => ?_)
    rw [recogniseImport, if_pos h, recogniseImport_none]
  · exact .inr fun t => if_neg h

/-- The canonical line is recognised wherever a line starts. -/
theorem recogniseImport_importLine {name : Text} (hname : ∀ c ∈ name, isQuote c = false)
    (back : Text) :
    recogniseImport none (importLine name ++ '\n' :: back) =
      some ((importLine name ++ ['\n']).length, []) := by
  rw [recogniseImport_none, afterImport?_importLine hname, Option.map_some,
    List.append_cons, List.length_append, Nat.add_sub_cancel_right]

/-- Whether an import starts in whole lines does not depend on the line that closes it. -/
theorem Unrecognised.of_closes {previous : Option Char} {front back other : Text}
    (hfront : EndsLine front) (hback : ClosesImport back) (hother : ClosesImport other)
    (h : Unrecognised recogniseImport previous front back) :
    Unrecognised recogniseImport previous front other := by
  intro before rest hcut hne
  have hrest : EndsLine rest := EndsLine.of_append (hcut ▸ hfront)
  obtain ⟨init, rfl⟩ := hrest.exists_concat hne
  obtain hstart | hnone := recogniseImport_eq_or (lastOf previous before)
  · have hold := h before (init ++ ['\n']) hcut hne
    rw [hstart, recogniseImport_none, Option.map_eq_none_iff, ← Option.not_isSome_iff_eq_none,
      List.append_assoc, List.singleton_append] at hold ⊢
    rw [isSome_afterImport?_append hback] at hold
    rwa [isSome_afterImport?_append hother]
  · exact hnone _

/-- The search goes on behind the canonical line as in a text of its own. -/
theorem segmentsFrom_importLine {name : Text} (hname : ∀ c ∈ name, isQuote c = false)
    {previous : Option Char} (hstart : recogniseImport previous = recogniseImport none)
    (back : Text) :
    segmentsFrom recogniseImport 0 previous (importLine name ++ '\n' :: back) =
      .found [] :: segments recogniseImport back := by
  have hfound := recogniseImport_importLine hname back
  rw [← hstart, List.append_cons] at hfound
  rw [List.append_cons, segmentsFrom_of_recognised (by simp) hfound, lastOf_concat,
    segmentsFrom_congr recogniseImport_feed, segments]

/-- A front has no import, with a quote behind it, if none is recognised in it. -/
theorem occurrences_quote_iff {front : Text} :
    occurrences recogniseImport (front ++ ['"']) = [] ↔
      Unrecognised recogniseImport none front ['"'] := by
  rw [occurrences_eq_nil_iff, unrecognised_append_iff, List.append_nil, and_iff_left]
  refine unrecognised_cons_iff.mpr ⟨?_, unrecognised_nil _ _⟩
  obtain hstart | hnone := recogniseImport_eq_or (lastOf none front)
  · rw [hstart]
    rfl
  · exact hnone _

/-- Whole lines in which nothing is opened, the canonical line, and a text without imports. -/
theorem segments_append_importLine {name front back : Text}
    (hname : ∀ c ∈ name, isQuote c = false) (hends : EndsLine front)
    (hfront : occurrences recogniseImport (front ++ ['"']) = [])
    (hback : occurrences recogniseImport back = []) :
    segments recogniseImport (front ++ (importLine name ++ '\n' :: back)) =
      front.map .plain ++ .found [] :: back.map .plain := by
  have hclear : Unrecognised recogniseImport none front (importLine name ++ '\n' :: back) :=
    (occurrences_quote_iff.mp hfront).of_closes hends closesImport_quote
      (closesImport_importLine name _)
  have hplain : segments recogniseImport back = back.map .plain :=
    segmentsFrom_eq_map_iff.mpr (occurrences_eq_nil_iff.mp hback)
  rw [segments, segmentsFrom_append hclear,
    segmentsFrom_importLine hname (recogniseImport_lastOf hends rfl), hplain]

/-- A text between two line starts is cut behind a line that begins it. -/
theorem exists_of_append_line {line front back after : Text} (hline : '\n' ∉ line)
    (hends : EndsLine front) (hne : front ≠ [])
    (h : line ++ '\n' :: after = front ++ back) :
    ∃ later, EndsLine later ∧ after = later ++ back := by
  obtain ⟨init, rfl⟩ := hends.exists_concat hne
  rw [List.append_assoc, List.singleton_append, List.append_eq_append_iff] at h
  obtain ⟨later, rfl, hlater⟩ | ⟨later, rfl, hlater⟩ := h
  · cases later with
    | nil => exact ⟨[], .inl rfl, (List.cons.inj hlater).2⟩
    | cons c later =>
      obtain ⟨rfl, rfl⟩ := List.cons.inj hlater
      exact ⟨later ++ ['\n'], .inr List.getLast?_concat, by simp⟩
  · cases later with
    | nil => exact ⟨[], .inl rfl, (List.cons.inj hlater).2.symm⟩
    | cons c later =>
      obtain ⟨rfl, _⟩ := List.cons.inj hlater
      simp at hline

/-- Where the canonical line is the only import, it is the one behind the whole lines. -/
theorem eq_front_of_unrecognised {name front back before after : Text}
    (hname : ∀ c ∈ name, isQuote c = false) (hline : '\n' ∉ name) (hends : EndsLine front)
    (ht : front ++ (importLine name ++ '\n' :: back) =
      before ++ (importLine name ++ '\n' :: after))
    (hbefore : Unrecognised recogniseImport none before (importLine name ++ '\n' :: after))
    (hafter : Unrecognised recogniseImport none after []) : before = front := by
  have hfound := recogniseImport_importLine hname back
  obtain ⟨rest, rfl, hrest⟩ | ⟨rest, rfl, hrest⟩ := List.append_eq_append_iff.mp ht
  · -- The line behind `front` stands in the part in which nothing is recognised.
    by_cases hne : rest = []
    · rw [hne, List.append_nil]
    · have hnone := hbefore front rest rfl hne
      rw [← hrest, recogniseImport_lastOf hends rfl, hfound] at hnone
      cases hnone
  · -- The line stands behind the first import, whose own line ends within `front`.
    by_cases hne : rest = []
    · rw [hne, List.append_nil]
    · have hfeed : '\n' ∉ importLine name := by
        rw [importLine_eq]
        simp [hline]
      obtain ⟨later, hlater, rfl⟩ := exists_of_append_line hfeed hends.of_append hne hrest
      have hnone := hafter later _ rfl (by simp)
      rw [recogniseImport_lastOf hlater rfl, List.append_nil, hfound] at hnone
      cases hnone

/-- Between texts without imports the import line is the only import. -/
theorem holdsSoleImport_iff {name front back : Text} (hname : ∀ c ∈ name, isQuote c = false)
    (hline : '\n' ∉ name) (hends : EndsLine front) :
    HoldsSoleImport name (front ++ (importLine name ++ '\n' :: back)) ↔
      occurrences recogniseImport (front ++ ['"']) = [] ∧
        occurrences recogniseImport back = [] := by
  constructor
  · rintro ⟨before, after, ht, hsegments⟩
    obtain ⟨rest, hcut, hbefore, hrest⟩ := exists_of_segmentsFrom_eq hsegments
    obtain rfl : importLine name ++ '\n' :: after = rest :=
      List.append_cancel_left (ht.symm.trans hcut)
    obtain ⟨length, hfound⟩ := exists_of_segmentsFrom_eq_found hrest
    have hstart : recogniseImport (lastOf none before) = recogniseImport none :=
      (recogniseImport_eq_or _).resolve_right fun hnone => by
        rw [hnone] at hfound
        cases hfound
    rw [segmentsFrom_importLine hname hstart, List.cons.injEq] at hrest
    have hafter := segmentsFrom_eq_map_iff.mp hrest.2
    obtain rfl := eq_front_of_unrecognised hname hline hends ht hbefore hafter
    obtain rfl : back = after := by simpa using ht
    exact ⟨occurrences_quote_iff.mpr
      (hbefore.of_closes hends (closesImport_importLine name _) closesImport_quote),
      occurrences_eq_nil_iff.mpr hafter⟩
  · rintro ⟨hfront, hback⟩
    exact ⟨front, back, rfl, segments_append_importLine hname hends hfront hback⟩

/-- An occurrence is taken out between the front and the back. -/
theorem replaceOccurrences_of_segments {t front back : Text}
    (h : segments recogniseImport t = front.map .plain ++ .found [] :: back.map .plain) :
    replaceOccurrences recogniseImport t = front ++ back := by
  rw [replaceOccurrences, h]
  simp [List.flatMap_map]

/-- Taking the sole import out takes out its line. -/
theorem HoldsSoleImport.length_replaceOccurrences {name t : Text} (h : HoldsSoleImport name t) :
    (replaceOccurrences recogniseImport t).length + (importLine name).length + 1 = t.length := by
  obtain ⟨before, after, ht, hsegments⟩ := h
  rw [replaceOccurrences_of_segments hsegments, ht]
  simp only [List.length_append, List.length_cons]
  omega

/-- The import line is set behind the preamble. -/
theorem setImport_eq {source pre rest : Text} (name : Text)
    (hbare : replaceOccurrences recogniseImport source = pre ++ rest)
    (hplace : preambleLength (pre ++ rest) = pre.length) :
    setImport source name = endLine pre ++ (importLine name ++ '\n' :: rest) := by
  rw [setImport, hbare, hplace, List.take_left, List.drop_left]
  simp

/-- The canonical line is the only import of the result exactly if the source without its imports is
clear of imports, and then setting it again changes nothing. -/
theorem setImport_sole_iff (source name : Text) (hname : ∀ c ∈ name, isQuote c = false)
    (hline : '\n' ∉ name) :
    (HoldsSoleImport name (setImport source name) ↔ ClearOfImports source) ∧
      (ClearOfImports source →
        setImport (setImport source name) name = setImport source name) := by
  obtain ⟨pre, rest, hbare, hplace, hagain⟩ :=
    exists_preamble (replaceOccurrences recogniseImport source)
  have hends := endsLine_endLine pre
  have hclear : ClearOfImports source ↔
      occurrences recogniseImport (endLine pre ++ ['"']) = [] ∧
        occurrences recogniseImport rest = [] := by
    rw [ClearOfImports, hplace, hbare, List.take_left, List.drop_left]
  rw [hclear, setImport_eq name hbare (hbare ▸ hplace)]
  refine ⟨holdsSoleImport_iff hname hline hends, fun ⟨hfront, hrest⟩ => ?_⟩
  have hsegments := segments_append_importLine hname hends hfront hrest
  rw [setImport_eq name (replaceOccurrences_of_segments hsegments) hagain, hends.endLine_eq]

/-- An import behind a directive is replaced, and the new one is the only one. -/
theorem setImport_sole_iff_directive :
    ClearOfImports "'use client' \nimport styles from 'a'\nx".toList ∧
      HoldsSoleImport "A.css".toList
        (setImport "'use client' \nimport styles from 'a'\nx".toList "A.css".toList) ∧
      setImport (setImport "'use client' \nimport styles from 'a'\nx".toList "A.css".toList)
          "A.css".toList =
        setImport "'use client' \nimport styles from 'a'\nx".toList "A.css".toList := by
  have hclear : ClearOfImports "'use client' \nimport styles from 'a'\nx".toList := by
    decide +kernel
  obtain ⟨hsole, hagain⟩ := setImport_sole_iff "'use client' \nimport styles from 'a'\nx".toList
    "A.css".toList (by simp [isQuote]) (by decide)
  exact ⟨hclear, hsole.mpr hclear, hagain hclear⟩

/-- Setting the import does not always leave one: a second import in the line of the first stays,
an import in the line of a leading comment gets a line of its own, and an import opened in a leading
comment takes in the start of the new line. -/
theorem setImport_not_sole :
    ["import styles from \"a\"; import styles from \"b\"".toList,
        "/* c */ import styles from \"a\"".toList,
        "/*\nimport styles from \"*/".toList].Forall fun source =>
      ¬ HoldsSoleImport "A.module.css".toList (setImport source "A.module.css".toList) ∧
        setImport (setImport source "A.module.css".toList) "A.module.css".toList ≠
          setImport source "A.module.css".toList := by
  have hlength : ∀ source ∈ ["import styles from \"a\"; import styles from \"b\"".toList,
        "/* c */ import styles from \"a\"".toList, "/*\nimport styles from \"*/".toList],
      (replaceOccurrences recogniseImport (setImport source "A.module.css".toList)).length +
          (importLine "A.module.css".toList).length + 1 ≠
            (setImport source "A.module.css".toList).length ∧
        setImport (setImport source "A.module.css".toList) "A.module.css".toList ≠
          setImport source "A.module.css".toList := by
    decide +kernel
  refine List.forall_iff_forall_mem.mpr fun source hsource => ?_
  obtain ⟨hne, hagain⟩ := hlength source hsource
  exact ⟨fun hsole => hne hsole.length_replaceOccurrences, hagain⟩

end StyleModules
