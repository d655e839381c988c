import StyleModules.Component.Usage
import StyleModules.Proofs.Sheet.Closed
import StyleModules.Proofs.Text.Segments

/-!
# Names of classes

The names that a component uses are made of name characters, and none occurs twice
(`nodup_extractClasses`, `isNameChar_of_mem_extractClasses`). No name character is blank, quotes
anything or ends a head. So a name that also starts like a name has a rule of its own: a point in
front of it makes a selector that is read back (`IsClassName.closedSelector`) and that mentions this
class and no other (`IsClassName.classes_emptyBlock`).
-/

namespace StyleModules

section Characters

/-- Ranges that lie apart have no code point in common. -/
theorem inRanges_of_apart {ranges others : List (Nat × Nat)}
    (h : ∀ range ∈ ranges, ∀ other ∈ others, range.2 < other.1 ∨ other.2 < range.1) {n : Nat}
    (hn : inRanges ranges n = true) : inRanges others n = false := by
  simp only [inRanges, List.any_eq_true, Bool.and_eq_true, decide_eq_true_eq] at hn
  obtain ⟨range, hr, hlow, hhigh⟩ := hn
  rw [inRanges, List.any_eq_false]
  intro other ho
  simp only [Bool.and_eq_true, decide_eq_true_eq, not_and]
  intro hother
  have := h range hr other ho
  omega

/-- A blank is no part of a name. -/
theorem isNameChar_of_isBlank {c : Char} (h : isBlank c = true) : isNameChar c = false := by
  have hascii : ∀ n < 0x80, isBlank (Char.ofNat n) = true → isNameChar (Char.ofNat n) = false := by
    decide +kernel
  by_cases hc : c.toNat < 0x80
  · rw [← Char.ofNat_toNat c] at h ⊢
    exact hascii c.toNat hc h
  · have hword : isWord c = false := by
      rw [isWord, if_neg hc]
      exact inRanges_of_apart (by decide +kernel) h
    have hhyphen : c ≠ '-' := by
      rintro rfl
      exact hc (by decide)
    rw [isNameChar, hword, beq_false_of_ne hhyphen]
    rfl

/-- A character of a head that neither ends it, nor quotes or escapes anything. -/
def isPlain (c : Char) : Bool := !endsHead c && !isQuote c && c != '\\'

/-- A part of a name is plain. -/
theorem isPlain_of_isNameChar {c : Char} (h : isNameChar c = true) : isPlain c = true := by
  by_contra hplain
  simp only [isPlain, endsHead, isQuote, Bool.and_eq_true, Bool.not_eq_true', Bool.or_eq_false_iff,
    bne_iff_ne, beq_eq_false_iff_ne, not_and_or, not_not] at hplain
  rcases hplain with (((rfl | rfl) | rfl) | rfl | rfl) | rfl <;> exact absurd h (by decide)

/-- Plain characters belong to a head. -/
theorem Token.cutHead_append_of_plain {t : Text} (h : ∀ c ∈ t, isPlain c = true) (rest : Text) :
    Token.cutHead none (t ++ rest) =
      (t ++ (Token.cutHead none rest).1, (Token.cutHead none rest).2) := by
  induction t with
  | nil => rfl
  | cons c t ih =>
    have hc := h c List.mem_cons_self
    simp only [isPlain, Bool.and_eq_true, Bool.not_eq_true', bne_iff_ne] at hc
    rw [List.cons_append, Token.cutHead, if_neg (by simp [hc.1.1]), if_neg (by simp [hc.1.2]),
      ih fun d hd => h d (List.mem_cons_of_mem c hd)]
    · rfl
    · intro d tail he _
      exact hc.2 he

end Characters

/-- The text can stand behind a point as the name of a class. -/
structure IsClassName (name : Text) : Prop where
  /-- It starts with a letter or an underscore. -/
  start : name.head?.any isNameStart = true
  /-- It is made of name characters. -/
  chars : ∀ c ∈ name, isNameChar c = true

namespace IsClassName

variable {name : Text}

/-- A class name has a first character, which starts names. -/
theorem exists_cons (h : IsClassName name) :
    ∃ c rest, name = c :: rest ∧ isNameStart c = true := by
  have hstart := h.start
  cases name with
  | nil => simp at hstart
  | cons c rest => exact ⟨c, rest, rfl, hstart⟩

/-- A class name ends in no blank. -/
theorem last_not_blank (h : IsClassName name) {c : Char} (hc : c ∈ name.getLast?) :
    isBlank c = false := by
  have hname := h.chars c (List.mem_of_mem_getLast? hc)
  cases hb : isBlank c with
  | false => rfl
  | true =>
    rw [isNameChar_of_isBlank hb] at hname
    cases hname

/-- The selector of a class is read back. -/
theorem closedSelector (h : IsClassName name) : ClosedSelector ('.' :: name) where
  ne_nil := by simp
  trimmed := by
    have hne : name ≠ [] := by
      obtain ⟨c, rest, rfl, _⟩ := h.exists_cons
      exact List.cons_ne_nil c rest
    refine (Text.trim_eq_self_iff _).mpr ⟨fun c hc => ?_, fun c hc => ?_⟩
    · rw [← Option.some.inj hc]
      decide
    · rw [List.getLast?_cons_of_ne_nil hne] at hc
      exact h.last_not_blank hc
  no_comment := rfl
  reads_back := by
    have hplain : ∀ c ∈ '.' :: name, isPlain c = true := by
      intro c hc
      rcases List.mem_cons.mp hc with rfl | hc
      · decide
      · exact isPlain_of_isNameChar (h.chars c hc)
    rw [List.append_assoc, Token.cutHead_append_of_plain hplain]
    rfl

end IsClassName

section Occurrences

/-- A text that is skipped has no segments. -/
theorem segmentsFrom_length {α : Type} (recognise : Recogniser α) (previous : Option Char)
    (t : Text) : segmentsFrom recognise t.length previous t = [] := by
  induction t generalizing previous with
  | nil => rfl
  | cons c t ih => exact ih (some c)

/-- The rule of a class mentions this class and no other. -/
theorem IsClassName.classes_emptyBlock {name : Text} (h : IsClassName name) :
    (Node.emptyBlock ('.' :: name)).classes = [name] := by
  obtain ⟨c, rest, rfl, hstart⟩ := h.exists_cons
  have htake : rest.takeWhile isNameChar = rest :=
    List.takeWhile_eq_self_iff.mpr fun d hd => h.chars d (List.mem_cons_of_mem c hd)
  have hfound : ∀ previous, recogniseClass previous ('.' :: c :: rest) =
      some (rest.length + 2, c :: rest) := by
    intro previous
    simp only [recogniseClass, hstart, htake, if_true]
  show (occurrences recogniseClass ('.' :: c :: rest)).eraseDups = [c :: rest]
  rw [occurrences, segments, segmentsFrom, hfound]
  show ((Segment.found (c :: rest) :: segmentsFrom recogniseClass (c :: rest).length (some '.')
    (c :: rest)).filterMap _).eraseDups = _
  rw [segmentsFrom_length]
  rfl

/-- A marked name is a start of the text. -/
theorem markedName?_isPrefix {t name : Text} (h : markedName? t = some name) : name <+: t := by
  fun_induction markedName? t generalizing name with
  | case1 => simp at h
  | case2 c rest inner hinner ih =>
    rw [← Option.some.inj h, List.cons_prefix_cons]
    exact ⟨rfl, ih hinner⟩
  | case3 c rest hinner hmark ih =>
    rw [← Option.some.inj h, List.cons_prefix_cons]
    exact ⟨rfl, List.nil_prefix⟩
  | case4 => simp at h

/-- Every name that is used is made of name characters. -/
theorem isNameChar_of_recogniseUsage {previous : Option Char} {t name : Text} {length : Nat}
    (h : recogniseUsage previous t = some (length, name)) : ∀ c ∈ name, isNameChar c = true := by
  unfold recogniseUsage at h
  split at h
  · next rest _ =>
    obtain ⟨marked, hm, he⟩ := Option.map_eq_some_iff.mp h
    obtain rfl : marked = name := (Prod.mk.inj he).2
    intro c hc
    exact List.all_eq_true.mp List.all_takeWhile c ((markedName?_isPrefix hm).subset hc)
  · split at h
    · next c rest _ _ =>
      split at h
      · next hstart =>
        obtain rfl : c :: rest.takeWhile isWord = name := (Prod.mk.inj (Option.some.inj h)).2
        intro d hd
        rw [isNameChar, Bool.or_eq_true]
        rcases List.mem_cons.mp hd with rfl | hd
        · exact Or.inl (isWord_of_isNameStart hstart)
        · exact Or.inl (List.all_eq_true.mp List.all_takeWhile d hd)
      · simp at h
    · simp at h

end Occurrences

section Extract

variable {code : Text}

/-- The classes a component uses are made of parts of names. -/
theorem isNameChar_of_mem_extractClasses {name : Text} (h : name ∈ extractClasses code) :
    ∀ c ∈ name, isNameChar c = true := by
  rw [extractClasses, List.mem_eraseDups] at h
  obtain ⟨previous, rest, length, _, hr⟩ := exists_of_mem_occurrences h
  exact isNameChar_of_recogniseUsage hr

/-- Without its repetitions a list has none. -/
theorem nodup_eraseDups (names : List Text) : names.eraseDups.Nodup := by
  induction hn : names.length using Nat.strong_induction_on generalizing names with
  | _ n ih =>
    cases names with
    | nil => simp
    | cons name rest =>
      rw [List.eraseDups_cons, List.nodup_cons, List.mem_eraseDups, List.mem_filter]
      refine ⟨by simp, ih _ ?_ _ rfl⟩
      rw [← hn, List.length_cons]
      exact Nat.lt_succ_of_le (List.length_filter_le _ _)

/-- A component uses no class twice. -/
theorem nodup_extractClasses (code : Text) : (extractClasses code).Nodup := nodup_eraseDups _

end Extract

end StyleModules
