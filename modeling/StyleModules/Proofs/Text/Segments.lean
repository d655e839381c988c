import Mathlib.Data.List.Basic
import StyleModules.Text.Segment

/-!
# What a search finds, and where

A text is cut from left to right. A front in which nothing is recognised, whatever stands behind it,
is cut into single characters (`segmentsFrom_append`), and an occurrence is skipped as a whole
(`segmentsFrom_of_recognised`). Read the other way, single characters at the start of the segments
are a front in which nothing is recognised (`exists_of_segmentsFrom_eq`). So a text has no
occurrence exactly if nothing is recognised at any of its places (`occurrences_eq_nil_iff`).
-/

namespace StyleModules

variable {α : Type} {recognise : Recogniser α}

/-- The character before what stands behind the text. -/
def lastOf (previous : Option Char) (t : Text) : Option Char := t.getLast?.or previous

/-- No text leaves the character before it the last. -/
@[simp] theorem lastOf_nil (previous : Option Char) : lastOf previous [] = previous := rfl

/-- The first character comes before the rest. -/
@[simp] theorem lastOf_cons (previous : Option Char) (c : Char) (t : Text) :
    lastOf previous (c :: t) = lastOf (some c) t := by
  rw [lastOf, lastOf, List.getLast?_cons, Option.some_or]
  cases t.getLast? <;> rfl

/-- The last character is the one at the end. -/
@[simp] theorem lastOf_concat (previous : Option Char) (t : Text) (c : Char) :
    lastOf previous (t ++ [c]) = some c := by
  rw [lastOf, List.getLast?_concat, Option.some_or]

/-- Nothing is recognised at any place of the front, with the back behind it. -/
def Unrecognised (recognise : Recogniser α) (previous : Option Char) (front back : Text) : Prop :=
  ∀ before rest, front = before ++ rest → rest ≠ [] →
    recognise (lastOf previous before) (rest ++ back) = none

/-- Nothing is recognised in the empty text. -/
theorem unrecognised_nil (previous : Option Char) (back : Text) :
    Unrecognised recognise previous [] back := by
  intro before rest h hrest
  exact absurd (List.append_eq_nil_iff.mp h.symm).2 hrest

/-- Nothing is recognised from a character on, if not there and not behind it. -/
theorem unrecognised_cons_iff {previous : Option Char} {c : Char} {front back : Text} :
    Unrecognised recognise previous (c :: front) back ↔
      recognise previous (c :: (front ++ back)) = none ∧
        Unrecognised recognise (some c) front back := by
  constructor
  · intro h
    refine ⟨h [] (c :: front) rfl (List.cons_ne_nil c front), fun before rest hfront hrest => ?_⟩
    rw [← lastOf_cons previous]
    exact h (c :: before) rest (congrArg (c :: ·) hfront) hrest
  · rintro ⟨hfirst, htail⟩ before rest hfront hrest
    cases before with
    | nil =>
      rw [List.nil_append] at hfront
      rw [← hfront]
      exact hfirst
    | cons d before =>
      obtain ⟨rfl, htails⟩ := List.cons.inj hfront
      rw [lastOf_cons]
      exact htail before rest htails hrest

/-- Nothing is recognised in two texts in a row, if not in the first and not in the second. -/
theorem unrecognised_append_iff {previous : Option Char} {front middle back : Text} :
    Unrecognised recognise previous (front ++ middle) back ↔
      Unrecognised recognise previous front (middle ++ back) ∧
        Unrecognised recognise (lastOf previous front) middle back := by
  induction front generalizing previous with
  | nil => simp [unrecognised_nil]
  | cons c front ih =>
    rw [List.cons_append, unrecognised_cons_iff, unrecognised_cons_iff, ih, lastOf_cons,
      List.append_assoc, and_assoc]

/-- The character before a text matters only to what is recognised at its start. -/
theorem segmentsFrom_congr {previous other : Option Char} (h : recognise previous = recognise other)
    (t : Text) :
    segmentsFrom recognise 0 previous t = segmentsFrom recognise 0 other t := by
  cases t with
  | nil => rfl
  | cons c t => rw [segmentsFrom, segmentsFrom, h]

/-- Cutting a front in which nothing is recognised gives its characters. -/
theorem segmentsFrom_append {previous : Option Char} {front back : Text}
    (h : Unrecognised recognise previous front back) :
    segmentsFrom recognise 0 previous (front ++ back) =
      front.map .plain ++ segmentsFrom recognise 0 (lastOf previous front) back := by
  induction front generalizing previous with
  | nil => rfl
  | cons c front ih =>
    obtain ⟨hfirst, htail⟩ := unrecognised_cons_iff.mp h
    rw [List.cons_append, segmentsFrom, hfirst, ih htail, lastOf_cons]
    rfl

/-- Skipped characters are passed over. -/
theorem segmentsFrom_skip (recognise : Recogniser α) (previous : Option Char)
    (skipped back : Text) :
    segmentsFrom recognise skipped.length previous (skipped ++ back) =
      segmentsFrom recognise 0 (lastOf previous skipped) back := by
  induction skipped generalizing previous with
  | nil => rfl
  | cons c skipped ih =>
    rw [List.length_cons, List.cons_append, segmentsFrom, ih, lastOf_cons]

/-- The search goes on behind an occurrence. -/
theorem segmentsFrom_of_recognised {previous : Option Char} {found back : Text} {value : α}
    (hne : found ≠ [])
    (h : recognise previous (found ++ back) = some (found.length, value)) :
    segmentsFrom recognise 0 previous (found ++ back) =
      .found value :: segmentsFrom recognise 0 (lastOf previous found) back := by
  obtain ⟨c, found, rfl⟩ := List.exists_cons_of_ne_nil hne
  rw [List.cons_append] at h ⊢
  rw [segmentsFrom, h, lastOf_cons]
  exact congrArg _ (segmentsFrom_skip recognise (some c) found back)

/-- What is cut off first was recognised at the start. -/
theorem exists_of_segmentsFrom_eq_found {previous : Option Char} {t : Text} {value : α}
    {later : List (Segment α)}
    (h : segmentsFrom recognise 0 previous t = .found value :: later) :
    ∃ length, recognise previous t = some (length, value) := by
  cases t with
  | nil => simp [segmentsFrom] at h
  | cons c t =>
    rw [segmentsFrom] at h
    split at h
    · next length found hfound =>
      rw [List.cons.injEq, Segment.found.injEq] at h
      exact ⟨length, by rw [hfound, h.1]⟩
    · simp at h

/-- Characters at the start of the segments are a front in which nothing is recognised. -/
theorem exists_of_segmentsFrom_eq {previous : Option Char} {t front : Text}
    {later : List (Segment α)}
    (h : segmentsFrom recognise 0 previous t = front.map .plain ++ later) :
    ∃ back, t = front ++ back ∧ Unrecognised recognise previous front back ∧
      segmentsFrom recognise 0 (lastOf previous front) back = later := by
  induction front generalizing previous t with
  | nil => exact ⟨t, rfl, unrecognised_nil previous t, h⟩
  | cons c front ih =>
    cases t with
    | nil => simp [segmentsFrom] at h
    | cons d t =>
      rw [segmentsFrom] at h
      split at h
      · simp at h
      · next hnone =>
        rw [List.map_cons, List.cons_append, List.cons.injEq, Segment.plain.injEq] at h
        obtain ⟨rfl, h⟩ := h
        obtain ⟨back, rfl, hfront, hback⟩ := ih h
        exact ⟨back, rfl, unrecognised_cons_iff.mpr ⟨hnone, hfront⟩, by rwa [lastOf_cons]⟩

/-- Where the segments are all single characters, they are those of the text. -/
theorem segmentsFrom_of_plain {previous : Option Char} {t : Text}
    (h : ∀ segment ∈ segmentsFrom recognise 0 previous t, ∃ c, segment = .plain c) :
    segmentsFrom recognise 0 previous t = t.map .plain := by
  induction t generalizing previous with
  | nil => rfl
  | cons c t ih =>
    rw [segmentsFrom] at h ⊢
    split at h
    · simp at h
    · rw [List.map_cons, ih fun segment hmem => h segment (List.mem_cons_of_mem _ hmem)]

/-- A text is cut into single characters exactly if nothing is recognised in it. -/
theorem segmentsFrom_eq_map_iff {previous : Option Char} {t : Text} :
    segmentsFrom recognise 0 previous t = t.map .plain ↔ Unrecognised recognise previous t [] := by
  constructor
  · intro h
    rw [← List.append_nil (t.map _)] at h
    obtain ⟨back, hback, hfront, _⟩ := exists_of_segmentsFrom_eq h
    rwa [List.self_eq_append_right.mp hback] at hfront
  · intro h
    have hsegments := segmentsFrom_append h
    rwa [List.append_nil, segmentsFrom, List.append_nil] at hsegments

/-- There is no occurrence in a text exactly if nothing is recognised at any of its places. -/
theorem occurrences_eq_nil_iff {t : Text} :
    occurrences recognise t = [] ↔ Unrecognised recognise none t [] := by
  rw [← segmentsFrom_eq_map_iff, occurrences, segments]
  constructor
  · intro h
    rw [List.filterMap_eq_nil_iff] at h
    exact segmentsFrom_of_plain fun segment hsegment => by
      cases segment with
      | plain c => exact ⟨c, rfl⟩
      | found value => cases h _ hsegment
  · intro h
    simp [h]

/-- What is found has been recognised somewhere in the text. -/
theorem exists_of_found_mem_segmentsFrom {skip : Nat} {previous : Option Char} {t : Text}
    {value : α} (h : .found value ∈ segmentsFrom recognise skip previous t) :
    ∃ before rest length, rest <:+ t ∧ recognise before rest = some (length, value) := by
  fun_induction segmentsFrom recognise skip previous t with
  | case1 => simp at h
  | case2 skip previous c rest ih =>
    obtain ⟨before, place, length, hplace, hr⟩ := ih h
    exact ⟨before, place, length, hplace.trans (List.suffix_cons c rest), hr⟩
  | case3 previous c rest length found hr ih =>
    rcases List.mem_cons.mp h with h | h
    · exact ⟨_, _, length, List.suffix_refl _, by rw [hr, Segment.found.inj h]⟩
    · obtain ⟨before, place, length, hplace, hr⟩ := ih h
      exact ⟨before, place, length, hplace.trans (List.suffix_cons c rest), hr⟩
  | case4 previous c rest hr ih =>
    rcases List.mem_cons.mp h with h | h
    · cases h
    · obtain ⟨before, place, length, hplace, hr⟩ := ih h
      exact ⟨before, place, length, hplace.trans (List.suffix_cons c rest), hr⟩

/-- A value that occurs was recognised somewhere in the text. -/
theorem exists_of_mem_occurrences {α : Type} {recognise : Recogniser α} {t : Text} {value : α}
    (h : value ∈ occurrences recognise t) :
    ∃ before rest length, rest <:+ t ∧ recognise before rest = some (length, value) := by
  obtain ⟨segment, hs, hv⟩ := List.mem_filterMap.mp h
  cases segment with
  | plain c => simp at hv
  | found found =>
    obtain rfl : found = value := by simpa using hv
    exact exists_of_found_mem_segmentsFrom hs

/-- Characters that are kept are those of the text. -/
theorem mem_of_plain_mem_segmentsFrom {skip : Nat} {previous : Option Char} {t : Text} {c : Char}
    (h : .plain c ∈ segmentsFrom recognise skip previous t) : c ∈ t := by
  fun_induction segmentsFrom recognise skip previous t with
  | case1 => cases h
  | case2 skip _ d rest ih => exact List.mem_cons_of_mem d (ih h)
  | case3 _ d rest _ _ _ ih =>
    rcases List.mem_cons.mp h with h | h
    · cases h
    · exact List.mem_cons_of_mem d (ih h)
  | case4 _ d rest _ ih =>
    rcases List.mem_cons.mp h with h | h
    · rw [Segment.plain.inj h]
      exact List.mem_cons_self
    · exact List.mem_cons_of_mem d (ih h)

end StyleModules
