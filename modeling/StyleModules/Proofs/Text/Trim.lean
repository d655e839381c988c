import Mathlib.Data.List.DropRight
import StyleModules.Text.Basic

/-!
# Trimmed texts

A text is trimmed if trimming leaves it as it is: neither its first nor its last character is
blank. Trimming cuts a text into blanks, a trimmed text and blanks, and blanks put around a text
make no difference to what trimming gives.
-/

namespace StyleModules.Text

/-- A character at the end is dropped with those before it, or keeps them. -/
theorem dropEndWhile_concat (p : Char → Bool) (t : Text) (c : Char) :
    dropEndWhile p (t ++ [c]) = if p c then dropEndWhile p t else t ++ [c] := by
  induction t with
  | nil => simp [dropEndWhile]
  | cons d t ih =>
    rw [List.cons_append, dropEndWhile, ih]
    by_cases hc : p c = true
    · simp only [hc, ite_true, dropEndWhile]
    · simp only [hc]
      cases t <;> rfl

/-- Characters with the property make no difference at the end. -/
theorem dropEndWhile_append_of_all {p : Char → Bool} {rest : Text} (h : ∀ c ∈ rest, p c = true)
    (t : Text) : dropEndWhile p (t ++ rest) = dropEndWhile p t := by
  induction rest using List.reverseRecOn with
  | nil => rw [List.append_nil]
  | append_singleton rest c ih =>
    rw [← List.append_assoc, dropEndWhile_concat, if_pos (h c (by simp))]
    exact ih fun d hd => h d (List.mem_append_left _ hd)

/-- Removing from the end is the library's `rdropWhile`. -/
theorem dropEndWhile_eq_rdropWhile (p : Char → Bool) (t : Text) :
    dropEndWhile p t = t.rdropWhile p := by
  induction t using List.reverseRecOn with
  | nil => rfl
  | append_singleton t c ih => rw [dropEndWhile_concat, List.rdropWhile_concat, ih]

/-- A text keeps its end exactly when its last character lacks the property. -/
theorem dropEndWhile_eq_self_iff (p : Char → Bool) (t : Text) :
    dropEndWhile p t = t ↔ ∀ c ∈ t.getLast?, p c = false := by
  rw [dropEndWhile_eq_rdropWhile, List.rdropWhile_eq_self_iff]
  constructor
  · intro h c hc
    obtain ⟨hne, rfl⟩ := List.mem_getLast?_eq_getLast hc
    simpa using h hne
  · intro h hne
    simp [h _ (List.getLast_mem_getLast? hne)]

/-- What is left after removing from the end lacks the property at its end. -/
theorem getLast?_dropEndWhile {p : Char → Bool} {t : Text} {c : Char}
    (h : c ∈ (dropEndWhile p t).getLast?) : p c = false :=
  (dropEndWhile_eq_self_iff p _).mp (dropEndWhile_idem p t) c h

/-- What is left after removing from the start lacks the property at its start. -/
theorem head?_dropWhile {p : Char → Bool} {t : Text} {c : Char}
    (h : c ∈ (t.dropWhile p).head?) : p c = false := by
  have hn := List.head?_dropWhile_not p t
  rw [Option.mem_def] at h
  rwa [h] at hn

/-- Trimming takes blanks from either end and nothing else. -/
theorem exists_trim (t : Text) :
    ∃ before after, t = before ++ trim t ++ after ∧ before.all isBlank = true ∧
      after.all isBlank = true := by
  obtain ⟨after, ha, hb⟩ := dropEndWhile_append isBlank (trimStart t)
  refine ⟨t.takeWhile isBlank, after, ?_, List.all_takeWhile, hb⟩
  rw [List.append_assoc, show trim t ++ after = trimStart t from ha.symm]
  exact (List.takeWhile_append_dropWhile ..).symm

/-- A text that begins with no blank loses blanks at its end only. -/
theorem exists_trim_append {t : Text} (h : ∀ c ∈ t.head?, isBlank c = false) :
    ∃ blanks, t = trim t ++ blanks ∧ blanks.all isBlank = true := by
  have hstart : trimStart t = t := by
    cases t with
    | nil => rfl
    | cons c t => exact List.dropWhile_cons_of_neg (by simp [h c rfl])
  rw [trim, hstart]
  exact dropEndWhile_append isBlank t

/-- A text that ends with no blank loses blanks at its start only. -/
theorem exists_append_trim {t : Text} (h : ∀ c ∈ t.getLast?, isBlank c = false) :
    ∃ blanks, t = blanks ++ trim t ∧ blanks.all isBlank = true := by
  have hsplit : t.takeWhile isBlank ++ trimStart t = t := List.takeWhile_append_dropWhile
  have hend : trim t = trimStart t := by
    refine (dropEndWhile_eq_self_iff isBlank _).mpr fun c hc => h c ?_
    rw [← hsplit, List.getLast?_append, Option.mem_def.mp hc]
    rfl
  exact ⟨t.takeWhile isBlank, by rw [hend, hsplit], List.all_takeWhile⟩

/-- The first character of what trimming leaves is not blank. -/
theorem head?_trim {t : Text} {c : Char} (h : c ∈ (trim t).head?) : isBlank c = false := by
  obtain ⟨after, ha, _⟩ := dropEndWhile_append isBlank (trimStart t)
  have hs : c ∈ (trimStart t).head? := by
    rw [ha, show dropEndWhile isBlank (trimStart t) = trim t from rfl, List.head?_append]
    rw [Option.mem_def] at h
    rw [h]
    rfl
  exact head?_dropWhile hs

/-- A text is trimmed exactly when it has no blank at either end. -/
theorem trim_eq_self_iff (t : Text) :
    trim t = t ↔ (∀ c ∈ t.head?, isBlank c = false) ∧ (∀ c ∈ t.getLast?, isBlank c = false) := by
  constructor
  · intro h
    refine ⟨fun c hc => head?_trim (t := t) (by rwa [h]), fun c hc => ?_⟩
    have hl : c ∈ (trim t).getLast? := by rwa [h]
    exact getLast?_dropEndWhile hl
  · rintro ⟨hhead, hlast⟩
    have hs : trimStart t = t := by
      cases t with
      | nil => rfl
      | cons d t => exact List.dropWhile_cons_of_neg (by simp [hhead d rfl])
    rw [trim, hs]
    exact (dropEndWhile_eq_self_iff isBlank t).mpr hlast

/-- Trimming twice is trimming once. -/
@[simp] theorem trim_trim (t : Text) : trim (trim t) = trim t :=
  (trim_eq_self_iff _).mpr ⟨fun _ => head?_trim, fun _ => getLast?_dropEndWhile⟩

/-- Blanks in front make no difference. -/
theorem trim_blank_append {blanks : Text} (h : blanks.all isBlank = true) (t : Text) :
    trim (blanks ++ t) = trim t := by
  rw [trim, trimStart, List.dropWhile_append_of_pos (List.all_eq_true.mp h)]
  rfl

/-- Blanks at the end are trimmed. -/
theorem trimEnd_append_blank {blanks : Text} (h : blanks.all isBlank = true) (t : Text) :
    trimEnd (t ++ blanks) = trimEnd t :=
  dropEndWhile_append_of_all (List.all_eq_true.mp h) t

/-- Blanks behind make no difference. -/
theorem trim_append_blank {blanks : Text} (h : blanks.all isBlank = true) (t : Text) :
    trim (t ++ blanks) = trim t := by
  have hd : trimStart (t ++ blanks) = trimStart t ++ blanks ∨
      (trimStart t = [] ∧ trimStart (t ++ blanks) = []) := by
    unfold trimStart
    rw [List.dropWhile_append]
    split
    · next he =>
      refine Or.inr ⟨by simpa using he, ?_⟩
      exact List.dropWhile_eq_nil_iff.mpr (List.all_eq_true.mp h)
    · exact Or.inl rfl
  rcases hd with hd | ⟨hn, hd⟩
  · rw [trim, hd, trimEnd_append_blank h]
    rfl
  · rw [trim, trim, hd, hn]

end StyleModules.Text
