import StyleModules.Proofs.Json.ReadBack

/-!
# Integers of too many digits

A document whose first item is an integer of more digits than the limit is not read, and not
malformed either (`JsonValue.read_digits`).
-/

namespace StyleModules

open JsonReader

/-- No word stands for a value where a digit stands. -/
theorem JsonReader.find?_words_of_digit {c : Char} (hc : c.isDigit = true) (t : Text) :
    words.find? (·.1.isPrefixOf (c :: t)) = none := by
  rw [List.find?_eq_none]
  have hother : ∀ d : Char, d.isDigit = false → (d == c) = false := by
    intro d hd
    rw [beq_eq_false_iff_ne]
    rintro rfl
    exact Bool.false_ne_true (hd.symm.trans hc)
  intro entry hentry
  simp only [words, List.mem_cons, List.not_mem_nil, or_false] at hentry
  rcases hentry with rfl | rfl | rfl | rfl | rfl | rfl <;>
    simp [List.isPrefixOf, hother]

/-- The digits of an item that ends its array are one number, if the first is not zero. -/
theorem JsonReader.numberLength_digits {c : Char} {digits : Text} (hc : c.isDigit = true)
    (hzero : c ≠ '0') (hdigits : ∀ d ∈ digits, d.isDigit = true) (t : Text) :
    numberLength (c :: (digits ++ ']' :: t)) = digits.length + 1 := by
  have hsign : c ≠ '-' := by
    rintro rfl
    exact absurd hc (by decide)
  have hrun : digitRun (c :: (digits ++ ']' :: t)) = digits.length + 1 := by
    have htake : (digits ++ ']' :: t).takeWhile Char.isDigit = digits := by
      rw [List.takeWhile_append_of_pos hdigits]
      simp
    rw [digitRun, List.takeWhile_cons_of_pos hc, htake, List.length_cons]
  have hdrop : (c :: (digits ++ ']' :: t)).drop (digits.length + 1) = ']' :: t := by simp
  unfold numberLength
  split
  · next heq => exact absurd (List.cons.inj heq).1 hsign
  · simp only [List.drop_zero, wholeLength, beq_eq_false_iff_ne.mpr hzero, hrun, hdrop,
      Nat.zero_add, Bool.false_eq_true, if_false]
    cases t <;> simp [fractionLength, exponentLength]

/-- A number of too many digits is refused. -/
theorem JsonReader.readScalar_digits {c : Char} {digits : Text} (hc : c.isDigit = true)
    (hzero : c ≠ '0') (hdigits : ∀ d ∈ digits, d.isDigit = true) (t : Text)
    (hlong : digitLimit ≤ digits.length) :
    readScalar (c :: (digits ++ ']' :: t)) = .error (.longInteger (digits.length + 1)) := by
  have htake : (c :: (digits ++ ']' :: t)).take (digits.length + 1) = c :: digits := by simp
  have hall : ∀ d ∈ c :: digits, d.isDigit = true := List.forall_mem_cons.mpr ⟨hc, hdigits⟩
  have hcount : integerDigits (c :: digits) = digits.length + 1 := by
    rw [integerDigits, if_pos (List.all_eq_true.mpr fun d hd => by rw [hall d hd, Bool.true_or]),
      List.countP_eq_length.mpr hall, List.length_cons]
  simp only [readScalar, find?_words_of_digit hc, numberLength_digits hc hzero hdigits, htake,
    hcount]
  rw [if_neg (by simp), if_pos (by omega)]

/-- An array that starts with an integer of too many digits is not read. -/
theorem JsonValue.read_digits {c : Char} {digits : Text} (hc : c.isDigit = true)
    (hzero : c ≠ '0') (hdigits : ∀ d ∈ digits, d.isDigit = true) (t : Text)
    (hlong : digitLimit ≤ digits.length) :
    read ('[' :: c :: (digits ++ ']' :: t)) = .error (.longInteger (digits.length + 1)) := by
  have hspace : isJsonSpace c = false := by
    rw [← Bool.not_eq_true]
    intro h
    simp only [isJsonSpace, Bool.or_eq_true, beq_iff_eq] at h
    rcases h with ((rfl | rfl) | rfl) | rfl <;> exact absurd hc (by decide)
  have hvalue : ∀ fuel, readValue (fuel + 1) (c :: (digits ++ ']' :: t)) =
      .error (.longInteger (digits.length + 1)) := by
    intro fuel
    unfold readValue
    split
    · next heq => exact absurd ((List.cons.inj heq).1 ▸ hc) (by decide)
    · next heq => exact absurd ((List.cons.inj heq).1 ▸ hc) (by decide)
    · next heq => exact absurd ((List.cons.inj heq).1 ▸ hc) (by decide)
    · exact readScalar_digits hc hzero hdigits t hlong
  have hclose : c ≠ ']' := by
    rintro rfl
    exact absurd hc (by decide)
  have harray : ∀ fuel, readValue (fuel + 3) ('[' :: c :: (digits ++ ']' :: t)) =
      .error (.longInteger (digits.length + 1)) := by
    intro fuel
    have hitems : readItems (fuel + 2) (c :: (digits ++ ']' :: t)) =
        .error (.longInteger (digits.length + 1)) := by
      rw [readItems, hvalue]
    rw [readValue, skipSpaces_of_head hspace]
    split
    · next heq => exact absurd (List.cons.inj heq).1 hclose
    · rw [hitems]
  have hfuel : 2 * ('[' :: c :: (digits ++ ']' :: t)).length + 1 =
      2 * (c :: (digits ++ ']' :: t)).length + 3 := by
    rw [List.length_cons]
    omega
  rw [read, if_neg (by simp), skipSpaces_of_head rfl, hfuel, harray]

end StyleModules
