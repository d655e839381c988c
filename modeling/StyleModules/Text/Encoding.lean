import StyleModules.Text.Basic

/-!
# Text in files

A file holds bytes. Reading decodes them as strict UTF-8 and turns every line end, whether a line
feed, a carriage return or both in that order, into a line feed. Writing encodes the text as it is.
A text without carriage returns is therefore read back as it was written.
-/

namespace StyleModules

/-- Every line end becomes one line feed. -/
def universalNewlines : Text → Text
  | [] => []
  | '\r' :: '\n' :: rest => '\n' :: universalNewlines rest
  | c :: rest => (if c = '\r' then '\n' else c) :: universalNewlines rest

/-- The bytes of a text. -/
def encodeText (t : Text) : ByteArray := (String.ofList t).toUTF8

/-- The text of bytes that are well-formed UTF-8. -/
def decodeText? (bytes : ByteArray) : Option Text :=
  (String.fromUTF8? bytes).map fun s => universalNewlines s.toList

/-- Without a carriage return there is nothing to change. -/
theorem universalNewlines_of_no_return {t : Text} (h : '\r' ∉ t) : universalNewlines t = t := by
  fun_induction universalNewlines t with
  | case1 => rfl
  | case2 => simp at h
  | case3 c rest _ ih =>
    simp only [List.mem_cons, not_or] at h
    rw [if_neg (Ne.symm h.1), ih h.2]

/-- A written text is read back up to its line ends. -/
theorem decodeText?_encodeText (t : Text) :
    decodeText? (encodeText t) = some (universalNewlines t) := by
  have h : (String.ofList t).toUTF8.IsValidUTF8 := (String.ofList t).isValidUTF8
  have hs : String.fromUTF8? (String.ofList t).toUTF8 = some (String.ofList t) := by
    rw [String.fromUTF8?, dif_pos h]
    rfl
  rw [decodeText?, encodeText, hs, Option.map_some, String.toList_ofList]

end StyleModules
