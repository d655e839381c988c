import StyleModules.Text.Basic

/-!
# Strings with halves of characters

A character beyond the first plane can be written as two halves, and a document can name a half
that has no other beside it. Such a half is no character. A string that holds one equals no text,
and no file can hold it.

Main statement: a text is the only text that its code points spell (`CodeText.text?_points`).
-/

namespace StyleModules

/-- A code point: a character, or a half of one that stands alone. -/
inductive CodePoint where
  /-- A character. -/
  | char (c : Char)
  /-- A half of a character, by its position among all halves. -/
  | half (offset : Fin 0x800)
  deriving DecidableEq, Repr

namespace CodePoint

/-- The number of a code point. -/
def code : CodePoint → Nat
  | char c => c.toNat
  | half offset => 0xD800 + offset.val

/-- The code point of a number. -/
def ofCode (n : Nat) : CodePoint :=
  if h : n - 0xD800 < 0x800 ∧ 0xD800 ≤ n then half ⟨n - 0xD800, h.1⟩ else char (Char.ofNat n)

/-- The character, if this is one. -/
def char? : CodePoint → Option Char
  | char c => some c
  | half _ => none

/-- The number of a character is that of no half. -/
theorem ofCode_toNat (c : Char) : ofCode c.toNat = char c := by
  have hvalid : c.toNat.isValidChar := c.valid
  simp only [Nat.isValidChar] at hvalid
  rw [ofCode, dif_neg (by omega), Char.ofNat_toNat]

end CodePoint

/-- A string of code points. -/
abbrev CodeText := List CodePoint

/-- The code points of a text. -/
def Text.points (t : Text) : CodeText := t.map .char

/-- The text that a string spells, unless it holds a half. -/
def CodeText.text? : CodeText → Option Text
  | [] => some []
  | point :: rest => do
    let c ← point.char?
    let t ← text? rest
    return c :: t

/-- The code points of a text spell it. -/
@[simp] theorem CodeText.text?_points (t : Text) : CodeText.text? t.points = some t := by
  induction t with
  | nil => rfl
  | cons c t ih =>
    show ((CodeText.text? (Text.points t)).bind fun t => some (c :: t)) = some (c :: t)
    rw [ih, Option.bind_some]

/-- The strings that a specification is made of: texts, or strings of code points as they are
stored. Every text is one of them. -/
class Script (σ : Type) where
  /-- The string of a text. -/
  ofText : Text → σ
  /-- The code points of a string. -/
  points : σ → CodeText
  /-- A text keeps its code points. -/
  points_ofText : ∀ t, points (ofText t) = t.points

instance : Script Text := ⟨id, Text.points, fun _ => rfl⟩

instance : Script CodeText := ⟨Text.points, id, fun _ => rfl⟩

/-- The text that a string spells, unless it holds a half. -/
def Script.text? {σ : Type} [Script σ] (s : σ) : Option Text := CodeText.text? (Script.points s)

/-- Different texts are different strings. -/
theorem Script.ofText_injective {σ : Type} [Script σ] {t u : Text}
    (h : (Script.ofText t : σ) = Script.ofText u) : t = u := by
  have hpoints : t.points = u.points := by
    rw [← Script.points_ofText (σ := σ) t, h, Script.points_ofText]
  have hsome := congrArg CodeText.text? hpoints
  rwa [CodeText.text?_points, CodeText.text?_points, Option.some.injEq] at hsome

/-- A text spells itself. -/
@[simp] theorem Script.text?_text (t : Text) : Script.text? t = some t := CodeText.text?_points t

end StyleModules
