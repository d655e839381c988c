import StyleModules.Json.Printer
import StyleModules.Json.Reader

/-!
# A document is read back as it was written

A text is written as numbers: a character of the first plane stands for its code, any other for two
halves. Reading the written form gives these numbers (`JsonReader.readUnits_written`), and joining
the halves gives the characters (`JsonReader.joinHalves_units`). A value that holds texts, arrays
and objects only is read back whatever stands behind it (`JsonValue.IsTextual.readsBack`): its
written form starts with a quote or a bracket and ends with the one that closes it, and every reader
needs at most as many steps as there are characters. What is written is plain ASCII and line feeds
(`JsonValue.IsTextual.isWritten`).
-/

namespace StyleModules

section Digits

/-- The last digit of a numeral. -/
theorem hexDigits_succ {width : Nat} (h : 0 < width) (n : Nat) :
    hexDigits (width + 1) n = hexDigits width (n / 16) ++ [(n % 16).digitChar] := by
  unfold hexDigits
  by_cases hn : n < 16
  · obtain ⟨less, rfl⟩ := Nat.exists_eq_succ_of_ne_zero (Nat.pos_iff_ne_zero.mp h)
    rw [Nat.div_eq_of_lt hn, Nat.mod_eq_of_lt hn, Nat.toDigits_of_lt_base hn,
      Nat.toDigits_of_lt_base (by decide)]
    exact congrArg (· ++ [n.digitChar]) (List.replicate_succ' (n := less) (a := '0'))
  · rw [Nat.toDigits_of_base_le (by decide) (Nat.le_of_not_lt hn)]
    simp only [List.length_append, List.length_singleton, Nat.add_sub_add_right, List.append_assoc]

/-- Four digits, the one of most weight first. -/
theorem hexDigits_four {n : Nat} (h : n < 65536) :
    hexDigits 4 n = [(n / 16 / 16 / 16).digitChar, (n / 16 / 16 % 16).digitChar,
      (n / 16 % 16).digitChar, (n % 16).digitChar] := by
  have hone : hexDigits 1 (n / 16 / 16 / 16) = [(n / 16 / 16 / 16).digitChar] := by
    rw [hexDigits, Nat.toDigits_of_lt_base (by omega)]
    rfl
  rw [hexDigits_succ (by decide), hexDigits_succ (by decide), hexDigits_succ (by decide), hone]
  rfl

/-- A digit has the value that it was written for. -/
theorem hexValue?_digitChar : ∀ d < 16, JsonReader.hexValue? d.digitChar = some d := by
  decide

/-- An escape by code consists of six characters, of which the last four give the code. -/
theorem codeEscape_eq {unit : Nat} (h : unit < 65536) :
    ∃ a b c d, codeEscape unit = ['\\', 'u', a, b, c, d] ∧
      JsonReader.codeUnit? a b c d = some unit := by
  refine ⟨_, _, _, _, by rw [codeEscape, hexDigits_four h]; rfl, ?_⟩
  simp only [JsonReader.codeUnit?, Option.bind_eq_bind,
    hexValue?_digitChar _ (show unit / 16 / 16 / 16 < 16 by omega),
    hexValue?_digitChar _ (Nat.mod_lt _ (show 0 < 16 by decide)), Option.bind_some]
  exact congrArg some (by omega)

end Digits

namespace JsonReader

section Strings

/-- A character of the first plane stands for its code, any other for two halves. -/
def charUnits (c : Char) : List Nat :=
  if c.toNat < 0x10000 then [c.toNat]
  else [0xD800 + (c.toNat - 0x10000) / 0x400, 0xDC00 + (c.toNat - 0x10000) % 0x400]

/-- Characters end at the last plane, and no character is a first half. -/
theorem toNat_lt (c : Char) : c.toNat < 0x110000 ∧ isHighHalf c.toNat = false := by
  have hvalid : c.toNat.isValidChar := c.valid
  simp only [Nat.isValidChar] at hvalid
  simp only [isHighHalf, Bool.and_eq_false_iff, decide_eq_false_iff_not]
  omega

/-- A number that is no first half stands for a code point of its own. -/
theorem joinHalves_cons {n : Nat} (h : isHighHalf n = false) (units : List Nat) :
    joinHalves (n :: units) = CodePoint.ofCode n :: joinHalves units := by
  cases units with
  | nil => rfl
  | cons low rest => rw [joinHalves, h, Bool.false_and, if_neg Bool.false_ne_true]

/-- Two halves that stand together are one character. -/
theorem joinHalves_pair {high low : Nat} (hhigh : isHighHalf high = true)
    (hlow : isLowHalf low = true) (units : List Nat) :
    joinHalves (high :: low :: units) = .char (joinedChar high low) :: joinHalves units := by
  rw [joinHalves, hhigh, hlow, Bool.and_self, if_pos rfl]

/-- The numbers of a character are joined to it. -/
theorem joinHalves_charUnits (c : Char) (units : List Nat) :
    joinHalves (charUnits c ++ units) = .char c :: joinHalves units := by
  obtain ⟨hlast, hhigh⟩ := toNat_lt c
  unfold charUnits
  split
  · rw [List.singleton_append, joinHalves_cons hhigh, CodePoint.ofCode_toNat]
  · rw [List.cons_append, List.singleton_append, joinHalves_pair]
    · have hcode : 0x10000 + (0xD800 + (c.toNat - 0x10000) / 0x400 - 0xD800) * 0x400 +
          (0xDC00 + (c.toNat - 0x10000) % 0x400 - 0xDC00) = c.toNat := by omega
      rw [joinedChar, hcode, Char.ofNat_toNat]
    · simp only [isHighHalf, Bool.and_eq_true, decide_eq_true_eq]
      omega
    · simp only [isLowHalf, Bool.and_eq_true, decide_eq_true_eq]
      omega

/-- Joining the halves gives the characters. -/
theorem joinHalves_units (t : Text) : joinHalves (t.flatMap charUnits) = Text.points t := by
  induction t with
  | nil => rfl
  | cons c t ih =>
    rw [List.flatMap_cons, joinHalves_charUnits, ih]
    rfl

/-- An escape by code is read as its number. -/
theorem readUnits_codeEscape {unit : Nat} (h : unit < 65536) (start : Nat) {rest : Text}
    (hrest : rest ≠ []) :
    readUnits start (codeEscape unit ++ rest) = consUnit unit (readUnits start rest) := by
  obtain ⟨a, b, c, d, hcode, hunit⟩ := codeEscape_eq h
  have hmore : rest.isEmpty = false := by simpa using hrest
  rw [hcode]
  simp only [List.cons_append, List.nil_append, readUnits, hunit, hmore]

/-- An escape by a letter is read as the character meant. -/
theorem readUnits_escaped {c meant : Char} (h : escaped? c = some meant) (hc : c ≠ 'u')
    (start : Nat) (rest : Text) :
    readUnits start ('\\' :: c :: rest) = consUnit meant.toNat (readUnits start rest) := by
  rw [readUnits]
  · simp only [h]
  · exact fun _ _ _ _ _ he => absurd he hc
  · exact hc

/-- A character that needs no escape is read as it is. -/
theorem readUnits_plain {c : Char} (hquote : c ≠ '"') (hslash : c ≠ '\\') (hc : 0x1F < c.toNat)
    (start : Nat) (rest : Text) :
    readUnits start (c :: rest) = consUnit c.toNat (readUnits start rest) := by
  rw [readUnits]
  · rw [if_neg (Nat.not_le_of_lt hc)]
  · exact hquote
  · exact fun he => absurd he hslash
  · exact fun _ _ _ _ _ he => absurd he hslash
  · exact fun _ he => absurd he hslash
  · exact fun _ _ he => absurd he hslash

/-- The written form of a character is read as its units. -/
theorem readUnits_jsonChar (c : Char) (start : Nat) {rest : Text} (hrest : rest ≠ []) :
    readUnits start (jsonChar c ++ rest) = (charUnits c).foldr consUnit (readUnits start rest) := by
  have hlast := (toNat_lt c).1
  -- A letter behind a backslash stands for a character of the first plane.
  have hletter : ∀ {letter : Char}, escaped? letter = some c → letter ≠ 'u' → c.toNat < 0x10000 →
      readUnits start (['\\', letter] ++ rest) =
        (charUnits c).foldr consUnit (readUnits start rest) := by
    intro letter he hu hc
    rw [charUnits, if_pos hc]
    exact readUnits_escaped he hu start rest
  unfold jsonChar
  split
  · next h =>
    simp only [Bool.or_eq_true, beq_iff_eq] at h
    rcases h with rfl | rfl
    · exact hletter rfl (by decide) (by decide)
    · exact hletter rfl (by decide) (by decide)
  next hspecial =>
  iterate 5
    split
    · next h => rw [beq_iff_eq.mp h] at hletter ⊢; exact hletter rfl (by decide) (by decide)
  split
  · next h =>
    simp only [Bool.or_eq_true, beq_iff_eq, not_or] at hspecial
    simp only [Bool.and_eq_true, decide_eq_true_eq] at h
    rw [charUnits, if_pos (by omega)]
    exact readUnits_plain hspecial.1 hspecial.2 (by omega) start rest
  split
  · next h =>
    rw [charUnits, if_pos h]
    exact readUnits_codeEscape h start hrest
  · next h =>
    rw [charUnits, if_neg h, List.append_assoc, readUnits_codeEscape (by omega) start,
      readUnits_codeEscape (by omega) start hrest]
    · rfl
    · exact List.append_ne_nil_of_left_ne_nil (List.cons_ne_nil _ _) _

/-- The written form of a text is read as its units, up to the quote that closes it. -/
theorem readUnits_written (t : Text) (start : Nat) (rest : Text) :
    readUnits start (t.flatMap jsonChar ++ '"' :: rest) = .ok (t.flatMap charUnits, rest) := by
  induction t with
  | nil => rw [List.flatMap_nil, List.nil_append, readUnits, List.flatMap_nil]
  | cons c t ih =>
    rw [List.flatMap_cons, List.append_assoc, readUnits_jsonChar c start (by simp), ih,
      List.flatMap_cons]
    generalize charUnits c = units
    induction units with
    | nil => rfl
    | cons unit units ih => rw [List.foldr_cons, ih, consUnit, List.cons_append]

/-- A text is read back. -/
theorem readString_written (t rest : Text) :
    readString (t.flatMap jsonChar ++ '"' :: rest) = .ok (Text.points t, rest) := by
  rw [readString, readUnits_written]
  simp only [joinHalves_units]

/-- A text is written character by character, in quotes. -/
theorem jsonString_text (t : Text) : jsonString t = '"' :: (t.flatMap jsonChar ++ ['"']) := by
  show '"' :: ((t.map CodePoint.char).flatMap jsonPoint ++ ['"']) = _
  rw [List.flatMap_map]
  rfl

end Strings

section Documents

/-- A text that does not start with a space has none to skip. -/
theorem skipSpaces_of_head {c : Char} (h : isJsonSpace c = false) (t : Text) :
    skipSpaces (c :: t) = c :: t := by
  rw [skipSpaces, List.dropWhile_cons_of_neg (by simp [h])]

/-- Indentation is skipped. -/
theorem skipSpaces_jsonBreak (depth : Nat) (t : Text) :
    skipSpaces (jsonBreak depth ++ t) = skipSpaces t := by
  have hspaces : ∀ c ∈ jsonBreak depth, isJsonSpace c = true := by
    intro c hc
    rcases List.mem_cons.mp hc with rfl | hc
    · rfl
    · rw [List.eq_of_mem_replicate hc]
      rfl
  rw [skipSpaces, List.dropWhile_append_of_pos hspaces]
  rfl

/-- The text starts with a quote or with an opening bracket. -/
def StartsValue (t : Text) : Prop := ∃ c rest, t = c :: rest ∧ (c = '"' ∨ c = '[' ∨ c = '\x7b')

/-- A text that starts a value does so with anything behind it. -/
theorem StartsValue.append {t : Text} (h : StartsValue t) (rest : Text) : StartsValue (t ++ rest) := by
  obtain ⟨c, more, rfl, hc⟩ := h
  exact ⟨c, more ++ rest, rfl, hc⟩

/-- No space stands before the start of a value. -/
theorem StartsValue.skipSpaces_eq {t : Text} (h : StartsValue t) : skipSpaces t = t := by
  obtain ⟨c, more, rfl, hc⟩ := h
  refine skipSpaces_of_head ?_ more
  rcases hc with rfl | rfl | rfl <;> rfl

/-- Behind a value with indentation before it. -/
theorem StartsValue.skip {t : Text} (h : StartsValue t) (depth : Nat) :
    skipSpaces (jsonBreak depth ++ t) = t := by
  rw [skipSpaces_jsonBreak, h.skipSpaces_eq]

/-- The reader reads the text as the value, whatever stands behind it, in at most as many steps as
the text has characters. -/
def ReadsBack {α : Type} (reader : Nat → Text → Result α) (value : α) (t : Text) : Prop :=
  ∀ fuel rest, t.length ≤ fuel → reader fuel (t ++ rest) = .ok (value, rest)

/-- Joined parts start a value if each part does. -/
theorem startsValue_join {separator : Text} {parts : List Text} (hne : parts ≠ [])
    (h : ∀ t ∈ parts, StartsValue t) : StartsValue (Text.join separator parts) := by
  match parts, hne with
  | [t], _ => exact h t List.mem_cons_self
  | t :: u :: rest, _ =>
    rw [Text.join, List.append_assoc]
    exact (h t List.mem_cons_self).append _

/-- The parts of an array or object, with what separates them at a depth. -/
def joined (depth : Nat) (parts : List Text) : Text := Text.join (',' :: jsonBreak depth) parts

/-- A part and the others are joined by a comma and a line break. -/
theorem joined_cons {depth : Nat} {parts : List Text} (h : parts ≠ []) (t : Text) :
    joined depth (t :: parts) = t ++ (',' :: (jsonBreak depth ++ joined depth parts)) := by
  match parts, h with
  | u :: rest, _ =>
    rw [joined, Text.join, List.append_assoc]
    rfl

/-- The items of an array are read back if each of them is. -/
theorem readItems_written {depth : Nat} {items : List JsonValue} (hne : items ≠ [])
    (hstarts : ∀ item ∈ items, StartsValue (item.writeAt depth))
    (hitems : ∀ item ∈ items, ReadsBack readValue item.stored (item.writeAt depth))
    (outer fuel : Nat)
    (rest : Text)
    (hfuel : (joined depth (items.map (JsonValue.writeAt depth))).length < fuel) :
    readItems fuel (joined depth (items.map (JsonValue.writeAt depth)) ++
      (jsonBreak outer ++ ']' :: rest)) = .ok (items.map JsonValue.stored, rest) := by
  induction items generalizing fuel with
  | nil => exact absurd rfl hne
  | cons item items ih =>
    obtain ⟨less, rfl⟩ := Nat.exists_eq_succ_of_ne_zero (Nat.ne_zero_of_lt hfuel)
    have hitem := hitems item List.mem_cons_self
    by_cases hlast : items = []
    · subst hlast
      have hread := hitem less (jsonBreak outer ++ ']' :: rest) (Nat.le_of_lt_succ hfuel)
      rw [List.map_cons, List.map_nil, joined, Text.join, readItems, hread]
      simp only [skipSpaces_jsonBreak]
      rfl
    · have hmore : items.map (JsonValue.writeAt depth) ≠ [] := by simpa using hlast
      have hjoined : StartsValue (joined depth (items.map (JsonValue.writeAt depth))) :=
        startsValue_join hmore fun t ht => by
          obtain ⟨other, ho, rfl⟩ := List.mem_map.mp ht
          exact hstarts other (List.mem_cons_of_mem _ ho)
      rw [List.map_cons, joined_cons hmore] at hfuel ⊢
      simp only [List.length_append, List.length_cons] at hfuel
      have hrest := ih hlast (fun other ho => hstarts other (List.mem_cons_of_mem _ ho))
        (fun other ho => hitems other (List.mem_cons_of_mem _ ho)) less (by omega)
      rw [List.append_assoc, readItems, hitem less _ (by omega)]
      simp only [List.cons_append, List.append_assoc,
        skipSpaces_of_head (show isJsonSpace ',' = false from rfl), (hjoined.append _).skip, hrest,
        List.map_cons]

/-- The written form of a member. -/
def writtenMember (depth : Nat) (member : Text × JsonValue) : Text :=
  jsonString member.1 ++ ": ".toList ++ member.2.writeAt depth

/-- The members of an object are written one by one. -/
theorem writeMembers_eq_map (depth : Nat) (members : List (Text × JsonValue)) :
    JsonValue.writeMembers depth members = members.map (writtenMember depth) := by
  induction members with
  | nil => rfl
  | cons member members ih =>
    rw [JsonValue.writeMembers, List.map_cons, ih]
    rfl

/-- A key is read back, with the colon and the space behind it. -/
theorem readKey_written (key : Text) {t : Text} (h : StartsValue t) :
    readKey (jsonString key ++ ": ".toList ++ t) = .ok (Text.points key, t) := by
  have hquote : jsonString key ++ ": ".toList ++ t =
      '"' :: (key.flatMap jsonChar ++ '"' :: ':' :: ' ' :: t) := by
    simp [jsonString_text]
  have hspace : skipSpaces (' ' :: t) = t := h.skipSpaces_eq
  rw [hquote, readKey, readString_written]
  simp only [skipSpaces_of_head (show isJsonSpace ':' = false from rfl), hspace]

/-- The members of an object are read back if the value of each of them is. -/
theorem readMembers_written {depth : Nat} {members : List (Text × JsonValue)} (hne : members ≠ [])
    (hstarts : ∀ member ∈ members, StartsValue (member.2.writeAt depth))
    (hmembers : ∀ member ∈ members,
      ReadsBack readValue member.2.stored (member.2.writeAt depth))
    (outer fuel : Nat) (rest : Text)
    (hfuel : (joined depth (members.map (writtenMember depth))).length < fuel) :
    readMembers fuel (joined depth (members.map (writtenMember depth)) ++
      (jsonBreak outer ++ '\x7d' :: rest)) =
        .ok (members.map fun member => (Text.points member.1, member.2.stored), rest) := by
  induction members generalizing fuel with
  | nil => exact absurd rfl hne
  | cons member members ih =>
    obtain ⟨key, value⟩ := member
    obtain ⟨less, rfl⟩ := Nat.exists_eq_succ_of_ne_zero (Nat.ne_zero_of_lt hfuel)
    have hvalue : ReadsBack readValue value.stored (value.writeAt depth) := hmembers _ List.mem_cons_self
    have hstart : StartsValue (value.writeAt depth) := hstarts _ List.mem_cons_self
    by_cases hlast : members = []
    · subst hlast
      rw [List.map_cons, List.map_nil, joined, Text.join, writtenMember] at hfuel ⊢
      simp only [List.length_append] at hfuel
      rw [List.append_assoc, readMembers, readKey_written key (hstart.append _)]
      simp only [hvalue less _ (by omega), skipSpaces_jsonBreak]
      rfl
    · have hmore : members.map (writtenMember depth) ≠ [] := by simpa using hlast
      have hjoined : StartsValue (joined depth (members.map (writtenMember depth))) :=
        startsValue_join hmore fun t ht => by
          obtain ⟨other, -, rfl⟩ := List.mem_map.mp ht
          exact ⟨'"', _, rfl, Or.inl rfl⟩
      rw [List.map_cons, joined_cons hmore, writtenMember] at hfuel ⊢
      simp only [List.length_append, List.length_cons] at hfuel
      have hrest := ih hlast (fun other ho => hstarts other (List.mem_cons_of_mem _ ho))
        (fun other ho => hmembers other (List.mem_cons_of_mem _ ho)) less (by omega)
      rw [List.append_assoc, List.append_assoc, readMembers, readKey_written key (hstart.append _)]
      simp only [hvalue less _ (by omega), List.cons_append, List.append_assoc,
        skipSpaces_of_head (show isJsonSpace ',' = false from rfl), (hjoined.append _).skip, hrest,
        List.map_cons]

/-- An array is read if its items are. -/
theorem readValue_array {fuel : Nat} {t rest tail : Text} {items : List (JsonValue CodeText)}
    (ht : StartsValue t) (hskip : skipSpaces rest = t) (hread : readItems fuel t = .ok (items, tail)) :
    readValue (fuel + 1) ('[' :: rest) = .ok (.array items, tail) := by
  obtain ⟨c, more, rfl, hc⟩ := ht
  have hclose : c ≠ ']' := by rcases hc with rfl | rfl | rfl <;> decide
  rw [readValue, hskip]
  split
  · next he => exact absurd (List.cons.inj he).1 hclose
  · rw [hread]

/-- An object is read if its members are. -/
theorem readValue_object {fuel : Nat} {t rest tail : Text}
    {members : List (CodeText × JsonValue CodeText)} (ht : StartsValue t) (hskip : skipSpaces rest = t)
    (hread : readMembers fuel t = .ok (members, tail)) :
    readValue (fuel + 1) ('\x7b' :: rest) = .ok (.object members, tail) := by
  obtain ⟨c, more, rfl, hc⟩ := ht
  have hclose : c ≠ '\x7d' := by rcases hc with rfl | rfl | rfl <;> decide
  rw [readValue, hskip]
  split
  · next he => exact absurd (List.cons.inj he).1 hclose
  · rw [hread]

end Documents

end JsonReader

namespace JsonValue

/-- The value holds texts, arrays and objects only. -/
inductive IsTextual : JsonValue → Prop
  | string (t : Text) : IsTextual (.string t)
  | array {items : List JsonValue} (h : ∀ item ∈ items, IsTextual item) : IsTextual (.array items)
  | object {members : List (Text × JsonValue)} (h : ∀ member ∈ members, IsTextual member.2) :
    IsTextual (.object members)

open JsonReader

variable {value : JsonValue}

/-- Brackets stand around parts, if there are any, with line ends and indentation between. -/
theorem jsonEnclosed_of_ne {parts : List Text} (h : parts ≠ []) (opening closing : Char)
    (depth : Nat) :
    jsonEnclosed opening closing depth parts = opening ::
      (jsonBreak (depth + 1) ++ (joined (depth + 1) parts ++ (jsonBreak depth ++ [closing]))) := by
  rw [jsonEnclosed, if_neg (by simpa using h)]
  simp only [List.append_assoc]
  rfl

/-- Every textual value is written with the start of a value. -/
theorem IsTextual.startsValue (h : value.IsTextual) (depth : Nat) :
    StartsValue (value.writeAt depth) := by
  have henclosed : ∀ (opening closing : Char) (parts : List Text),
      ∃ rest, jsonEnclosed opening closing depth parts = opening :: rest := by
    intro opening closing parts
    by_cases hp : parts = []
    · exact ⟨[closing], by rw [jsonEnclosed, hp]; rfl⟩
    · exact ⟨_, jsonEnclosed_of_ne hp opening closing depth⟩
  cases h with
  | string t => exact ⟨'"', _, rfl, Or.inl rfl⟩
  | @array items =>
    obtain ⟨rest, he⟩ := henclosed '[' ']' (writeItems (depth + 1) items)
    exact ⟨'[', rest, he, Or.inr (Or.inl rfl)⟩
  | @object members =>
    obtain ⟨rest, he⟩ := henclosed '\x7b' '\x7d' (writeMembers (depth + 1) members)
    exact ⟨'\x7b', rest, he, Or.inr (Or.inr rfl)⟩

/-- A value of texts, arrays and objects is read back. -/
theorem IsTextual.readsBack (h : value.IsTextual) (depth : Nat) :
    ReadsBack readValue value.stored (value.writeAt depth) := by
  induction h generalizing depth with
  | string t =>
    intro fuel rest hfuel
    have hquote : jsonString t ++ rest = '"' :: (t.flatMap jsonChar ++ '"' :: rest) := by
      simp [jsonString_text]
    obtain ⟨less, rfl⟩ : ∃ less, fuel = less + 1 :=
      Nat.exists_eq_succ_of_ne_zero (Nat.ne_zero_of_lt hfuel)
    rw [writeAt, hquote, readValue]
    simp only [readString_written]
    rfl
  | @array items hitems ih =>
    intro fuel rest hfuel
    rw [writeAt, writeItems_eq_map] at hfuel ⊢
    by_cases hempty : items = []
    · subst hempty
      obtain ⟨less, rfl⟩ : ∃ less, fuel = less + 1 :=
        Nat.exists_eq_succ_of_ne_zero (Nat.ne_zero_of_lt hfuel)
      rfl
    · have hparts : items.map (writeAt (depth + 1)) ≠ [] := by simpa using hempty
      have hjoined : StartsValue (joined (depth + 1) (items.map (writeAt (depth + 1)))) :=
        startsValue_join hparts fun t ht => by
          obtain ⟨item, hi, rfl⟩ := List.mem_map.mp ht
          exact (hitems item hi).startsValue _
      rw [jsonEnclosed_of_ne hparts] at hfuel ⊢
      simp only [List.length_append, List.length_cons] at hfuel
      obtain ⟨less, rfl⟩ : ∃ less, fuel = less + 1 :=
        Nat.exists_eq_succ_of_ne_zero (Nat.ne_zero_of_lt hfuel)
      simp only [List.cons_append, List.append_assoc, List.nil_append]
      rw [stored, storedItems_eq_map]
      exact readValue_array (hjoined.append _) ((hjoined.append _).skip _)
        (readItems_written hempty (fun item hi => (hitems item hi).startsValue _)
          (fun item hi => ih item hi _) depth less rest (by omega))
  | @object members hmembers ih =>
    intro fuel rest hfuel
    rw [writeAt, writeMembers_eq_map] at hfuel ⊢
    by_cases hempty : members = []
    · subst hempty
      obtain ⟨less, rfl⟩ : ∃ less, fuel = less + 1 :=
        Nat.exists_eq_succ_of_ne_zero (Nat.ne_zero_of_lt hfuel)
      rfl
    · have hparts : members.map (writtenMember (depth + 1)) ≠ [] := by simpa using hempty
      have hjoined : StartsValue (joined (depth + 1) (members.map (writtenMember (depth + 1)))) :=
        startsValue_join hparts fun t ht => by
          obtain ⟨member, -, rfl⟩ := List.mem_map.mp ht
          exact ⟨'"', _, rfl, Or.inl rfl⟩
      rw [jsonEnclosed_of_ne hparts] at hfuel ⊢
      simp only [List.length_append, List.length_cons] at hfuel
      obtain ⟨less, rfl⟩ : ∃ less, fuel = less + 1 :=
        Nat.exists_eq_succ_of_ne_zero (Nat.ne_zero_of_lt hfuel)
      simp only [List.cons_append, List.append_assoc, List.nil_append]
      rw [stored, storedMembers_eq_map]
      exact readValue_object (hjoined.append _) ((hjoined.append _).skip _)
        (readMembers_written hempty (fun member hm => (hmembers member hm).startsValue _)
          (fun member hm => ih member hm _) depth less rest (by omega))

/-- The document of a value of texts, arrays and objects is read back, also with spaces behind
it. -/
theorem IsTextual.read_write (h : value.IsTextual) {ending : Text}
    (hending : ending.all isJsonSpace = true) :
    JsonValue.read (value.write ++ ending) = .ok value.stored := by
  have hstart := (h.startsValue 0).append ending
  have hmark : ((value.write ++ ending).head? == some '\uFEFF') = false := by
    obtain ⟨c, rest, he, hc⟩ := hstart
    rw [write, he]
    rcases hc with rfl | rfl | rfl <;> rfl
  have hread := h.readsBack 0 (2 * (value.write ++ ending).length + 1) ending
    (by rw [write, List.length_append]; omega)
  have hspaces : skipSpaces ending = [] := by
    rw [skipSpaces, ← List.append_nil ending,
      List.dropWhile_append_of_pos (List.all_eq_true.mp hending)]
    rfl
  rw [read, hmark, if_neg Bool.false_ne_true]
  rw [write] at hread ⊢
  rw [hstart.skipSpaces_eq, hread]
  simp only [hspaces]

/-- The character is a line feed, or a character of ASCII that is seen or a space. -/
def isDocumentChar (c : Char) : Bool := c == '\n' || (0x20 ≤ c.toNat && c.toNat < 0x7F)

/-- All characters of the text are those of documents. -/
def IsWritten (t : Text) : Prop := ∀ c ∈ t, isDocumentChar c = true

/-- Two written texts in a row are one. -/
theorem IsWritten.append {s t : Text} (hs : IsWritten s) (ht : IsWritten t) : IsWritten (s ++ t) :=
  fun c hc => (List.mem_append.mp hc).elim (hs c) (ht c)

/-- A character may stand before a written text. -/
theorem IsWritten.cons {c : Char} {t : Text} (hc : isDocumentChar c = true) (ht : IsWritten t) :
    IsWritten (c :: t) :=
  fun d hd => (List.mem_cons.mp hd).elim (fun he => he ▸ hc) (ht d)

/-- Nothing is a written text. -/
theorem isWritten_nil : IsWritten [] := fun _ hc => absurd hc List.not_mem_nil

/-- Digits may stand in a document. -/
theorem isDocumentChar_digitChar : ∀ d < 16, isDocumentChar d.digitChar = true := by decide

/-- An escape by code may stand in a document. -/
theorem isWritten_codeEscape {unit : Nat} (h : unit < 65536) : IsWritten (codeEscape unit) := by
  rw [codeEscape, hexDigits_four h]
  refine .cons rfl (.cons rfl (.cons ?_ (.cons ?_ (.cons ?_ (.cons ?_ isWritten_nil)))))
  all_goals exact isDocumentChar_digitChar _ (by omega)

/-- Every character is written by characters of a document. -/
theorem isWritten_jsonChar (c : Char) : IsWritten (jsonChar c) := by
  have hlast := (toNat_lt c).1
  have hletter : ∀ {letter : Char}, isDocumentChar letter = true → IsWritten ['\\', letter] :=
    fun h => .cons rfl (.cons h isWritten_nil)
  unfold jsonChar
  split
  · next h =>
    simp only [Bool.or_eq_true, beq_iff_eq] at h
    rcases h with rfl | rfl <;> exact hletter rfl
  iterate 5
    split
    · exact hletter rfl
  split
  · next h => exact .cons (by rw [isDocumentChar, h, Bool.or_true]) isWritten_nil
  split
  · next h => exact isWritten_codeEscape h
  · exact (isWritten_codeEscape (by omega)).append (isWritten_codeEscape (by omega))

/-- Every string is written by characters of a document. -/
theorem isWritten_jsonString (t : Text) : IsWritten (jsonString t) := by
  rw [jsonString_text]
  refine .cons rfl (.append ?_ (.cons rfl isWritten_nil))
  intro c hc
  obtain ⟨d, -, hd⟩ := List.mem_flatMap.mp hc
  exact isWritten_jsonChar d c hd

/-- Indentation may stand in a document. -/
theorem isWritten_jsonBreak (depth : Nat) : IsWritten (jsonBreak depth) :=
  .cons rfl fun c hc => by rw [List.eq_of_mem_replicate hc]; rfl

/-- Parts are joined by characters of a document. -/
theorem isWritten_joined (depth : Nat) {parts : List Text} (h : ∀ t ∈ parts, IsWritten t) :
    IsWritten (joined depth parts) := by
  induction parts with
  | nil => exact isWritten_nil
  | cons t parts ih =>
    have ht := h t List.mem_cons_self
    by_cases hlast : parts = []
    · rw [hlast]
      exact ht
    · rw [joined_cons hlast]
      exact ht.append (.cons rfl ((isWritten_jsonBreak depth).append
        (ih fun u hu => h u (List.mem_cons_of_mem _ hu))))

/-- Parts are enclosed by characters of a document. -/
theorem isWritten_jsonEnclosed {opening closing : Char} (hopening : isDocumentChar opening = true)
    (hclosing : isDocumentChar closing = true) (depth : Nat) {parts : List Text}
    (h : ∀ t ∈ parts, IsWritten t) : IsWritten (jsonEnclosed opening closing depth parts) := by
  by_cases hparts : parts = []
  · rw [hparts]
    exact .cons hopening (.cons hclosing isWritten_nil)
  · rw [jsonEnclosed_of_ne hparts]
    exact .cons hopening ((isWritten_jsonBreak _).append ((isWritten_joined _ h).append
      ((isWritten_jsonBreak _).append (.cons hclosing isWritten_nil))))

/-- The written form of a value of texts, arrays and objects holds document characters only. -/
theorem IsTextual.isWritten (h : value.IsTextual) (depth : Nat) :
    IsWritten (value.writeAt depth) := by
  induction h generalizing depth with
  | string t => exact isWritten_jsonString t
  | array _ ih =>
    rw [writeAt, writeItems_eq_map]
    refine isWritten_jsonEnclosed rfl rfl depth fun t ht => ?_
    obtain ⟨item, hi, rfl⟩ := List.mem_map.mp ht
    exact ih item hi _
  | object _ ih =>
    rw [writeAt, writeMembers_eq_map]
    refine isWritten_jsonEnclosed rfl rfl depth fun t ht => ?_
    obtain ⟨member, hm, rfl⟩ := List.mem_map.mp ht
    exact ((isWritten_jsonString _).append (.cons rfl (.cons rfl isWritten_nil))).append
      (ih member hm _)

end JsonValue

end StyleModules
