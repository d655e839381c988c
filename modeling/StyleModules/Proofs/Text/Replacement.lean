import Mathlib.Data.List.Infix
import StyleModules.Proofs.Text.Segments

/-!
# Searching piece by piece

What a search gives for a text is put together from what it gives for the pieces of the text. A
front in which nothing is recognised counts by its characters (`Unrecognised.readFrom`), an
occurrence counts as a whole (`readFrom_of_recognised`), and a front whose places look the same with
and without what stands behind it counts as if nothing stood there (`IsLocal.readFrom_append`). So a
text of pieces between line feeds is searched piece by piece, as long as nothing is recognised
across the end of a piece (`replaceOccurrences_join`, `occurrences_join`).
-/

namespace StyleModules

/-- The last character of two texts in a row is found in the second, or else in the first. -/
theorem lastOf_append (previous : Option Char) (front back : Text) :
    lastOf previous (front ++ back) = lastOf (lastOf previous front) back := by
  induction front generalizing previous with
  | nil => rfl
  | cons c front ih => rw [List.cons_append, lastOf_cons, lastOf_cons, ih]

/-- What the segments of a text give, knowing the character before the text. -/
def readFrom {α β : Type} (give : Segment α → List β) (recognise : Recogniser α)
    (previous : Option Char) (t : Text) : List β :=
  (segmentsFrom recognise 0 previous t).flatMap give

/-- The text that stands for a segment when occurrences are replaced. -/
def Segment.fill : Segment Text → Text
  | .plain c => [c]
  | .found value => value

/-- The meaning of a segment, if it is an occurrence. -/
def Segment.values {α : Type} : Segment α → List α
  | .plain _ => []
  | .found value => [value]

/-- Replacing occurrences is reading the text and filling in what is found. -/
theorem replaceOccurrences_eq (recognise : Recogniser Text) (t : Text) :
    replaceOccurrences recognise t = readFrom Segment.fill recognise none t := rfl

/-- The occurrences are the values read from the text. -/
theorem occurrences_eq {α : Type} (recognise : Recogniser α) (t : Text) :
    occurrences recognise t = readFrom Segment.values recognise none t := by
  rw [occurrences, List.filterMap_eq_flatMap_toList]
  refine List.flatMap_congr fun segment _ => ?_
  cases segment <;> rfl

section Read

variable {α β : Type} {give : Segment α → List β} {recognise : Recogniser α}
  {previous : Option Char} {front back : Text}

/-- Nothing is read from the empty text. -/
@[simp] theorem readFrom_nil (give : Segment α → List β) (recognise : Recogniser α)
    (previous : Option Char) : readFrom give recognise previous [] = [] := rfl

/-- A character at which nothing is recognised is read as it is. -/
theorem readFrom_cons {c : Char} (h : recognise previous (c :: back) = none) :
    readFrom give recognise previous (c :: back) =
      give (.plain c) ++ readFrom give recognise (some c) back := by
  rw [readFrom, segmentsFrom, h, List.flatMap_cons]
  rfl

/-- A front in which nothing is recognised counts by its characters. -/
theorem Unrecognised.readFrom (h : Unrecognised recognise previous front back) :
    readFrom give recognise previous (front ++ back) = front.flatMap (fun c => give (.plain c)) ++
      StyleModules.readFrom give recognise (lastOf previous front) back := by
  rw [StyleModules.readFrom, segmentsFrom_append h, List.flatMap_append, List.flatMap_map]
  rfl

/-- An occurrence counts as a whole. -/
theorem readFrom_of_recognised {found : Text} {value : α} (hne : found ≠ [])
    (h : recognise previous (found ++ back) = some (found.length, value)) :
    readFrom give recognise previous (found ++ back) =
      give (.found value) ++ readFrom give recognise (lastOf previous found) back := by
  rw [readFrom, segmentsFrom_of_recognised hne h, List.flatMap_cons]
  rfl

/-- No place of the front looks different because of what stands behind the front, and no occurrence
goes beyond it. -/
structure IsLocal (recognise : Recogniser α) (front back : Text) : Prop where
  /-- What stands behind the front makes no difference. -/
  same : ∀ previous rest, rest <:+ front → rest ≠ [] →
    recognise previous (rest ++ back) = recognise previous rest
  /-- Occurrences end with the front at the latest. -/
  within : ∀ previous rest length value, rest <:+ front →
    recognise previous rest = some (length, value) → length ≤ rest.length

namespace IsLocal

/-- What is local to a text is local to the rest of it. -/
theorem tail {c : Char} (h : IsLocal recognise (c :: front) back) :
    IsLocal recognise front back where
  same previous rest hrest := h.same previous rest (hrest.trans (List.suffix_cons c front))
  within previous rest length value hrest :=
    h.within previous rest length value (hrest.trans (List.suffix_cons c front))

/-- A text that recognition does not leave is cut as it would be alone. -/
theorem segmentsFrom_append (h : IsLocal recognise front back) {skip : Nat}
    (hskip : skip ≤ front.length) (previous : Option Char) :
    segmentsFrom recognise skip previous (front ++ back) =
      segmentsFrom recognise skip previous front ++
        segmentsFrom recognise 0 (lastOf previous front) back := by
  induction front generalizing skip previous with
  | nil =>
    obtain rfl : skip = 0 := Nat.le_zero.mp hskip
    rfl
  | cons c front ih =>
    rw [lastOf_cons, List.cons_append]
    cases skip with
    | succ skip =>
      rw [segmentsFrom, segmentsFrom]
      exact ih h.tail (Nat.le_of_succ_le_succ hskip) (some c)
    | zero =>
      have hsame := h.same previous (c :: front) (List.suffix_refl _) (List.cons_ne_nil c front)
      rw [List.cons_append] at hsame
      rw [segmentsFrom, segmentsFrom, hsame]
      split
      · next length value hfound =>
        have hlength := h.within previous _ length value (List.suffix_refl _) hfound
        rw [List.length_cons] at hlength
        rw [ih h.tail (by omega) (some c), List.cons_append]
      · rw [ih h.tail (Nat.zero_le _) (some c), List.cons_append]

/-- A front whose places look the same without what stands behind it counts as if alone. -/
theorem readFrom_append (h : IsLocal recognise front back) (previous : Option Char) :
    readFrom give recognise previous (front ++ back) = readFrom give recognise previous front ++
      readFrom give recognise (lastOf previous front) back := by
  rw [readFrom, h.segmentsFrom_append (Nat.zero_le _), List.flatMap_append]
  rfl

end IsLocal

end Read

section Replace

variable {recognise : Recogniser Text} {previous : Option Char} {front back : Text}

/-- A front in which nothing is recognised stays as it is. -/
theorem Unrecognised.readFrom_fill (h : Unrecognised recognise previous front back) :
    StyleModules.readFrom Segment.fill recognise previous (front ++ back) =
      front ++ StyleModules.readFrom Segment.fill recognise (lastOf previous front) back := by
  have hfront : front.flatMap (fun c => Segment.fill (.plain c)) = front :=
    List.flatMap_singleton' front
  rw [h.readFrom, hfront]

/-- What replacing leaves of a text was there before, or is put in place of an occurrence. -/
theorem mem_of_mem_readFrom_fill {t : Text} {c : Char}
    (h : c ∈ readFrom Segment.fill recognise previous t) :
    c ∈ t ∨ ∃ before rest length value, recognise before rest = some (length, value) ∧
      c ∈ value := by
  obtain ⟨segment, hs, hc⟩ := List.mem_flatMap.mp h
  cases segment with
  | plain d =>
    rw [List.mem_singleton.mp hc]
    exact Or.inl (mem_of_plain_mem_segmentsFrom hs)
  | found value =>
    obtain ⟨before, rest, length, _, hr⟩ := exists_of_found_mem_segmentsFrom hs
    exact Or.inr ⟨before, rest, length, value, hr, hc⟩

end Replace

section Word

/-- A word that begins in front of a character which it lacks is over before that character. -/
theorem isPrefix_of_isPrefix_append {word t back : Text} (hback : ∀ c ∈ back.head?, c ∉ word)
    (h : word <+: t ++ back) : word <+: t := by
  by_cases hlength : word.length ≤ t.length
  · exact (List.isPrefix_append_of_length hlength).mp h
  · -- The word goes on behind the text, so the first character there belongs to it.
    obtain ⟨rest, rfl⟩ := List.prefix_of_prefix_length_le (List.prefix_append t back) h (by omega)
    have hrest : rest <+: back := (List.prefix_append_right_inj t).mp h
    cases rest with
    | nil => simp at hlength
    | cons c rest =>
      obtain ⟨more, rfl⟩ := hrest
      exact absurd (by simp) (hback c rfl)

/-- Every occurrence begins with one of the words, which are words of a line. -/
structure BeginsWith {α : Type} (recognise : Recogniser α) (words : List Text) : Prop where
  /-- One of the words stands wherever something is recognised. -/
  exists_word : ∀ previous t, recognise previous t ≠ none → ∃ word ∈ words, word <+: t
  /-- No word is empty. -/
  not_empty : [] ∉ words
  /-- No word goes beyond a line. -/
  in_line : ∀ word ∈ words, '\n' ∉ word

section Words

variable {α : Type} {recognise : Recogniser α} {words : List Text} {front back : Text}

/-- Nothing is recognised at a character that stands in none of the words. -/
theorem BeginsWith.cons_eq_none (h : BeginsWith recognise words) {c : Char}
    (hc : ∀ word ∈ words, c ∉ word) (previous : Option Char) (back : Text) :
    recognise previous (c :: back) = none := by
  by_contra hfound
  obtain ⟨word, hword, hstart⟩ := h.exists_word _ _ hfound
  cases word with
  | nil => exact h.not_empty hword
  | cons d word =>
    obtain ⟨rfl, _⟩ := List.cons_prefix_cons.mp hstart
    exact hc _ hword List.mem_cons_self

/-- Nothing is recognised in a front without the words that occurrences begin with, if none of these
goes on with the character behind the front. -/
theorem BeginsWith.unrecognised (h : BeginsWith recognise words)
    (hfront : ∀ word ∈ words, ¬ word <:+: front)
    (hback : ∀ word ∈ words, ∀ c ∈ back.head?, c ∉ word) (previous : Option Char) :
    Unrecognised recognise previous front back := by
  intro before rest hsplit _
  by_contra hfound
  obtain ⟨word, hword, hstart⟩ := h.exists_word _ _ hfound
  have hrest := isPrefix_of_isPrefix_append (hback word hword) hstart
  exact hfront word hword (hrest.isInfix.trans ⟨before, [], by rw [hsplit, List.append_nil]⟩)

end Words

end Word

section Lines

/-- A line starts behind the character. -/
def LineStart (previous : Option Char) : Prop := previous = none ∨ previous = some '\n'

/-- The text is at the end of a line. -/
def LineEnd (back : Text) : Prop := back = [] ∨ ∃ rest, back = '\n' :: rest

/-- A line that goes on behind its end does so with a line feed. -/
theorem LineEnd.eq_feed {back : Text} (h : LineEnd back) {c : Char} (hc : c ∈ back.head?) :
    c = '\n' := by
  rcases h with rfl | ⟨rest, rfl⟩
  · cases hc
  · exact (Option.some.inj hc).symm

variable {α β ι : Type} {give : Segment α → List β} {recognise : Recogniser α} {pieces : List ι}
  {words : List Text}

/-- Standing between line feeds, the piece gives the outcome. -/
def Gives (give : Segment α → List β) (recognise : Recogniser α) (piece : Text)
    (outcome : List β) : Prop :=
  ∀ previous back, LineStart previous → LineEnd back →
    readFrom give recognise previous (piece ++ back) =
      outcome ++ readFrom give recognise (lastOf previous piece) back

/-- A piece without the words that occurrences begin with gives its characters. -/
theorem BeginsWith.gives (h : BeginsWith recognise words) {piece : Text}
    (hpiece : ∀ word ∈ words, ¬ word <:+: piece) :
    Gives give recognise piece (piece.flatMap fun c => give (.plain c)) := by
  intro previous back _ hback
  refine (h.unrecognised hpiece (fun word hword c hc => ?_) previous).readFrom
  rw [hback.eq_feed hc]
  exact h.in_line word hword

/-- A piece that holds none of the words is filled in as it is. -/
theorem BeginsWith.gives_fill {recognise : Recogniser Text}
    (h : BeginsWith recognise words) {piece : Text}
    (hpiece : ∀ word ∈ words, ¬ word <:+: piece) : Gives Segment.fill recognise piece piece := by
  have hgives : Gives Segment.fill recognise piece _ := h.gives hpiece
  have hfill : (piece.flatMap fun c => Segment.fill (.plain c)) = piece :=
    List.flatMap_singleton' piece
  rwa [hfill] at hgives

/-- A piece that holds none of the words gives no value. -/
theorem BeginsWith.gives_values (h : BeginsWith recognise words)
    {piece : Text} (hpiece : ∀ word ∈ words, ¬ word <:+: piece) :
    Gives Segment.values recognise piece [] := by
  have hgives : Gives Segment.values recognise piece _ := h.gives hpiece
  have hvalues : (piece.flatMap fun c => (Segment.plain c : Segment α).values) = [] :=
    List.flatMap_eq_nil_iff.mpr fun _ _ => rfl
  rwa [hvalues] at hgives

/-- A piece that is recognised whole gives what was found. -/
theorem Gives.of_recognised {piece : Text} {value : α} (hne : piece ≠ [])
    (h : ∀ previous back, LineStart previous → LineEnd back →
      recognise previous (piece ++ back) = some (piece.length, value)) :
    Gives give recognise piece (give (.found value)) :=
  fun previous back hprevious hback => readFrom_of_recognised hne (h previous back hprevious hback)

/-- Lines are joined from the first one on. -/
theorem Text.join_lines_cons (t u : Text) (rest : List Text) :
    Text.join ['\n'] (t :: u :: rest) = t ++ '\n' :: Text.join ['\n'] (u :: rest) :=
  List.append_assoc ..

/-- Pieces between line feeds are searched one by one. -/
theorem readFrom_join {text : ι → Text} {outcome : ι → List β}
    (hwords : BeginsWith recognise words)
    (h : ∀ piece ∈ pieces, Gives give recognise (text piece) (outcome piece))
    {previous : Option Char} (hprevious : LineStart previous) :
    readFrom give recognise previous (Text.join ['\n'] (pieces.map text)) =
      List.intercalate (give (.plain '\n')) (pieces.map outcome) := by
  induction pieces generalizing previous with
  | nil => rfl
  | cons piece pieces ih =>
    have hfirst := h piece List.mem_cons_self previous
    have hrest := ih (fun other ho => h other (List.mem_cons_of_mem piece ho)) (Or.inr rfl)
    cases pieces with
    | nil =>
      have halone := hfirst [] hprevious (Or.inl rfl)
      rw [List.append_nil, readFrom_nil, List.append_nil] at halone
      exact halone.trans (List.append_nil _).symm
    | cons next pieces =>
      rw [List.map_cons, List.map_cons] at hrest ⊢
      rw [List.map_cons, List.map_cons, Text.join_lines_cons,
        hfirst _ hprevious (Or.inr ⟨_, rfl⟩),
        readFrom_cons (hwords.cons_eq_none hwords.in_line _ _), hrest]
      rfl

/-- Pieces between line feeds are replaced one by one. -/
theorem replaceOccurrences_join {recognise : Recogniser Text} {before after : ι → Text}
    (hwords : BeginsWith recognise words)
    (h : ∀ piece ∈ pieces, Gives Segment.fill recognise (before piece) (after piece)) :
    replaceOccurrences recognise (Text.join ['\n'] (pieces.map before)) =
      Text.join ['\n'] (pieces.map after) := by
  have hjoin : ∀ texts : List Text, List.intercalate ['\n'] texts = Text.join ['\n'] texts := by
    intro texts
    induction texts with
    | nil => rfl
    | cons t texts ih =>
      cases texts with
      | nil => exact List.append_nil t
      | cons u texts => rw [Text.join_lines_cons, ← ih]; rfl
  rw [replaceOccurrences_eq, readFrom_join hwords h (Or.inl rfl)]
  exact hjoin _

/-- The occurrences in pieces between line feeds are those in one after the other. -/
theorem occurrences_join {text : ι → Text} {values : ι → List α}
    (hwords : BeginsWith recognise words)
    (h : ∀ piece ∈ pieces, Gives Segment.values recognise (text piece) (values piece)) :
    occurrences recognise (Text.join ['\n'] (pieces.map text)) = pieces.flatMap values := by
  have hflatten : ∀ lists : List (List α), List.intercalate [] lists = lists.flatten := by
    intro lists
    induction lists with
    | nil => rfl
    | cons list lists ih =>
      cases lists with
      | nil => rfl
      | cons next lists => rw [List.flatten_cons, ← ih]; rfl
  rw [occurrences_eq, readFrom_join hwords h (Or.inl rfl)]
  exact hflatten _

end Lines

end StyleModules
