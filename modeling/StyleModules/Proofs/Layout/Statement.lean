import StyleModules.Proofs.Text.Trim
import StyleModules.Layout.Lines

/-!
# The text of a statement

Laying out a statement cleans its text, and sets one space behind the colon of a declaration. The
text that is written is a declaration exactly when the statement was (`isDeclaration_laidText`),
and of the same property (`propertyName_laidText`). It is trimmed, and if it has no semicolon at its
end it is written once more as it is (`laidText_laidText`).
-/

namespace StyleModules

namespace Text

/-- What stands before the first occurrence of a character is the text without it. -/
theorem before_append {c : Char} {s : Text} (h : c ∉ s) (rest : Text) :
    before c (s ++ c :: rest) = s := by
  rw [before, List.takeWhile_append_of_pos, List.takeWhile_cons_of_neg (by simp), List.append_nil]
  intro d hd
  exact bne_iff_ne.mpr (ne_of_mem_of_not_mem hd h)

/-- What stands behind the first occurrence of a character is the rest. -/
theorem after_append {c : Char} {s : Text} (h : c ∉ s) (rest : Text) :
    after c (s ++ c :: rest) = rest := by
  rw [after, List.dropWhile_append_of_pos, List.dropWhile_cons_of_neg (by simp)]
  · rfl
  · intro d hd
    exact bne_iff_ne.mpr (ne_of_mem_of_not_mem hd h)

/-- A character does not stand before its first occurrence. -/
theorem not_mem_before (c : Char) (t : Text) : c ∉ before c t := by
  intro h
  have hall : (t.takeWhile (· != c)).all (· != c) = true := List.all_takeWhile
  simpa using List.all_eq_true.mp hall c h

/-- A text with the character falls into what is before, the character and what is after. -/
theorem before_append_after {c : Char} {t : Text} (h : c ∈ t) :
    before c t ++ c :: after c t = t := by
  obtain ⟨s, rest, rfl, hs⟩ := List.eq_append_cons_of_mem h
  rw [before_append hs, after_append hs]

/-- A trimmed text has no other characters. -/
theorem mem_of_mem_trim {c : Char} {t : Text} (h : c ∈ trim t) : c ∈ t := by
  obtain ⟨before, after, ht, _, _⟩ := exists_trim t
  rw [ht]
  simp [h]

/-- A first character that is not blank stays the first. -/
theorem head?_trim_of_head? {t : Text} {c : Char} (h : t.head? = some c)
    (hc : isBlank c = false) : (trim t).head? = some c := by
  cases t with
  | nil => simp at h
  | cons d t =>
    obtain rfl : d = c := by simpa using h
    have hs : trimStart (d :: t) = d :: t := List.dropWhile_cons_of_neg (by simp [hc])
    rw [trim, hs, trimEnd, dropEndWhile]
    split
    · rw [if_neg (by simp [hc])]
      rfl
    · rfl

end Text

/-- Cleaning takes blanks from the start, and blanks and semicolons from the end. -/
theorem exists_cleanStatement (content : Text) :
    ∃ before after, content = before ++ cleanStatement content ++ after ∧
      before.all isBlank = true ∧ ∀ c ∈ after, isBlank c = true ∨ c = ';' := by
  obtain ⟨before, blanks, hcontent, hbefore, hblanks⟩ := Text.exists_trim content
  obtain ⟨semicolons, htrim, hsemicolons⟩ :=
    Text.dropEndWhile_append (· == ';') (Text.trim content)
  obtain ⟨gap, hclean, hgap⟩ :=
    Text.dropEndWhile_append isBlank ((Text.trim content).dropEndWhile (· == ';'))
  refine ⟨before, gap ++ semicolons ++ blanks, ?_, hbefore, ?_⟩
  · rw [show Text.dropEndWhile isBlank _ = cleanStatement content from rfl] at hclean
    rw [hclean] at htrim
    rw [htrim] at hcontent
    simpa only [List.append_assoc] using hcontent
  · intro c hc
    rw [List.all_eq_true] at hblanks hsemicolons hgap
    simp only [List.mem_append] at hc
    rcases hc with (hc | hc) | hc
    · exact Or.inl (hgap c hc)
    · exact Or.inr (by simpa using hsemicolons c hc)
    · exact Or.inl (hblanks c hc)

/-- A cleaned statement is a start of the trimmed content. -/
theorem cleanStatement_isPrefix (content : Text) :
    cleanStatement content <+: Text.trim content := by
  rw [cleanStatement, Text.trimEnd, Text.dropEndWhile_eq_rdropWhile,
    Text.dropEndWhile_eq_rdropWhile]
  exact (List.rdropWhile_prefix ..).trans (List.rdropWhile_prefix ..)

/-- Where cleaning takes no more than blanks, there is no semicolon at the end. -/
theorem getLast?_cleanStatement {content : Text} (h : cleanStatement content = Text.trim content) :
    (cleanStatement content).getLast? ≠ some ';' := by
  have hinner : cleanStatement content <+: (Text.trim content).dropEndWhile (· == ';') := by
    rw [cleanStatement, Text.trimEnd, Text.dropEndWhile_eq_rdropWhile isBlank]
    exact List.rdropWhile_prefix ..
  have houter : (Text.trim content).dropEndWhile (· == ';') <+: Text.trim content := by
    rw [Text.dropEndWhile_eq_rdropWhile]
    exact List.rdropWhile_prefix ..
  have hkept : (Text.trim content).dropEndWhile (· == ';') = Text.trim content := by
    apply houter.eq_of_length
    have hle := hinner.length_le
    have hge := houter.length_le
    rw [h] at hle
    omega
  intro hlast
  rw [h] at hlast
  exact absurd ((Text.dropEndWhile_eq_self_iff _ _).mp hkept ';' hlast) (by decide)

/-- The first character of a statement stays the first. -/
theorem head?_cleanStatement {content : Text} (h : cleanStatement content ≠ []) :
    (cleanStatement content).head? = (Text.trim content).head? := by
  obtain ⟨rest, hrest⟩ := cleanStatement_isPrefix content
  rw [← hrest, List.head?_append_of_ne_nil _ h]

/-- A cleaned statement is trimmed. -/
theorem trim_cleanStatement (content : Text) :
    Text.trim (cleanStatement content) = cleanStatement content := by
  refine (Text.trim_eq_self_iff _).mpr ⟨fun c hc => ?_, fun c => Text.getLast?_dropEndWhile⟩
  have hne : cleanStatement content ≠ [] := by
    rintro he
    simp [he] at hc
  rw [head?_cleanStatement hne] at hc
  exact Text.head?_trim hc

/-- Cleaning a statement keeps its colons. -/
theorem colon_mem_cleanStatement (content : Text) :
    ':' ∈ cleanStatement content ↔ ':' ∈ content := by
  obtain ⟨before, after, hcontent, hbefore, hafter⟩ := exists_cleanStatement content
  constructor
  · intro h
    rw [hcontent]
    simp [h]
  · intro h
    rw [hcontent, List.mem_append, List.mem_append] at h
    rcases h with (h | h) | h
    · exact absurd (List.all_eq_true.mp hbefore _ h) (by decide)
    · exact h
    · exact absurd (hafter _ h) (by decide)

/-- A declaration as it is written, property and value apart. -/
theorem normaliseDeclaration_eq (t : Text) :
    normaliseDeclaration t = Text.trim (Text.before ':' t) ++
      ':' :: (if Text.trim (Text.after ':' t) = [] then []
        else ' ' :: Text.trim (Text.after ':' t)) := by
  unfold normaliseDeclaration
  by_cases hv : Text.trim (Text.after ':' t) = []
  · simp [hv]
  · simp [hv]

/-- A property holds no colon. -/
theorem colon_not_mem_property (t : Text) : ':' ∉ Text.trim (Text.before ':' t) :=
  fun h => Text.not_mem_before ':' t (Text.mem_of_mem_trim h)

/-- A normalised declaration has the same property. -/
theorem before_normaliseDeclaration (t : Text) :
    Text.before ':' (normaliseDeclaration t) = Text.trim (Text.before ':' t) := by
  rw [normaliseDeclaration_eq, Text.before_append (colon_not_mem_property t)]

/-- A trimmed declaration is written with the same first character. -/
theorem head?_normaliseDeclaration {t : Text} (ht : Text.trim t = t) (hcolon : ':' ∈ t) :
    (normaliseDeclaration t).head? = t.head? := by
  have hsplit := Text.before_append_after hcolon
  rw [normaliseDeclaration_eq]
  cases hb : Text.before ':' t with
  | nil =>
    rw [hb, List.nil_append] at hsplit
    rw [← hsplit]
    rfl
  | cons c rest =>
    have hhead : t.head? = some c := by rw [← hsplit, hb]; rfl
    have hblank : isBlank c = false := ((Text.trim_eq_self_iff t).mp ht).1 c hhead
    have hproperty : (Text.trim (c :: rest)).head? = some c := Text.head?_trim_of_head? rfl hblank
    rw [hhead, List.head?_append, hproperty]
    rfl

/-- Setting the space behind the colon twice is setting it once. -/
theorem normaliseDeclaration_normaliseDeclaration (t : Text) :
    normaliseDeclaration (normaliseDeclaration t) = normaliseDeclaration t := by
  have hafter : Text.trim (Text.after ':' (normaliseDeclaration t)) =
      Text.trim (Text.after ':' t) := by
    rw [normaliseDeclaration_eq, Text.after_append (colon_not_mem_property t)]
    split
    · next hv => rw [hv]; rfl
    · have hspace : [' '].all isBlank = true := by decide
      exact (Text.trim_blank_append hspace _).trans (Text.trim_trim _)
  rw [normaliseDeclaration_eq (normaliseDeclaration t), before_normaliseDeclaration, hafter,
    Text.trim_trim, ← normaliseDeclaration_eq]

/-- The text that is written for a statement. -/
def laidText (content : Text) : Text := (Node.ofStatement content []).statementText

/-- The entries of a statement are its comments and the text that is written for it. -/
theorem nodeEntries_leaf (style : Style) (depth : Nat) (selector : Option Text) (content : Text)
    (children : List Node) (comments : List Text) :
    nodeEntries style depth ⟨.leaf, selector, content, children, comments⟩ =
      commentEntries style depth comments ++
        if (laidText content).isEmpty then [] else [indent depth ++ laidText content ++ [';']] := by
  rw [nodeEntries, statementEntries]
  rfl

/-- A statement is a declaration if it has a colon and does not start with an at sign. -/
theorem isDeclaration_ofStatement (content : Text) (comments : List Text) :
    (Node.ofStatement content comments).isDeclaration = true ↔
      ':' ∈ content ∧ (Text.trim content).head? ≠ some '@' := by
  simp [Node.isDeclaration, Node.ofStatement]

/-- A declaration is laid out normalised. -/
theorem laidText_of_declaration {content : Text} {comments : List Text}
    (h : (Node.ofStatement content comments).isDeclaration = true) :
    laidText content = normaliseDeclaration (cleanStatement content) := by
  have hcolon := (colon_mem_cleanStatement content).mpr
    ((isDeclaration_ofStatement content comments).mp h).1
  have hd : (Node.ofStatement content []).isDeclaration = true := h
  have hne : cleanStatement content ≠ [] := List.ne_nil_of_mem hcolon
  simp only [laidText, Node.statementText, hd, Bool.true_and]
  rw [if_pos (by simpa [Node.ofStatement] using hne)]
  rfl

/-- A statement that is no declaration is laid out as it is cleaned. -/
theorem laidText_of_not_declaration {content : Text} {comments : List Text}
    (h : (Node.ofStatement content comments).isDeclaration = false) :
    laidText content = cleanStatement content := by
  have hd : (Node.ofStatement content []).isDeclaration = false := h
  simp only [laidText, Node.statementText, hd, Bool.false_and]
  rfl

/-- Something is written for a statement of which cleaning leaves something. -/
theorem laidText_ne_nil {content : Text} (h : cleanStatement content ≠ []) :
    laidText content ≠ [] := by
  cases hd : (Node.ofStatement content []).isDeclaration with
  | true => simp [laidText_of_declaration hd, normaliseDeclaration_eq]
  | false => rwa [laidText_of_not_declaration hd]

/-- What is written for a statement is a declaration exactly when the statement is one. -/
theorem isDeclaration_laidText (content : Text) (comments others : List Text) :
    (Node.ofStatement (laidText content) comments).isDeclaration =
      (Node.ofStatement content others).isDeclaration := by
  rw [Bool.eq_iff_iff]
  cases hd : (Node.ofStatement content others).isDeclaration with
  | false =>
    rw [laidText_of_not_declaration hd, isDeclaration_ofStatement, trim_cleanStatement,
      colon_mem_cleanStatement]
    rw [← Bool.not_eq_true, isDeclaration_ofStatement] at hd
    constructor
    · rintro ⟨hcolon, hhead⟩
      have hne := List.ne_nil_of_mem ((colon_mem_cleanStatement content).mpr hcolon)
      rw [head?_cleanStatement hne] at hhead
      exact absurd ⟨hcolon, hhead⟩ hd
    · simp
  | true =>
    rw [laidText_of_declaration hd, isDeclaration_ofStatement]
    rw [isDeclaration_ofStatement] at hd
    have hcolon := (colon_mem_cleanStatement content).mpr hd.1
    have hclean := head?_cleanStatement (List.ne_nil_of_mem hcolon)
    have hlaid := head?_normaliseDeclaration (trim_cleanStatement content) hcolon
    refine ⟨fun _ => rfl, fun _ => ⟨by simp [normaliseDeclaration_eq], ?_⟩⟩
    obtain ⟨c, hc⟩ : ∃ c, (cleanStatement content).head? = some c :=
      Option.ne_none_iff_exists'.mp (by simpa using List.ne_nil_of_mem hcolon)
    have hblank := ((Text.trim_eq_self_iff _).mp (trim_cleanStatement content)).1 c hc
    rw [Text.head?_trim_of_head? (hlaid.trans hc) hblank, ← hc, hclean]
    exact hd.2

/-- What is written for a declaration has the same property. -/
theorem propertyName_laidText {content : Text} {others : List Text} (comments : List Text)
    (h : (Node.ofStatement content others).isDeclaration = true) :
    (Node.ofStatement (laidText content) comments).propertyName =
      (Node.ofStatement content others).propertyName := by
  have hcolon := (colon_mem_cleanStatement content).mpr
    ((isDeclaration_ofStatement content others).mp h).1
  obtain ⟨before, after, hcontent, hbefore, _⟩ := exists_cleanStatement content
  have hnot : ':' ∉ before ++ Text.before ':' (cleanStatement content) := by
    rw [List.mem_append, not_or]
    refine ⟨fun hm => ?_, Text.not_mem_before ':' _⟩
    exact absurd (List.all_eq_true.mp hbefore _ hm) (by decide)
  have hproperty : Text.before ':' content =
      before ++ Text.before ':' (cleanStatement content) := by
    rw [← Text.before_append_after hcolon] at hcontent
    rw [← Text.before_append hnot (Text.after ':' (cleanStatement content) ++ after)]
    conv_lhs => rw [hcontent]
    simp only [List.append_assoc, List.cons_append]
  rw [laidText_of_declaration h]
  show Text.trim (Text.before ':' (normaliseDeclaration _)) = Text.trim (Text.before ':' content)
  rw [before_normaliseDeclaration, Text.trim_trim, hproperty, Text.trim_blank_append hbefore]

/-- What is written for a statement is trimmed. -/
theorem trim_laidText (content : Text) : Text.trim (laidText content) = laidText content := by
  cases hd : (Node.ofStatement content []).isDeclaration with
  | false => rw [laidText_of_not_declaration hd, trim_cleanStatement]
  | true =>
    have hcolon := (colon_mem_cleanStatement content).mpr
      ((isDeclaration_ofStatement content []).mp hd).1
    have htrim := trim_cleanStatement content
    rw [laidText_of_declaration hd, Text.trim_eq_self_iff, head?_normaliseDeclaration htrim hcolon]
    refine ⟨((Text.trim_eq_self_iff _).mp htrim).1, fun c hc => ?_⟩
    rw [normaliseDeclaration_eq, List.getLast?_append_cons] at hc
    split at hc
    · obtain rfl : ':' = c := by simpa using hc
      decide
    · next hvalue =>
      rw [List.getLast?_cons_cons, List.getLast?_cons_of_ne_nil hvalue] at hc
      exact Text.getLast?_dropEndWhile hc

/-- A character that is written for a statement is its own or belongs to the colon. -/
theorem mem_laidText {content : Text} {c : Char} (h : c ∈ laidText content) :
    c ∈ content ∨ c = ':' ∨ c = ' ' := by
  have hclean : ∀ {d}, d ∈ cleanStatement content → d ∈ content := fun hd =>
    Text.mem_of_mem_trim ((cleanStatement_isPrefix content).subset hd)
  cases hd : (Node.ofStatement content []).isDeclaration with
  | false =>
    rw [laidText_of_not_declaration hd] at h
    exact Or.inl (hclean h)
  | true =>
    rw [laidText_of_declaration hd, normaliseDeclaration_eq, List.mem_append, List.mem_cons] at h
    rcases h with h | rfl | h
    · exact Or.inl (hclean ((List.takeWhile_sublist _).subset (Text.mem_of_mem_trim h)))
    · exact Or.inr (Or.inl rfl)
    · split at h
      · simp at h
      · rcases List.mem_cons.mp h with rfl | h
        · exact Or.inr (Or.inr rfl)
        · exact Or.inl (hclean ((List.dropWhile_sublist _).subset
            ((List.drop_sublist 1 _).subset (Text.mem_of_mem_trim h))))

/-- A written text without semicolon at its end is left as it is when it is laid out again. -/
theorem laidText_laidText {content : Text} (hs : (laidText content).getLast? ≠ some ';') :
    laidText (laidText content) = laidText content := by
  have ht := trim_laidText content
  have hclean : cleanStatement (laidText content) = laidText content := by
    have hdrop : (laidText content).dropEndWhile (· == ';') = laidText content := by
      refine (Text.dropEndWhile_eq_self_iff _ _).mpr fun c hc => ?_
      exact beq_false_of_ne fun he => hs (he ▸ hc)
    rw [cleanStatement, ht, hdrop]
    exact (Text.dropEndWhile_eq_self_iff _ _).mpr ((Text.trim_eq_self_iff _).mp ht).2
  have hkind := isDeclaration_laidText content [] []
  cases hd : (Node.ofStatement content []).isDeclaration with
  | false => rw [laidText_of_not_declaration (hkind.trans hd), hclean]
  | true =>
    rw [laidText_of_declaration (hkind.trans hd), hclean, laidText_of_declaration hd,
      normaliseDeclaration_normaliseDeclaration]

end StyleModules
