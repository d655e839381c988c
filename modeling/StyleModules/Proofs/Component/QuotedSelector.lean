import StyleModules.Proofs.Component.Placement
import StyleModules.Proofs.Component.Recognition
import StyleModules.Proofs.Text.Replacement

/-!
# Points in the quoted strings of a selector

A selector may hold quoted strings, as in `a[href$=".pdf"]`. A point in a quoted string names no
class, but classes are looked for in the whole selector. So a selector mentions a class exactly if
the text outside its quoted strings does or one of the strings looks as if it did
(`mentionsClass_eq`). A rule whose points all stand in quoted strings stays where and as it is,
whatever classes are used, exactly if none of its strings looks so; otherwise it is treated as a
rule for a class, and is lost when it holds no statement and the class is not used
(`orderByUse_keeps_quoted_iff`).
-/

namespace StyleModules

section Strings

/-- The text up to the closing quote, and the text behind it. A backslash takes the next character
along; a line feed leaves the quote open. -/
def cutQuoted? (quote : Char) : Text → Option (Text × Text)
  | [] => none
  | '\\' :: c :: rest => (cutQuoted? quote rest).map fun cut => ('\\' :: c :: cut.1, cut.2)
  | c :: rest =>
    if c == quote then some ([], rest)
    else if c == '\n' then none
    else (cutQuoted? quote rest).map fun cut => (c :: cut.1, cut.2)

/-- A quoted string that is closed, or an escaped character outside of strings. The value tells what
stays of it outside of strings, and the text that is quoted. -/
def recogniseQuoted : Recogniser (Text × List Text)
  | _, '\\' :: c :: _ => some (2, ['\\', c], [])
  | _, c :: rest =>
    if isQuote c then
      (cutQuoted? c rest).map fun cut => (cut.1.length + 2, [' '], [cut.1])
    else none
  | _, [] => none

/-- What a segment leaves outside of quoted strings. -/
def Segment.outside : Segment (Text × List Text) → Text
  | .plain c => [c]
  | .found value => value.1

/-- What is quoted in a segment. -/
def Segment.quoted : Segment (Text × List Text) → List Text
  | .plain _ => []
  | .found value => value.2

/-- The selector with its quoted strings blanked. -/
def outsideQuotes (selector : Text) : Text :=
  readFrom Segment.outside recogniseQuoted none selector

/-- The texts that are quoted in the selector. -/
def quotedTexts (selector : Text) : List Text :=
  readFrom Segment.quoted recogniseQuoted none selector

/-- A quoted text is cut at its closing quote. -/
theorem eq_of_cutQuoted? {quote : Char} {t : Text} {cut : Text × Text}
    (h : cutQuoted? quote t = some cut) : t = cut.1 ++ quote :: cut.2 := by
  fun_induction cutQuoted? quote t generalizing cut with
  | case1 => cases h
  | case2 c rest ih =>
    obtain ⟨inner, hinner, rfl⟩ := Option.map_eq_some_iff.mp h
    rw [ih hinner]
    rfl
  | case3 c rest _ hquote =>
    rw [← Option.some.inj h, beq_iff_eq.mp hquote]
    rfl
  | case4 => cases h
  | case5 c rest _ _ _ ih =>
    obtain ⟨inner, hinner, rfl⟩ := Option.map_eq_some_iff.mp h
    rw [ih hinner]
    rfl

/-- A selector begins with a quoted string, with an escaped character, or with a character that
stands for itself. -/
theorem quoted_cases (previous : Option Char) (t : Text) :
    t = [] ∨
      (∃ quote body rest, isQuote quote = true ∧ t = quote :: (body ++ [quote]) ++ rest ∧
        recogniseQuoted previous t = some ((quote :: (body ++ [quote])).length, [' '], [body])) ∨
      (∃ c rest, t = ['\\', c] ++ rest ∧ recogniseQuoted previous t = some (2, ['\\', c], [])) ∨
      ∃ c rest, t = c :: rest ∧ recogniseQuoted previous t = none := by
  cases t with
  | nil => exact Or.inl rfl
  | cons c rest =>
    cases hr : recogniseQuoted previous (c :: rest) with
    | none => exact Or.inr (Or.inr (Or.inr ⟨c, rest, rfl, rfl⟩))
    | some found =>
      unfold recogniseQuoted at hr
      split at hr
      · next d rest heq =>
        exact Or.inr (Or.inr (Or.inl ⟨d, rest, heq, hr.symm⟩))
      · next quote rest _ heq =>
        obtain ⟨rfl, rfl⟩ := List.cons.inj heq
        split at hr
        · next hquote =>
          obtain ⟨cut, hcut, rfl⟩ := Option.map_eq_some_iff.mp hr
          refine Or.inr (Or.inl ⟨c, cut.1, cut.2, hquote, ?_, ?_⟩)
          · rw [eq_of_cutQuoted? hcut]
            simp
          · simp
        · cases hr
      · cases hr

end Strings

section Mention

/-- A quote starts no name. -/
theorem isNameStart_of_isQuote {c : Char} (h : isQuote c = true) : isNameStart c = false := by
  rw [isQuote, Bool.or_eq_true, beq_iff_eq, beq_iff_eq] at h
  rcases h with rfl | rfl <;> decide

/-- The text has a point with the start of a name behind it. -/
def mentionsClass (t : Text) : Bool := !(occurrences recogniseClass t).isEmpty

/-- The empty text mentions no class. -/
@[simp] theorem mentionsClass_nil : mentionsClass [] = false := rfl

/-- A text mentions no class if none is recognised in it. -/
theorem mentionsClass_eq_false_iff (t : Text) :
    mentionsClass t = false ↔ Unrecognised recogniseClass none t [] := by
  rw [mentionsClass, Bool.not_eq_false', List.isEmpty_iff, occurrences_eq_nil_iff]

/-- A class is recognised at a point with the start of a name behind it. -/
theorem recogniseClass_eq_none_iff (previous : Option Char) (c : Char) (t : Text) :
    recogniseClass previous (c :: t) = none ↔ (c == '.' && t.head?.any isNameStart) = false := by
  unfold recogniseClass
  split
  · next d rest heq =>
    obtain ⟨rfl, rfl⟩ := List.cons.inj heq
    cases hd : isNameStart d <;> simp [hd]
  · next hpoint =>
    refine iff_of_true rfl ?_
    cases t with
    | nil => simp
    | cons d t =>
      have hc : c ≠ '.' := by
        rintro rfl
        exact hpoint d t rfl
      simp [hc]

/-- A text mentions a class at its first character or behind it. -/
theorem mentionsClass_cons (c : Char) (t : Text) :
    mentionsClass (c :: t) = ((c == '.' && t.head?.any isNameStart) || mentionsClass t) := by
  have hprevious (previous : Option Char) :
      Unrecognised recogniseClass previous t [] ↔ Unrecognised recogniseClass none t [] := by
    rw [← segmentsFrom_eq_map_iff, ← segmentsFrom_eq_map_iff,
      segmentsFrom_congr (show recogniseClass previous = recogniseClass none by
        funext u; unfold recogniseClass; split <;> rfl)]
  refine Bool.eq_iff_iff.mpr (not_iff_not.mp ?_)
  rw [Bool.not_eq_true, Bool.not_eq_true, mentionsClass_eq_false_iff, unrecognised_cons_iff,
    List.append_nil, recogniseClass_eq_none_iff, hprevious, ← mentionsClass_eq_false_iff,
    Bool.or_eq_false_iff]

/-- A quote between two texts keeps their points apart. -/
theorem mentionsClass_append_quote {quote : Char} (h : isQuote quote = true) (s t : Text) :
    mentionsClass (s ++ quote :: t) = (mentionsClass s || mentionsClass t) := by
  have hpoint : (quote == '.') = false := beq_false_of_ne fun he => absurd (he ▸ h) (by decide)
  have hstart := isNameStart_of_isQuote h
  induction s with
  | nil =>
    rw [List.nil_append, mentionsClass_cons, hpoint]
    rfl
  | cons c s ih =>
    have hhead : (s ++ quote :: t).head?.any isNameStart = s.head?.any isNameStart := by
      cases s with
      | nil => exact hstart
      | cons d s => rfl
    rw [List.cons_append, mentionsClass_cons, mentionsClass_cons, hhead, ih, Bool.or_assoc]

/-- Blanking quoted strings leaves the start of a name in front exactly if one stood there. -/
theorem head?_outside (previous : Option Char) (t : Text) :
    (readFrom Segment.outside recogniseQuoted previous t).head?.any isNameStart =
      t.head?.any isNameStart := by
  rcases quoted_cases previous t with rfl | ⟨quote, body, rest, hquote, rfl, hr⟩ |
    ⟨c, rest, rfl, hr⟩ | ⟨c, rest, rfl, hr⟩
  · rfl
  · rw [readFrom_of_recognised (List.cons_ne_nil _ _) hr]
    exact (isNameStart_of_isQuote hquote).symm
  · rw [readFrom_of_recognised (List.cons_ne_nil _ _) hr]
    rfl
  · rw [readFrom_cons hr]
    rfl

/-- A text mentions a class if it does so outside of its quoted strings or in one of them. -/
theorem mentionsClass_eq (previous : Option Char) (t : Text) :
    mentionsClass t = (mentionsClass (readFrom Segment.outside recogniseQuoted previous t) ||
      (readFrom Segment.quoted recogniseQuoted previous t).any mentionsClass) := by
  induction hn : t.length using Nat.strong_induction_on generalizing previous t with
  | _ n ih =>
    subst hn
    rcases quoted_cases previous t with rfl | ⟨quote, body, rest, hquote, rfl, hr⟩ |
      ⟨c, rest, rfl, hr⟩ | ⟨c, rest, rfl, hr⟩
    · rfl
    · have hapart : quote :: (body ++ [quote]) ++ rest =
          [] ++ quote :: (body ++ quote :: rest) := by simp
      have hrest := ih rest.length
        (by simp only [List.length_append, List.length_cons]; omega) (some quote) rest rfl
      rw [readFrom_of_recognised (List.cons_ne_nil _ _) hr,
        readFrom_of_recognised (List.cons_ne_nil _ _) hr, lastOf_cons, lastOf_concat, hapart,
        mentionsClass_append_quote hquote, mentionsClass_append_quote hquote, hrest]
      simp [Segment.outside, Segment.quoted, mentionsClass_cons, Bool.or_left_comm]
    · have hrest := ih rest.length
        (by simp only [List.length_append, List.length_cons]; omega) (some c) rest rfl
      rw [readFrom_of_recognised (List.cons_ne_nil _ _) hr,
        readFrom_of_recognised (List.cons_ne_nil _ _) hr]
      simp only [Segment.outside, Segment.quoted, List.cons_append, List.nil_append, lastOf_cons,
        lastOf_nil, mentionsClass_cons, head?_outside, hrest, Bool.or_assoc]
      simp
    · have hrest := ih rest.length (by simp) (some c) rest rfl
      rw [readFrom_cons hr, readFrom_cons hr]
      simp only [Segment.outside, Segment.quoted, List.singleton_append, List.nil_append,
        mentionsClass_cons, head?_outside, hrest, Bool.or_assoc]

end Mention

section Keep

variable {root block : Node} {selector : Text} {front back : List Node} {used : List Text}

/-- A block has a class if its selector mentions one. -/
theorem hasClass_eq_mentionsClass (hkind : block.kind = .block)
    (hselector : block.selector = some selector) : block.hasClass = mentionsClass selector := by
  have hclasses : block.classes = (occurrences recogniseClass selector).eraseDups := by
    rw [Node.classes, hkind, hselector]
  rw [Node.hasClass, hclasses, mentionsClass]
  cases occurrences recogniseClass selector with
  | nil => rfl
  | cons name names => rw [List.eraseDups_cons]; rfl

/-- Statements that mention no class stay as they are, in their order. -/
theorem filter_sublist_orderByUse (used : List Text) (children : List Node) :
    (children.filter (!·.hasClass)).Sublist (orderByUse used children) := by
  have hkeep (node : Node) (h : node.hasClass = false) : node.classes = [] :=
    (Node.hasClass_eq_false_iff node).mp h
  have hothers : ((children.filter (!·.isUsed used)).flatMap Node.settle).filter (!·.hasClass) =
      children.filter (!·.hasClass) := by
    rw [(filter_flatMap_settle (fun _ => rfl) hkeep _).2, List.filter_filter]
    refine List.filter_congr fun node _ => ?_
    cases hc : node.hasClass with
    | true => simp
    | false => simp [Node.isUsed, Node.mentions_of_classes_eq_nil (hkeep node hc)]
  rw [orderByUse_eq, ← hothers]
  exact List.filter_sublist.trans (List.sublist_append_right _ _)

/-- What a block mentions are class names. -/
theorem isClassName_of_mem_classes {name : Text} (h : name ∈ block.classes) :
    IsClassName name := by
  unfold Node.classes at h
  split at h
  · rw [List.mem_eraseDups] at h
    obtain ⟨_, place, length, _, hr⟩ := exists_of_mem_occurrences h
    unfold recogniseClass at hr
    split at hr
    · next c after =>
      split at hr
      · next hstart =>
        obtain ⟨_, rfl⟩ := Prod.mk.inj (Option.some.inj hr)
        refine ⟨hstart, fun d hd => ?_⟩
        rcases List.mem_cons.mp hd with rfl | hd
        · rw [isNameChar, isWord_of_isNameStart hstart, Bool.true_or]
        · exact List.all_eq_true.mp List.all_takeWhile d hd
      · cases hr
    · cases hr
  · cases h

/-- No rule that mentions a class is the same whether the class is used or not. -/
theorem exists_not_mem_orderByUse {children : List Node} (h : block.hasClass = true) :
    ∃ used, block ∉ orderByUse used children := by
  by_contra hall
  simp only [not_exists, not_not] at hall
  obtain ⟨name, hname⟩ := List.exists_mem_of_ne_nil block.classes (by simpa [Node.hasClass] using h)
  have hunmarked : block.mark false = block := by
    have hrefresh : block.refresh [name] = block := refresh_of_mem_orderByUse
      (List.forall_mem_singleton.mpr (isClassName_of_mem_classes hname)) (hall [name])
    rwa [Node.refresh, if_pos (by simp [Node.isUsed, Node.mentions, hname])] at hrefresh
  have hmarked : block.mark true = block := by
    have hrefresh := refresh_of_mem_orderByUse (by simp) (hall [])
    rwa [Node.refresh, if_neg (by simp [Node.isUsed]), if_neg (by simpa [Node.hasClass] using h)]
      at hrefresh
  have hcomments := congrArg Node.comments (hunmarked.trans hmarked.symm)
  simp [Node.mark] at hcomments

/-- A rule that is not used and holds no statement makes no difference. -/
theorem orderByUse_drop (hclass : block.hasClass = true) (hused : block.isUsed used = false)
    (hempty : block.hasContent = false) :
    orderByUse used (front ++ block :: back) = orderByUse used (front ++ back) := by
  have hfilter {p : Node → Bool} (hp : p block = false) :
      (front ++ block :: back).filter p = (front ++ back).filter p := by
    rw [List.filter_append, List.filter_append, List.filter_cons_of_neg (by simp [hp])]
  have hkey : block.useKey used = none := by
    rw [← Option.not_isSome_iff_eq_none, Node.isSome_useKey, hused]
    simp
  have hkept : block.isKept used = false := by
    rw [Node.isKept, hused, hempty]
    simpa [Node.hasClass] using hclass
  rw [orderByUse_eq_placed, orderByUse_eq_placed, hfilter (by simp [hkept])]
  congr 1
  refine List.flatMap_congr fun entry hentry => ?_
  have hmentions : block.mentions entry.1 = false :=
    by simpa using List.any_eq_false.mp hused entry.1 (List.fst_mem_of_mem_zipIdx hentry)
  rw [hfilter (by simp [hkey]), List.any_append, List.any_append, List.any_cons, hmentions,
    Bool.false_or]

/-- A rule whose points all stand in quoted strings stays as it is, in its place among the
statements that mention no class, whatever classes are used, exactly if no string has a point with
the start of a name behind it. If one has, the rule is lost when it holds no statement and nothing
that looks like a class in it is used. -/
theorem orderByUse_keeps_quoted_iff (hchildren : root.children = front ++ block :: back)
    (hkind : block.kind = .block) (hselector : block.selector = some selector)
    (hpoints : mentionsClass (outsideQuotes selector) = false) :
    ((∀ used, (front.filter (!·.hasClass) ++ block :: back.filter (!·.hasClass)).Sublist
        (root.orderByUse used).children) ↔
      ∀ body ∈ quotedTexts selector, mentionsClass body = false) ∧
    ∀ used, (∃ body ∈ quotedTexts selector, mentionsClass body = true) →
      block.isUsed used = false → block.hasContent = false →
      (root.orderByUse used).children = orderByUse used (front ++ back) := by
  have hroot (used : List Text) :
      (root.orderByUse used).children = orderByUse used (front ++ block :: back) := by
    rw [← hchildren]
    rfl
  have hclass : block.hasClass = (quotedTexts selector).any mentionsClass := by
    rw [hasClass_eq_mentionsClass hkind hselector, mentionsClass_eq none]
    exact (congrArg (· || _) hpoints).trans (Bool.false_or _)
  refine ⟨⟨fun hkept body hbody => ?_, fun hbodies used => ?_⟩, fun used hbody hused hempty => ?_⟩
  · by_contra hmention
    have hhas : block.hasClass = true := by
      rw [hclass]
      exact List.any_eq_true.mpr ⟨body, hbody, by simpa using hmention⟩
    obtain ⟨used, hlost⟩ := @exists_not_mem_orderByUse block (front ++ block :: back) hhas
    have hmem : block ∈ (root.orderByUse used).children := (hkept used).subset (by simp)
    rw [hroot] at hmem
    exact hlost hmem
  · have hnone : block.hasClass = false := by
      rw [hclass, List.any_eq_false]
      simpa using hbodies
    have hfilter : (front ++ block :: back).filter (!·.hasClass) =
        front.filter (!·.hasClass) ++ block :: back.filter (!·.hasClass) := by
      rw [List.filter_append, List.filter_cons_of_pos (by simp [hnone])]
    rw [hroot, ← hfilter]
    exact filter_sublist_orderByUse used _
  · rw [hroot]
    exact orderByUse_drop (by rw [hclass, List.any_eq_true]; exact hbody) hused hempty

/-- A rule with a version number in a string stays between the statements around it. -/
theorem orderByUse_keeps_version :
    let rule : Node := Node.emptyBlock "a[title=\"v. 1.0\"]".toList
    let sheet : Node := { kind := .block, children := [.ofStatement "@import x".toList [], rule] }
    mentionsClass (outsideQuotes "a[title=\"v. 1.0\"]".toList) = false ∧
      ∀ used, [Node.ofStatement "@import x".toList [], rule].Sublist
        (sheet.orderByUse used).children := by
  intro rule sheet
  have hpoints : mentionsClass (outsideQuotes "a[title=\"v. 1.0\"]".toList) = false := by
    decide +kernel
  have hkeeps := (@orderByUse_keeps_quoted_iff sheet rule _
    [.ofStatement "@import x".toList []] [] rfl rfl rfl hpoints).1
  exact ⟨hpoints, hkeeps.mpr (by decide +kernel)⟩

/-- The ending of a file in a string is taken for a class, and the rule is lost. -/
theorem orderByUse_loses_quoted :
    ¬ ∀ (root block : Node) (selector : Text) (front back : List Node) (used : List Text),
      root.children = front ++ block :: back → block.kind = .block →
      block.selector = some selector → mentionsClass (outsideQuotes selector) = false →
      (front.filter (!·.hasClass) ++ block :: back.filter (!·.hasClass)).Sublist
        (root.orderByUse used).children := by
  intro h
  have hkept := h { kind := .block, children := [.emptyBlock "a[href$=\".pdf\"]".toList] } _ _ [] []
    [] rfl rfl rfl (by decide +kernel)
  have hlength := hkept.length_le
  revert hlength
  decide +kernel

end Keep

end StyleModules
