import Mathlib.Data.List.Basic
import StyleModules.Component.ImportLine

/-!
# The place behind the preamble

A line set behind the preamble of a component has to be found in the same place when the line is
taken away again, although the preamble was given a line feed if it lacked one. The cut behind
leading comments depends only on the comments: with any text behind them that is not taken for
their continuation it is in the same place (`cutMargin_margin_append`), and so is the cut behind a
directive (`exists_directive`). So a preamble stays the preamble when its last line is ended
(`exists_preamble`).
-/

namespace StyleModules

/-- A comment that ends does so with a character before it. -/
theorem afterCommentEnd?_cons (c : Char) {t : Text} (h : (afterCommentEnd? t).isSome) :
    (afterCommentEnd? (c :: t)).isSome := by
  unfold afterCommentEnd?
  split
  · next hcons => cases hcons
  · rfl
  · next hcons =>
    obtain ⟨rfl, rfl⟩ := List.cons.inj hcons
    exact h

/-- The cut keeps the end of a block comment in the margin. -/
theorem afterCommentEnd?_cutMargin {t : Text} (other : Text) (h : (afterCommentEnd? t).isSome) :
    (afterCommentEnd? ((cutMargin .block t).1 ++ other)).isSome := by
  fun_induction afterCommentEnd? t with
  | case1 => cases h
  | case2 rest => rfl
  | case3 c rest hends ih =>
    rw [cutMargin]
    · exact afterCommentEnd?_cons c (ih h)
    · exact hends

/-- Within a comment the margin starts as the text does. -/
theorem head?_cutMargin_block (t : Text) : (cutMargin .block t).1.head? = t.head? := by
  generalize hstate : MarginState.block = state
  fun_cases cutMargin state t <;> first | rfl | cases hstate

/-- The cut loses nothing. -/
theorem cutMargin_append (state : MarginState) (t : Text) :
    (cutMargin state t).1 ++ (cutMargin state t).2 = t := by
  fun_induction cutMargin state t with
  | case1 => rfl
  | case2 rest cut ih => exact congrArg ('*' :: '/' :: ·) ih
  | case3 c rest hends cut ih => exact congrArg (c :: ·) ih
  | case4 c rest cut ih => exact congrArg (c :: ·) ih
  | case5 rest cut ih => exact congrArg ('/' :: '/' :: ·) ih
  | case6 rest hclosed cut ih => exact congrArg ('/' :: '*' :: ·) ih
  | case7 rest hopen => rfl
  | case8 c rest hline hblock hblank cut ih => exact congrArg (c :: ·) ih
  | case9 c rest hline hblock hblank => rfl

/-- Nothing more can be cut from the text behind the margin. -/
theorem cutMargin_rest (state : MarginState) (t : Text) :
    cutMargin .between (cutMargin state t).2 = ([], (cutMargin state t).2) := by
  fun_induction cutMargin state t with
  | case1 => rfl
  | case2 rest cut ih => exact ih
  | case3 c rest hends cut ih => exact ih
  | case4 c rest cut ih => exact ih
  | case5 rest cut ih => exact ih
  | case6 rest hclosed cut ih => exact ih
  | case7 rest hopen => rw [cutMargin, if_neg hopen]
  | case8 c rest hline hblock hblank cut ih => exact ih
  | case9 c rest hline hblock hblank => rw [cutMargin, if_neg hblank] <;> assumption

/-- A margin is cut from any text in its front. Where the margin was the whole text, its last
comment may reach to the end, and a line feed has to follow. -/
theorem cutMargin_margin_append {state : MarginState} {t other : Text}
    (hclosed : state = .block → (afterCommentEnd? t).isSome)
    (hother : (cutMargin state t).2 ≠ [] ∨ other.head? = some '\n') :
    cutMargin state ((cutMargin state t).1 ++ other) =
      ((cutMargin state t).1 ++ (cutMargin .between other).1, (cutMargin .between other).2) := by
  fun_induction cutMargin state t with
  | case1 state =>
    obtain ⟨rest, rfl⟩ := List.head?_eq_some_iff.mp (hother.resolve_left fun h => h rfl)
    cases state with
    | between => rfl
    | block => cases hclosed rfl
    | line => rw [List.nil_append, cutMargin]; rfl
  | case2 rest cut ih =>
    rw [List.cons_append, List.cons_append, cutMargin, ih (by simp) hother]
    rfl
  | case3 c rest hends cut ih =>
    have hlater := hclosed rfl
    rw [afterCommentEnd?.eq_3 c rest hends] at hlater
    rw [List.cons_append, cutMargin, ih (fun _ => hlater) hother]
    · rfl
    · -- The first character behind `c` is in the margin too, so it is no new end of the comment.
      intro back hc hback
      have hhead := head?_cutMargin_block rest
      obtain ⟨d, rest, rfl⟩ := List.exists_cons_of_ne_nil fun h : rest = [] => by
        rw [h] at hlater
        cases hlater
      obtain ⟨margin, hmargin⟩ := List.head?_eq_some_iff.mp hhead
      rw [show cut.1 = d :: margin from hmargin, List.cons_append, List.cons.injEq] at hback
      exact hends rest hc (by rw [hback.1])
  | case4 c rest cut ih =>
    rw [List.cons_append, cutMargin, ih ?_ hother]
    · rfl
    · split <;> simp
  | case5 rest cut ih =>
    rw [List.cons_append, List.cons_append, cutMargin, ih (by simp) hother]
    rfl
  | case6 rest hend cut ih =>
    rw [List.cons_append, List.cons_append, cutMargin,
      if_pos (afterCommentEnd?_cutMargin other hend), ih (fun _ => hend) hother]
    rfl
  | case7 rest hopen => rfl
  | case8 c rest hline hblock hblank cut ih =>
    rw [List.cons_append, cutMargin, if_pos hblank, ih (by simp) hother]
    · rfl
    all_goals
      rintro _ rfl
      cases hblank
  | case9 c rest hline hblock hblank => rfl

/-- The margin of a text goes on behind it in another one. -/
theorem cutMargin_between_append {t other : Text}
    (hother : (cutMargin .between t).2 ≠ [] ∨ other.head? = some '\n') :
    cutMargin .between ((cutMargin .between t).1 ++ other) =
      ((cutMargin .between t).1 ++ (cutMargin .between other).1, (cutMargin .between other).2) :=
  cutMargin_margin_append nofun hother

/-- A quote is read if the text starts with one. -/
theorem afterQuote?_eq_some_iff {t rest : Text} :
    afterQuote? t = some rest ↔ ∃ q, isQuote q = true ∧ t = q :: rest := by
  cases t with
  | nil => simp [afterQuote?]
  | cons c t =>
    simp only [afterQuote?, Option.ite_none_right_eq_some, Option.some.injEq, List.cons.injEq]
    constructor
    · rintro ⟨hc, rfl⟩
      exact ⟨c, hc, rfl, rfl⟩
    · rintro ⟨q, hq, rfl, rfl⟩
      exact ⟨hq, rfl⟩

/-- The character is dropped where it stands first. -/
@[simp] theorem dropOne_cons (c : Char) (t : Text) : dropOne c (c :: t) = t := by
  rw [dropOne, if_pos (beq_self_eq_true c)]

/-- Nothing is dropped where another character stands first. -/
theorem dropOne_of_head?_ne {c : Char} {t : Text} (h : t.head? ≠ some c) : dropOne c t = t := by
  cases t with
  | nil => rfl
  | cons d t => rw [dropOne, if_neg (by simpa using h)]

/-- A text that starts with a character is that one and the rest. -/
theorem eq_cons_dropOne {c : Char} {t : Text} (h : t.head? = some c) : t = c :: dropOne c t := by
  obtain ⟨rest, rfl⟩ := List.head?_eq_some_iff.mp h
  rw [dropOne_cons]

/-- Spaces at the end of a line either end in its line feed or can be given one. -/
theorem exists_blank_end (t : Text) :
    ∃ ending, t = ending ++ dropOne '\n' (t.dropWhile fun c => c == ' ' || c == '\t') ∧
      (ending.getLast? = some '\n' ∨ ∀ other,
        dropOne '\n' ((ending ++ '\n' :: other).dropWhile fun c => c == ' ' || c == '\t') =
          other) := by
  have hcut := List.takeWhile_append_dropWhile (p := fun c => c == ' ' || c == '\t') (l := t)
  by_cases hfeed : (t.dropWhile fun c => c == ' ' || c == '\t').head? = some '\n'
  · refine ⟨t.takeWhile (fun c => c == ' ' || c == '\t') ++ ['\n'], ?_, .inl List.getLast?_concat⟩
    rw [List.append_assoc, List.singleton_append, ← eq_cons_dropOne hfeed, hcut]
  · refine ⟨t.takeWhile fun c => c == ' ' || c == '\t', ?_, .inr fun other => ?_⟩
    · rw [dropOne_of_head?_ne hfeed, hcut]
    · rw [List.dropWhile_append_of_pos fun c hc => List.all_eq_true.mp List.all_takeWhile c hc,
        List.dropWhile_cons_of_neg (by decide), dropOne_cons]

/-- What ends a line either has its line feed or can be given one. -/
theorem exists_line_end (t : Text) :
    ∃ ending, t = ending ++ afterLineEnd t ∧
      (ending.getLast? = some '\n' ∨ ∀ other, afterLineEnd (ending ++ '\n' :: other) = other) := by
  obtain ⟨ending, hcut, hending⟩ := exists_blank_end (dropOne ';' t)
  by_cases hsemicolon : t.head? = some ';'
  · refine ⟨';' :: ending, ?_, hending.imp (fun hlast => ?_) fun hend other => ?_⟩
    · rw [List.cons_append, afterLineEnd, ← hcut]
      exact eq_cons_dropOne hsemicolon
    · rw [List.getLast?_cons, hlast]
      rfl
    · rw [afterLineEnd, List.cons_append, dropOne_cons, hend]
  · rw [dropOne_of_head?_ne hsemicolon] at hcut
    refine ⟨ending, ?_, hending.imp_right fun hend other => ?_⟩
    · rw [afterLineEnd, dropOne_of_head?_ne hsemicolon]
      exact hcut
    · have hhead : (ending ++ '\n' :: other).head? ≠ some ';' := by
        rw [hcut] at hsemicolon
        cases ending with
        | nil => simp
        | cons c ending => simpa using hsemicolon
      rw [afterLineEnd, dropOne_of_head?_ne hhead, hend]

/-- A directive is its words in quotes, up to the end of the line. -/
theorem afterDirective?_eq_some_iff {t rest : Text} :
    afterDirective? t = some rest ↔ ∃ q q' back, isQuote q = true ∧ isQuote q' = true ∧
      t = q :: ("use client".toList ++ q' :: back) ∧ afterLineEnd back = rest := by
  simp only [afterDirective?, Option.bind_eq_bind, Option.bind_eq_some_iff,
    afterQuote?_eq_some_iff, List.isPrefixOf?_eq_some_iff_append_eq, Option.pure_def,
    Option.some.injEq]
  constructor
  · rintro ⟨_, ⟨q, hq, rfl⟩, _, rfl, back, ⟨q', hq', rfl⟩, rfl⟩
    exact ⟨q, q', back, hq, hq', rfl, rfl⟩
  · rintro ⟨q, q', back, hq, hq', rfl, rfl⟩
    exact ⟨_, ⟨q, hq, rfl⟩, _, rfl, back, ⟨q', hq', rfl⟩, rfl⟩

/-- A directive, which no margin contains, either ends its line or can be given a line feed. -/
theorem exists_directive {t rest : Text} (h : afterDirective? t = some rest) :
    ∃ directive, t = directive ++ rest ∧ directive ≠ [] ∧
      (∀ other, cutMargin .between (directive ++ other) = ([], directive ++ other)) ∧
      (directive.getLast? = some '\n' ∨
        ∀ other, afterDirective? (directive ++ '\n' :: other) = some other) := by
  obtain ⟨q, q', back, hq, hq', rfl, rfl⟩ := afterDirective?_eq_some_iff.mp h
  obtain ⟨ending, hcut, hending⟩ := exists_line_end back
  refine ⟨q :: ("use client".toList ++ q' :: ending), ?_, List.cons_ne_nil _ _, fun other => ?_,
    hending.imp (fun hlast => ?_) fun hend other => ?_⟩
  · simpa using hcut
  · rw [isQuote, Bool.or_eq_true, beq_iff_eq, beq_iff_eq] at hq
    obtain rfl | rfl := hq <;> rfl
  · simp [List.getLast?_cons, hlast]
  · exact afterDirective?_eq_some_iff.mpr
      ⟨q, q', ending ++ '\n' :: other, hq, hq', by simp, hend other⟩

/-- The preamble ends where neither a margin nor a directive goes on. -/
theorem preambleLength_append {pre rest : Text}
    (h : (afterDirective? (cutMargin .between (pre ++ rest)).2).getD
      (cutMargin .between (pre ++ rest)).2 = rest) :
    preambleLength (pre ++ rest) = pre.length := by
  rw [preambleLength, h, List.length_append, Nat.add_sub_cancel_right]

/-- A text that ends in a line feed needs none. -/
theorem endLine_of_getLast? {t : Text} (h : t.getLast? = some '\n') : endLine t = t := by
  rw [endLine, if_pos]
  simp [h]

/-- A line is ended by at most one line feed. -/
theorem endLine_eq_or (t : Text) : endLine t = t ∨ endLine t = t ++ ['\n'] := by
  rw [endLine]
  split
  · exact .inl rfl
  · exact .inr rfl

/-- A line feed at the end of the preamble belongs to it. -/
theorem preambleLength_endLine_append {pre rest : Text}
    (hcut : preambleLength (pre ++ rest) = pre.length)
    (hfeed : pre.getLast? = some '\n' ∨
      preambleLength (pre ++ ['\n'] ++ rest) = (pre ++ ['\n']).length) :
    preambleLength (endLine pre ++ rest) = (endLine pre).length := by
  obtain hlast | hfeed := hfeed
  · rwa [endLine_of_getLast? hlast]
  · obtain h | h := endLine_eq_or pre <;> rw [h]
    exacts [hcut, hfeed]

/-- The preamble of a text, with its last line ended, is the preamble of what it makes with the
rest of the text. -/
theorem exists_preamble (t : Text) :
    ∃ pre rest, t = pre ++ rest ∧ preambleLength t = pre.length ∧
      preambleLength (endLine pre ++ rest) = (endLine pre).length := by
  have ht := cutMargin_append .between t
  have hrest := cutMargin_rest .between t
  cases hdirective : afterDirective? (cutMargin .between t).2 with
  | none =>
    have hcut : preambleLength ((cutMargin .between t).1 ++ (cutMargin .between t).2) =
        (cutMargin .between t).1.length :=
      preambleLength_append (by rw [ht, hdirective]; rfl)
    refine ⟨_, _, ht.symm, by rwa [ht] at hcut, preambleLength_endLine_append hcut (.inr ?_)⟩
    have hfeed : cutMargin .between ('\n' :: (cutMargin .between t).2) =
        (['\n'], (cutMargin .between t).2) := by
      rw [cutMargin, if_pos (by decide), hrest] <;> intros <;> contradiction
    apply preambleLength_append
    rw [List.append_assoc, List.singleton_append,
      cutMargin_between_append (.inr List.head?_cons), hfeed, hdirective]
    rfl
  | some rest =>
    obtain ⟨directive, hback, hne, hstart, hending⟩ := exists_directive hdirective
    rw [hback, ← List.append_assoc] at ht
    have hcut : preambleLength ((cutMargin .between t).1 ++ directive ++ rest) =
        ((cutMargin .between t).1 ++ directive).length :=
      preambleLength_append (by rw [ht, hdirective]; rfl)
    refine ⟨_, _, ht.symm, by rwa [ht] at hcut, preambleLength_endLine_append hcut ?_⟩
    refine hending.imp (fun hlast => ?_) fun hend => preambleLength_append ?_
    · rw [List.getLast?_append, hlast, Option.some_or]
    · have hmargin : (cutMargin .between t).2 ≠ [] := by
        rw [hback]
        exact List.append_ne_nil_of_left_ne_nil hne rest
      rw [List.append_assoc, List.append_assoc, cutMargin_between_append (.inl hmargin),
        List.singleton_append, hstart, hend]
      rfl

end StyleModules
