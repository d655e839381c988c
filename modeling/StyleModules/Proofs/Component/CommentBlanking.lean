import StyleModules.Proofs.Component.UsagePass

/-!
# Blanking comments

Comments are blanked before anything else in a component is looked at. Every text falls into a front
in which all block comments are closed, and a rest that is empty or a block comment without an end
(`exists_openComment`). So blanking goes on behind a text whose block comments are closed
(`withoutBlocks_append`), while one that is open hides what stands behind the text up to the first
end there (`exists_of_open`). A line comment hides the rest of its line (`exists_of_lineComment`)
and nothing beyond it (`isLocal_recogniseLineComment`).
-/

namespace StyleModules

/-- What the search for block comments leaves of a text. -/
def withoutBlocks (t : Text) : Text := replaceOccurrences recogniseBlockComment t

section Blocks

variable {c : Char} {t body back : Text}

/-- What stands before a text makes no difference to the block comments in it. -/
theorem readFrom_blockComment (previous : Option Char) (t : Text) :
    readFrom Segment.fill recogniseBlockComment previous t = withoutBlocks t := by
  have hsame : recogniseBlockComment previous = recogniseBlockComment none := by
    funext u
    unfold recogniseBlockComment
    split <;> rfl
  exact congrArg (List.flatMap Segment.fill) (segmentsFrom_congr hsame t)

/-- A character that starts no comment stays. -/
theorem withoutBlocks_cons (h : recogniseBlockComment none (c :: t) = none) :
    withoutBlocks (c :: t) = c :: withoutBlocks t := by
  rw [← readFrom_blockComment none, readFrom_cons h, readFrom_blockComment]
  rfl

/-- A character that does not start like a comment stays. -/
theorem withoutBlocks_plain (h : ¬ ['/', '*'] <+: c :: t) :
    withoutBlocks (c :: t) = c :: withoutBlocks t := by
  refine withoutBlocks_cons ?_
  by_contra hfound
  obtain ⟨word, hword, hstart⟩ := beginsWith_blockComment.exists_word _ _ hfound
  rw [List.mem_singleton.mp hword] at hstart
  exact h hstart

/-- A closed comment becomes a space. -/
theorem withoutBlocks_closed (h : ¬ ['*', '/'] <:+: body) (back : Text) :
    withoutBlocks ('/' :: '*' :: (body ++ '*' :: '/' :: back)) = ' ' :: withoutBlocks back := by
  have hsplit : '/' :: '*' :: (body ++ '*' :: '/' :: back) =
      '/' :: '*' :: (body ++ ['*', '/']) ++ back := by simp
  have hfound := recogniseBlockComment_closed h none back
  rw [hsplit, show body.length + 4 = ('/' :: '*' :: (body ++ ['*', '/'])).length by simp] at hfound
  rw [hsplit, ← readFrom_blockComment none, readFrom_of_recognised (List.cons_ne_nil _ _) hfound,
    readFrom_blockComment]
  rfl

/-- An open comment stays. -/
theorem withoutBlocks_open (h : ¬ ['*', '/'] <:+: body) :
    withoutBlocks ('/' :: '*' :: body) = '/' :: '*' :: withoutBlocks body := by
  have hnone : recogniseBlockComment none ('/' :: '*' :: body) = none := by
    rw [recogniseBlockComment, afterCommentEnd?_eq_none_iff.mpr h, Option.map_none]
  rw [withoutBlocks_cons hnone, withoutBlocks_plain (by simp)]

/-- Blanking block comments leaves a star in front only if it stood there. -/
theorem head?_of_head?_withoutBlocks (h : (withoutBlocks t).head? = some '*') :
    t.head? = some '*' := by
  cases t with
  | nil => cases h
  | cons c t =>
    cases hr : recogniseBlockComment none (c :: t) with
    | none =>
      rw [withoutBlocks_cons hr] at h
      exact h
    | some found =>
      obtain ⟨body, back, hbody, hend, _⟩ := exists_of_recogniseBlockComment hr
      rw [hbody, withoutBlocks_closed hend] at h
      cases h

/-- A text without a slash stays. -/
theorem withoutBlocks_append_of_no_slash {t : Text} (h : '/' ∉ t) (back : Text) :
    withoutBlocks (t ++ back) = t ++ withoutBlocks back := by
  induction t with
  | nil => rfl
  | cons c t ih =>
    rw [List.mem_cons, not_or] at h
    have hplain : ¬ ['/', '*'] <+: c :: (t ++ back) := fun hstart =>
      h.1 (List.cons_prefix_cons.mp hstart).1
    rw [List.cons_append, withoutBlocks_plain hplain, ih h.2, List.cons_append]

/-- A text is cut where its last block comment is opened, if that is never closed. Before the cut,
blanking depends on nothing behind it. -/
theorem exists_openComment (t : Text) :
    ∃ front rest, t = front ++ rest ∧
      (rest = [] ∨ ∃ body, rest = '/' :: '*' :: body ∧ ¬ ['*', '/'] <:+: body) ∧
      ¬ ['/', '*'] <:+: withoutBlocks front ∧
      ∀ back, back.head? ≠ some '*' →
        withoutBlocks (front ++ back) = withoutBlocks front ++ withoutBlocks back := by
  induction hn : t.length using Nat.strong_induction_on generalizing t with
  | _ n ih =>
    subst hn
    by_cases hopen : ['/', '*'] <+: t
    · obtain ⟨rest, rfl⟩ := hopen
      cases hend : afterCommentEnd? rest with
      | none =>
        exact ⟨[], _, rfl, Or.inr ⟨rest, rfl, afterCommentEnd?_eq_none_iff.mp hend⟩, by decide,
          fun _ _ => rfl⟩
      | some tail =>
        obtain ⟨body, rfl, hbody⟩ := exists_of_afterCommentEnd? hend
        obtain ⟨front, rest, rfl, hrest, hfront, hlocal⟩ := ih tail.length (by simp; omega) tail rfl
        have hclosed := withoutBlocks_closed hbody
        refine ⟨'/' :: '*' :: (body ++ '*' :: '/' :: front), rest, by simp, hrest, ?_,
          fun back hback => ?_⟩
        · rw [hclosed, List.infix_cons_iff, not_or]
          exact ⟨by simp, hfront⟩
        · rw [List.cons_append, List.cons_append, List.append_assoc, List.cons_append,
            List.cons_append, hclosed, hclosed, hlocal back hback, List.cons_append]
    · cases t with
      | nil => exact ⟨[], [], rfl, Or.inl rfl, by decide, fun _ _ => rfl⟩
      | cons c t =>
        obtain ⟨front, rest, rfl, hrest, hfront, hlocal⟩ := ih t.length (by simp) t rfl
        have hstar (back : Text) (hback : back.head? ≠ some '*') :
            ¬ ['/', '*'] <+: c :: (front ++ back) := by
          intro hstart
          obtain ⟨rfl, hnext⟩ := List.cons_prefix_cons.mp hstart
          cases front with
          | nil => exact hback (List.singleton_prefix_iff_head?_eq_some.mp hnext)
          | cons d front =>
            obtain ⟨rfl, _⟩ := List.cons_prefix_cons.mp hnext
            exact hopen ⟨front ++ rest, rfl⟩
        have hfrontPlain : ¬ ['/', '*'] <+: c :: front := by
          have hnil := hstar [] (by simp)
          rwa [List.append_nil] at hnil
        refine ⟨c :: front, rest, rfl, hrest, ?_, fun back hback => ?_⟩
        · rw [withoutBlocks_plain hfrontPlain, List.infix_cons_iff, not_or]
          refine ⟨fun hstart => ?_, hfront⟩
          obtain ⟨rfl, hnext⟩ := List.cons_prefix_cons.mp hstart
          have hhead :=
            head?_of_head?_withoutBlocks (List.singleton_prefix_iff_head?_eq_some.mp hnext)
          exact hfrontPlain (List.cons_prefix_cons.mpr
            ⟨rfl, List.singleton_prefix_iff_head?_eq_some.mpr hhead⟩)
        · rw [List.cons_append, withoutBlocks_plain (hstar back hback),
            withoutBlocks_plain hfrontPlain, hlocal back hback, List.cons_append]

/-- Where every block comment is closed, blanking goes on behind the text. -/
theorem withoutBlocks_append (h : ¬ ['/', '*'] <:+: withoutBlocks t)
    (hback : back.head? ≠ some '*') :
    withoutBlocks (t ++ back) = withoutBlocks t ++ withoutBlocks back := by
  obtain ⟨front, rest, rfl, rfl | ⟨body, rfl, hbody⟩, _, hlocal⟩ := exists_openComment t
  · rw [List.append_nil]
    exact hlocal back hback
  · rw [hlocal _ (by simp), withoutBlocks_open hbody] at h
    exact absurd ⟨withoutBlocks front, withoutBlocks body, by simp⟩ h

/-- A block comment that is open at the end of a text goes on to the first end behind it. -/
theorem exists_of_open {after : Text} (h : ['/', '*'] <:+: withoutBlocks t)
    (hback : back.head? ≠ some '/') (hafter : afterCommentEnd? back = some after) :
    ∃ front, front <+: t ∧
      withoutBlocks (t ++ back) = withoutBlocks front ++ ' ' :: withoutBlocks after := by
  obtain ⟨front, rest, rfl, rfl | ⟨body, rfl, hbody⟩, hfront, hlocal⟩ := exists_openComment t
  · rw [List.append_nil] at h
    exact absurd h hfront
  · have hend := afterCommentEnd?_append_of_none (afterCommentEnd?_eq_none_iff.mpr hbody) hback
    rw [hafter] at hend
    obtain ⟨comment, hcomment, hclosed⟩ := exists_of_afterCommentEnd? hend
    refine ⟨front, List.prefix_append front _, ?_⟩
    rw [List.append_assoc, List.cons_append, List.cons_append, hcomment, hlocal _ (by simp),
      withoutBlocks_closed hclosed]

end Blocks

section Blanks

/-- Occurrences are replaced by blanks. -/
def Blanks (recognise : Recogniser Text) : Prop :=
  ∀ previous t length value, recognise previous t = some (length, value) → value = [' ']

/-- Replacing by blanks adds no other character. -/
theorem Blanks.mem_of_mem {recognise : Recogniser Text} (h : Blanks recognise)
    {previous : Option Char} {t : Text} {c : Char}
    (hc : c ∈ readFrom Segment.fill recognise previous t) : c ∈ t ∨ c = ' ' := by
  rcases mem_of_mem_readFrom_fill hc with hc | ⟨before, rest, length, value, hr, hc⟩
  · exact Or.inl hc
  · rw [h _ _ _ _ hr] at hc
    exact Or.inr (List.mem_singleton.mp hc)

/-- Block comments are replaced by blanks. -/
theorem blanks_blockComment : Blanks recogniseBlockComment := by
  intro previous t length value h
  obtain ⟨_, _, _, _, _, hvalue⟩ := exists_of_recogniseBlockComment h
  exact hvalue

/-- Line comments are replaced by blanks. -/
theorem blanks_lineComment : Blanks recogniseLineComment := by
  intro previous t length value h
  unfold recogniseLineComment at h
  split at h
  · exact (Prod.mk.inj (Option.some.inj h)).2.symm
  · cases h

end Blanks

section Lines

/-- A line comment starts with two slashes. -/
theorem lineComment_eq_none {previous : Option Char} {t : Text} (h : ¬ ['/', '/'] <+: t) :
    recogniseLineComment previous t = none := by
  by_contra hfound
  obtain ⟨word, hword, hstart⟩ := beginsWith_lineComment.exists_word _ _ hfound
  rw [List.mem_singleton.mp hword] at hstart
  exact h hstart

/-- No line comment goes beyond its line. -/
theorem isLocal_recogniseLineComment {t back : Text} (hback : LineEnd back) :
    IsLocal recogniseLineComment t back where
  same previous rest _ _ := by
    by_cases hstart : ['/', '/'] <+: rest
    · obtain ⟨body, rfl⟩ := hstart
      have hstop : back.takeWhile (· != '\n') = [] := by
        rcases hback with rfl | ⟨more, rfl⟩ <;> rfl
      have htake : (body ++ back).takeWhile (· != '\n') = body.takeWhile (· != '\n') := by
        rw [List.takeWhile_append, hstop, List.append_nil]
        split
        · next hall => exact ((List.takeWhile_sublist _).eq_of_length hall).symm
        · rfl
      show recogniseLineComment previous ('/' :: '/' :: (body ++ back)) =
        recogniseLineComment previous ('/' :: '/' :: body)
      rw [recogniseLineComment, recogniseLineComment, htake]
    · have hword : ∀ c ∈ back.head?, c ∉ ['/', '/'] := by
        intro c hc
        rw [hback.eq_feed hc]
        decide
      rw [lineComment_eq_none hstart,
        lineComment_eq_none fun h => hstart (isPrefix_of_isPrefix_append hword h)]
  within previous rest length value _ h := by
    unfold recogniseLineComment at h
    split at h
    · obtain ⟨rfl, _⟩ := Prod.mk.inj (Option.some.inj h)
      exact Nat.add_le_add_right (List.takeWhile_sublist _).length_le 2
    · cases h

/-- A line is kept up to the first line comment in it. -/
theorem exists_of_lineComment {t rest : Text} (h : ['/', '/'] <:+: t) (hline : '\n' ∉ t ++ rest)
    (previous : Option Char) :
    ∃ front, front <+: t ∧
      readFrom Segment.fill recogniseLineComment previous (t ++ rest) = front ++ [' '] := by
  induction t generalizing previous with
  | nil => simp at h
  | cons c t ih =>
    by_cases hstart : ['/', '/'] <+: c :: t
    · obtain ⟨body, hbody⟩ := hstart
      have hbodyLine : '\n' ∉ body ++ rest := by
        rw [← hbody] at hline
        exact fun hmem => hline (List.mem_cons_of_mem _ (List.mem_cons_of_mem _ hmem))
      have hfound : recogniseLineComment previous ('/' :: '/' :: (body ++ rest) ++ []) =
          some (('/' :: '/' :: (body ++ rest)).length, [' ']) :=
        recogniseLineComment_line hbodyLine (Or.inl rfl) previous
      refine ⟨[], List.nil_prefix, ?_⟩
      rw [← hbody, ← List.append_nil (['/', '/'] ++ body ++ rest)]
      exact readFrom_of_recognised (List.cons_ne_nil _ _) hfound
    · have hrest : ['/', '/'] <:+: t := (List.infix_cons_iff.mp h).resolve_left hstart
      have hnone : recogniseLineComment previous (c :: (t ++ rest)) = none := by
        refine lineComment_eq_none fun hopen => ?_
        obtain ⟨rfl, hnext⟩ := List.cons_prefix_cons.mp hopen
        cases t with
        | nil => simp at hrest
        | cons d t =>
          obtain ⟨rfl, _⟩ := List.cons_prefix_cons.mp hnext
          exact hstart ⟨t, rfl⟩
      obtain ⟨front, hfront, hread⟩ :=
        ih hrest (fun hmem => hline (List.mem_cons_of_mem c hmem)) (some c)
      refine ⟨c :: front, List.cons_prefix_cons.mpr ⟨rfl, hfront⟩, ?_⟩
      rw [List.cons_append, readFrom_cons hnone, hread]
      rfl

end Lines

end StyleModules
