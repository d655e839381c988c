import StyleModules.Proofs.Component.Resync
import StyleModules.Proofs.Files.Rewrite
import StyleModules.Proofs.Layout.Characters

/-!
# A second sync does nothing

The stylesheet of a component is never the component itself, so writing it leaves the component as
it is. Nor does the text that is written have a carriage return, unless a name of a category has
one, so it is read back as it was written. A second sync therefore starts from the same classes and
from the text that the first has left, which is already in line with them: it writes no file and
reports no change.
-/

namespace StyleModules

section Naming

/-- A text that is not cut at a point has none. -/
theorem Path.cutLastPoint_eq_none {t : Text} (h : Path.cutLastPoint t = none) : '.' ∉ t := by
  induction t with
  | nil => exact List.not_mem_nil
  | cons c t ih =>
    rw [Path.cutLastPoint] at h
    split at h
    · cases h
    · next hnone =>
      split at h
      · cases h
      · next hc =>
        rw [List.mem_cons, not_or]
        exact ⟨fun he => hc (by simp [← he]), ih hnone⟩

/-- There is one point in a suffix, at its start. -/
theorem Path.exists_of_cutLastPoint {t front back : Text}
    (h : Path.cutLastPoint t = some (front, back)) : ∃ rest, back = '.' :: rest ∧ '.' ∉ rest := by
  induction t generalizing front with
  | nil => simp [Path.cutLastPoint] at h
  | cons c t ih =>
    rw [Path.cutLastPoint] at h
    split at h
    · next inner hinner =>
      rw [Option.some.injEq, Prod.mk.injEq] at h
      exact ih (h.2 ▸ hinner)
    · next hnone =>
      split at h
      · next hc =>
        rw [Option.some.injEq, Prod.mk.injEq] at h
        exact ⟨t, by rw [← h.2, beq_iff_eq.mp hc], Path.cutLastPoint_eq_none hnone⟩
      · cases h

/-- No name is the name of its own stylesheet. -/
theorem Path.stem_append_sheetEnding_ne (name : Text) :
    (Path.splitName name).1 ++ sheetEnding ≠ name := by
  intro he
  have hsuffix : sheetEnding = (Path.splitName name).2 :=
    List.append_cancel_left (he.trans (Path.splitName_append name).symm)
  have hpoint : ∀ rest, sheetEnding = '.' :: rest → '.' ∈ rest := by
    rintro rest hr
    rw [← (List.cons.inj hr).2]
    decide
  unfold Path.splitName at hsuffix
  split at hsuffix
  · next front back hcut =>
    split at hsuffix
    · cases hsuffix
    · obtain ⟨rest, rfl, hrest⟩ := Path.exists_of_cutLastPoint hcut
      exact hrest (hpoint rest hsuffix)
  · cases hsuffix

/-- A stylesheet is in the directory of its component, under the component's stem. -/
theorem Path.exists_of_moduleSheet {component sheet : Path}
    (h : component.moduleSheet = .ok sheet) :
    ∃ front name, component.names = front ++ [name] ∧
      sheet = ⟨component.anchor, front ++ [(Path.splitName name).1 ++ sheetEnding]⟩ := by
  obtain ⟨anchor, names⟩ := component
  rcases List.eq_nil_or_concat names with rfl | ⟨front, name, rfl⟩
  · cases h
  · rw [List.concat_eq_append] at h ⊢
    refine ⟨front, name, rfl, ?_⟩
    simp only [Path.moduleSheet, Path.withName?, Path.parent, Path.child, Path.stem, Path.name,
      List.getLast?_concat, List.dropLast_concat, Option.getD_some] at h
    rw [if_neg (by simp)] at h
    exact (Except.ok.inj h).symm

/-- Following one name leads to the name's place in the directory, unless the name is as short as
one or two points. -/
theorem World.walk_singleton {store : Store} {location reached : Location} {name : Text}
    (h : World.walk store location [name] = .ok reached) :
    reached = location ++ [name] ∨ name.length ≤ 2 ∧ reached.length ≤ location.length := by
  rw [World.walk] at h
  split at h
  · split at h
    · next hname =>
      rw [World.walk] at h
      rw [Bool.or_eq_true, List.isEmpty_iff, beq_iff_eq] at hname
      refine Or.inr ⟨?_, by rw [← Except.ok.inj h]⟩
      rcases hname with rfl | rfl <;> simp
    · split at h
      · next hname =>
        rw [World.walk] at h
        rw [beq_iff_eq.mp hname, ← Except.ok.inj h]
        exact Or.inr ⟨by simp, by simp⟩
      · rw [World.walk] at h
        exact Or.inl (Except.ok.inj h).symm
  · cases h
  · cases h

/-- A component and its stylesheet are at different places. -/
theorem World.locate_moduleSheet_ne {world : World} {component sheet : Path} {location : Location}
    (hsheet : component.moduleSheet = .ok sheet) (hl : world.locate sheet = .ok location) :
    world.locate component ≠ .ok location := by
  obtain ⟨front, name, hnames, rfl⟩ := Path.exists_of_moduleSheet hsheet
  intro hc
  have hstart : world.start ⟨component.anchor, front ++ [(Path.splitName name).1 ++ sheetEnding]⟩ =
      world.start component := rfl
  rw [World.locate, hstart, World.walk_append] at hl
  rw [World.locate, hnames, World.walk_append] at hc
  split at hl
  · cases hl
  · next directory hd =>
    rw [hd] at hc
    have hsheetPlace : location = directory ++ [(Path.splitName name).1 ++ sheetEnding] := by
      refine (World.walk_singleton hl).resolve_right fun hshort => ?_
      have hlength : sheetEnding.length = 11 := by decide
      rw [List.length_append] at hshort
      omega
    rcases World.walk_singleton hc with hplace | ⟨_, hshort⟩
    · rw [hplace, List.append_cancel_left_eq, List.cons.injEq] at hsheetPlace
      exact Path.stem_append_sheetEnding_ne name hsheetPlace.1.symm
    · rw [hsheetPlace, List.length_append, List.length_singleton] at hshort
      omega

end Naming

section Exec

open Session

variable {style : Style} {component sheet : Path} {source css : Text} {world after : World}

/-- Where the component and its stylesheet can be read, a sync that makes no stylesheets comes down
to updating the stylesheet for the classes used. -/
theorem exec_syncComponent (hsource : world.Holds component source)
    (hsheet : component.moduleSheet = .ok sheet) (hcss : world.Holds sheet css) {changed : Bool}
    (hupdate : (updateSheet style (extractClasses source) sheet css).exec world =
      (.ok changed, after)) :
    (syncComponent style false component).exec world =
      (.ok ⟨component, some sheet, false, changed, false⟩, after) := by
  have hresolve : (resolveSheet component false).exec world = (.ok (some sheet, false), world) := by
    have hlift : (liftM component.moduleSheet : Session Path).exec world = (.ok sheet, world) := by
      rw [hsheet]
      rfl
    rw [resolveSheet, exec_bind hlift, exec_bind (exec_look _ world),
      World.pathExists_of_holds hcss]
    rfl
  have hneeds : (needsNone false component (extractClasses source)).exec world =
      (.ok false, world) := rfl
  rw [syncComponent, exec_bind (exec_readText hsource)]
  show (needsNone false component (extractClasses source) >>= _).exec world = _
  rw [exec_bind hneeds]
  show (resolveSheet component false >>= _).exec world = _
  rw [exec_bind hresolve]
  show (syncSheet style false component source sheet false).exec world = _
  rw [syncSheet, exec_bind (exec_readText hcss)]
  show ((pure false : Session Bool) >>= _).exec world = _
  rw [exec_bind (exec_pure false world), exec_bind hupdate]
  rfl

/-- A stylesheet that is in line with the classes used is not written. -/
theorem exec_updateSheet_of_eq {used : List Text} (h : syncText style used css = css) :
    (updateSheet style used sheet css).exec world = (.ok false, world) := by
  rw [updateSheet_text, if_pos (by simpa using h)]
  rfl

/-- After an update the stylesheet holds the text in line with the classes used, and files elsewhere
hold what they held. -/
theorem exec_updateSheet {used : List Text} (hcss : world.Holds sheet css)
    (hreturn : '\r' ∉ syncText style used css) :
    ∃ changed after, (updateSheet style used sheet css).exec world = (.ok changed, after) ∧
      after.Holds sheet (syncText style used css) ∧
      ∀ (other : Path) (u : Text), world.Holds other u → world.locate other ≠ world.locate sheet →
        after.Holds other u := by
  by_cases heq : syncText style used css = css
  · exact ⟨false, world, exec_updateSheet_of_eq heq, by rwa [heq], fun _ _ h _ => h⟩
  · obtain ⟨after, hwrite, hholds, hothers⟩ := hcss.write hreturn
    refine ⟨true, after.report (.logged .info ("Updated: ".toList ++ sheet.toText)), ?_, hholds,
      hothers⟩
    rw [updateSheet_text, if_neg (by simpa using heq), exec_bind (exec_writeText hwrite)]
    rfl

end Exec

section NoReturn

/-- No carriage return is left where line ends are read as line feeds. -/
theorem return_not_mem_universalNewlines (t : Text) : '\r' ∉ universalNewlines t := by
  fun_induction universalNewlines t with
  | case1 => exact List.not_mem_nil
  | case2 rest ih => simpa using ih
  | case3 c rest _ ih =>
    rw [List.mem_cons, not_or]
    refine ⟨?_, ih⟩
    split
    · decide
    · next hc => exact Ne.symm hc

/-- A text that is read from a file has no carriage return. -/
theorem World.Holds.no_return {world : World} {path : Path} {t : Text} (h : world.Holds path t) :
    '\r' ∉ t := by
  obtain ⟨bytes, _, ht⟩ := h
  obtain ⟨s, _, rfl⟩ := Option.map_eq_some_iff.mp ht
  exact return_not_mem_universalNewlines s.toList

/-- Bringing a stylesheet in line puts no carriage return into it. -/
theorem return_not_mem_syncText {style : Style} {used : List Text} {css : Text}
    (hspec : ∀ name ∈ style.spec.names, '\r' ∉ name)
    (hused : ∀ name ∈ used, ∀ c ∈ name, isNameChar c = true) (hcss : '\r' ∉ css) :
    '\r' ∉ syncText style used css := by
  have hmarker : (Norm.without '\r').comment unusedMarker := by
    show '\r' ∉ unusedMarker
    decide
  have hselectors : ∀ name ∈ used, (Norm.without '\r').selector ('.' :: name) := by
    intro name hname hm
    rcases List.mem_cons.mp hm with hm | hm
    · exact absurd hm (by decide)
    · exact absurd (hused name hname _ hm) (by decide)
  exact not_mem_format (by decide) hspec ((parse_without hcss).orderByUse hmarker hselectors)

end NoReturn

section Twice

variable {style : Style} {component sheet : Path} {source css : Text} {world : World}

/-- A second sync of a component writes no file and reports no change: the world stays as the first
one has left it, with the stylesheet in line with the classes used. -/
theorem syncComponent_syncComponent (hspec : style.spec.Proper)
    (hreturn : ∀ name ∈ style.spec.names, '\r' ∉ name) (hsource : world.Holds component source)
    (hsheet : component.moduleSheet = .ok sheet) (hcss : world.Holds sheet css)
    (hnames : ∀ name ∈ extractClasses source, name.head?.any isNameStart = true)
    (h : (parse css).IsSheet Norm.printable) :
    ∃ first second after,
      (syncComponent style false component).exec world = (.ok first, after) ∧
      after.Holds sheet (syncText style (extractClasses source) css) ∧
      (syncComponent style false component).exec after = (.ok second, after) ∧
      second.changed = false ∧ second.written = [] ∧
      syncText style (extractClasses source) (syncText style (extractClasses source) css) =
        syncText style (extractClasses source) css := by
  have hchars : ∀ name ∈ extractClasses source, ∀ c ∈ name, isNameChar c = true :=
    fun name hname => isNameChar_of_mem_extractClasses hname
  have hclass : ∀ name ∈ extractClasses source, IsClassName name :=
    fun name hname => ⟨hnames name hname, hchars name hname⟩
  obtain ⟨changed, after, hupdate, hafter, hothers⟩ := exec_updateSheet hcss
    (return_not_mem_syncText hreturn hchars hcss.no_return)
  have hplace : world.locate component ≠ world.locate sheet := by
    obtain ⟨bytes, hb, _⟩ := hcss
    obtain ⟨location, stamp, hl, _⟩ := World.exists_of_readBytes hb
    rw [hl]
    exact World.locate_moduleSheet_ne hsheet hl
  have hsource' : after.Holds component source := hothers component source hsource hplace
  have htext := syncText_of_printable hspec (nodup_extractClasses source) hclass h
  exact ⟨_, _, after, exec_syncComponent hsource hsheet hcss hupdate, hafter,
    exec_syncComponent hsource' hsheet hafter (exec_updateSheet_of_eq htext), rfl, rfl, htext⟩

/-- A component that uses a class with a rule and one without. -/
def sampleSource : Text := "a(styles.one, styles[\"two-x\"])".toList

/-- A stylesheet with declarations of its own, an unused rule and an at-rule. -/
def sampleCss : Text :=
  "b:1; .old \x7b top:0 \x7d @import \"x\"; .two-x \x7b\x7d /* end */ top: 0;".toList

/-- A component beside its stylesheet. -/
def sampleWorld : World where
  store :=
    { entries :=
        [(["A.jsx".toList], .file (encodeText sampleSource) 1),
          (["A.module.css".toList], .file (encodeText sampleCss) 2)]
      clock := 3 }

/-- The path of the component. -/
def sampleComponent : Path := Path.ofText "A.jsx".toList

/-- The path of the stylesheet. -/
def sampleModule : Path := Path.ofText "A.module.css".toList

/-- A new rule, a mark, declarations that move and labels are all there after the first sync, and
the second finds nothing to do. -/
theorem syncComponent_syncComponent_sample :
    sampleStyle.spec.Proper ∧ (∀ name ∈ sampleStyle.spec.names, '\r' ∉ name) ∧
      sampleWorld.Holds sampleComponent sampleSource ∧
      sampleComponent.moduleSheet = .ok sampleModule ∧
      sampleWorld.Holds sampleModule sampleCss ∧
      (∀ name ∈ extractClasses sampleSource, name.head?.any isNameStart = true) ∧
      (parse sampleCss).IsSheet Norm.printable ∧
      syncText sampleStyle (extractClasses sampleSource) sampleCss ≠ sampleCss ∧
      ∃ first second after,
        (syncComponent sampleStyle false sampleComponent).exec sampleWorld = (.ok first, after) ∧
        after.Holds sampleModule
          (syncText sampleStyle (extractClasses sampleSource) sampleCss) ∧
        (syncComponent sampleStyle false sampleComponent).exec after = (.ok second, after) ∧
        second.changed = false ∧ second.written = [] ∧
        syncText sampleStyle (extractClasses sampleSource)
            (syncText sampleStyle (extractClasses sampleSource) sampleCss) =
          syncText sampleStyle (extractClasses sampleSource) sampleCss :=
  have hspec : sampleStyle.spec.Proper :=
    ⟨by decide +kernel, by decide +kernel, by unfold Spec.Closed; decide +kernel⟩
  have hreturn : ∀ name ∈ sampleStyle.spec.names, '\r' ∉ name := by decide +kernel
  have hsource : sampleWorld.Holds sampleComponent sampleSource :=
    ⟨encodeText sampleSource, rfl, by rw [decodeText?_encodeText]; decide +kernel⟩
  have hsheet : sampleComponent.moduleSheet = .ok sampleModule := rfl
  have hcss : sampleWorld.Holds sampleModule sampleCss :=
    ⟨encodeText sampleCss, rfl, by rw [decodeText?_encodeText]; decide +kernel⟩
  have hnames : ∀ name ∈ extractClasses sampleSource, name.head?.any isNameStart = true := by
    decide +kernel
  have hprintable : (parse sampleCss).IsSheet Norm.printable := by decide +kernel
  ⟨hspec, hreturn, hsource, hsheet, hcss, hnames, hprintable, by decide +kernel,
    syncComponent_syncComponent hspec hreturn hsource hsheet hcss hnames hprintable⟩

end Twice

end StyleModules
