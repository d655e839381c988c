import StyleModules.Proofs.Project.Settling

/-!
# A component and its stylesheet

A text is in line with the classes used if a sync would not write it (`InLine`). A sync of a
component whose stylesheet is in line changes no file, and otherwise it writes the stylesheet in
line (`exists_sync`). Below one directory, a write to a stylesheet is seen at no other path
(`SheetWrite.holds_iff`).
-/

namespace StyleModules

section Component

variable {style : Style} {world after : World} {component other sheet target : Path} {u : Text}
  {related : List Text → Text → Prop}

/-- The text is in line with the classes used. -/
def InLine (style : Style) (used : List Text) (css : Text) : Prop := syncText style used css = css

instance (style : Style) (used : List Text) (css : Text) : Decidable (InLine style used css) :=
  inferInstanceAs (Decidable (syncText style used css = css))

/-- A stylesheet is not stale if it is in line with the classes used. -/
theorem staleSheet_eq_false_iff {source css : Text} :
    staleSheet style source css = false ↔ InLine style (extractClasses source) css := by
  simp [staleSheet, InLine]

/-- Bringing the text in line with the classes used needs to be done once only. -/
def Tame (style : Style) (used : List Text) (css : Text) : Prop :=
  InLine style used (syncText style used css)

/-- A stylesheet that is in line is tame. -/
theorem InLine.tame {used : List Text} {css : Text} (h : InLine style used css) :
    Tame style used css := by
  rw [Tame, show syncText style used css = css from h]
  exact h

/-- The classes used by the component and the text of its stylesheet, if there are both, are in the
relation. -/
def World.Relates (world : World) (related : List Text → Text → Prop) (component : Path) : Prop :=
  ∀ source sheet css, world.Holds component source → component.moduleSheet = .ok sheet →
    world.Holds sheet css → related (extractClasses source) css

/-- The component is a text, and its stylesheet is a text if it is a file. -/
structure World.Readable (world : World) (component : Path) : Prop where
  source : ∃ source, world.Holds component source
  sheet : ∀ sheet bytes, component.moduleSheet = .ok sheet →
    world.readBytes sheet = .ok bytes → ∃ css, decodeText? bytes = some css

/-- A component is related to its texts, whatever has been reported. -/
theorem World.Relates.of_muted_eq (h : world.Relates related component)
    (hmuted : after.muted = world.muted) : after.Relates related component :=
  fun source sheet css hsource hsheet hcss => h source sheet css
    ((World.holds_congr hmuted).mp hsource) hsheet ((World.holds_congr hmuted).mp hcss)

/-- A component can be read, whatever has been reported. -/
theorem World.Readable.of_muted_eq (h : world.Readable component)
    (hmuted : after.muted = world.muted) : after.Readable component := by
  refine ⟨?_, fun sheet bytes hsheet hread => ?_⟩
  · obtain ⟨source, hsource⟩ := h.source
    exact ⟨source, (World.holds_congr hmuted).mpr hsource⟩
  · rw [World.readBytes_congr hmuted] at hread
    exact h.sheet sheet bytes hsheet hread

/-- What a sync does that makes no stylesheets. -/
inductive SheetSync (style : Style) (component : Path) (world : World) :
    SyncResult → World → Prop
  /-- There is no stylesheet to be read, or it is in line. -/
  | quiet {result : SyncResult} {after : World} (hresult : result.changed = false)
    (hmuted : after.muted = world.muted) (hline : world.Relates (InLine style) component) :
    SheetSync style component world result after
  /-- The stylesheet is written in line. -/
  | written {result : SyncResult} {after : World} {source css : Text} {sheet : Path}
    (hresult : result.changed = true) (hsource : world.Holds component source)
    (hsheet : component.moduleSheet = .ok sheet) (hcss : world.Holds sheet css)
    (hstale : ¬ InLine style (extractClasses source) css)
    (hwrote : world.muted.writeBytes sheet
      (encodeText (syncText style (extractClasses source) css)) = .ok after.muted) :
    SheetSync style component world result after

/-- Every sync of a readable component, if none makes stylesheets, is one of these. -/
theorem exists_sync (hworld : world.IsTree) (hreadable : world.Readable component) :
    ∃ result after, (syncComponent style false component).exec world = (.ok result, after) ∧
      after.IsTree ∧ world.Rewritten after ∧ SheetSync style component world result after := by
  obtain ⟨source, hsource⟩ := hreadable.source
  obtain ⟨outcome, writes, after, hperforms, hrun⟩ :=
    @syncComponent_runs style false component world hworld.toRegular
  have hevolves := hperforms.evolves hworld
  have hquiet : ∀ {result : SyncResult}, after.muted = world.muted → result.changed = false →
      (syncComponent style false component).exec world = (.ok result, after) →
      world.Relates (InLine style) component →
      ∃ result after, (syncComponent style false component).exec world = (.ok result, after) ∧
        after.IsTree ∧ world.Rewritten after ∧ SheetSync style component world result after :=
    fun hmuted hchanged hexec hline => ⟨_, after, hexec, hevolves.tree,
      (World.Evolves.of_muted_eq hworld hmuted).rewritten (by simp), .quiet hchanged hmuted hline⟩
  cases hrun with
  | unreachable hread =>
    obtain ⟨bytes, hb, -⟩ := hsource
    rw [hread] at hb
    cases hb
  | undecodable hread hdecode =>
    cases hdecode.symm.trans (hsource.decode hread)
  | sheetless _ hsheet hmissing =>
    refine hquiet hperforms.muted_eq rfl hperforms.ends ?_
    rintro text found css - hfound hcss
    obtain rfl := Except.ok.inj (hsheet.symm.trans hfound)
    rw [World.pathExists_of_holds hcss] at hmissing
    cases hmissing
  | unreachableSheet _ hsheet _ hread =>
    refine hquiet hperforms.muted_eq rfl hperforms.ends ?_
    rintro text found css - hfound ⟨bytes, hb, -⟩
    obtain rfl := Except.ok.inj (hsheet.symm.trans hfound)
    rw [hread] at hb
    cases hb
  | undecodableSheet _ hsheet hread hdecode =>
    obtain ⟨css, hcss⟩ := hreadable.sheet _ _ hsheet hread
    rw [hdecode] at hcss
    cases hcss
  | @synced text css sheet htext hsheet hcss =>
    have hwrites : importWrites false component sheet text ++ sheetWrites style sheet text css =
        if staleSheet style text css then [(sheet, syncText style (extractClasses text) css)]
        else [] := rfl
    rw [hwrites] at hperforms hevolves
    cases hstale : staleSheet style text css with
    | false =>
      rw [hstale, if_neg Bool.false_ne_true] at hperforms
      refine hquiet hperforms.muted_eq rfl hperforms.ends ?_
      intro found place content hfound hplace hcontent
      obtain rfl := htext.eq hfound
      obtain rfl := Except.ok.inj (hsheet.symm.trans hplace)
      obtain rfl := hcss.eq hcontent
      exact staleSheet_eq_false_iff.mp hstale
    | true =>
      rw [hstale, if_pos rfl] at hperforms hevolves
      obtain ⟨next, hnext, hlast⟩ := World.exists_of_writeAll_cons hperforms.wrote
      obtain rfl := Except.ok.inj hlast
      obtain ⟨bytes, hread, hdecode⟩ := hcss
      refine ⟨_, after, hperforms.ends, hevolves.tree, hevolves.rewritten ?_,
        .written rfl htext hsheet ⟨bytes, hread, hdecode⟩ ?_ hnext⟩
      · simpa using ⟨bytes, hread⟩
      · rw [← staleSheet_eq_false_iff, hstale]
        simp
  | generated _ _ _ hgenerate => cases hgenerate

/-- A text is written to a stylesheet below the target directory. -/
structure SheetWrite (target : Path) (world : World) (sheet : Path) (u : Text) (after : World) :
    Prop where
  leads : target.LeadsTo sheet
  suffix : sheet.suffix = sheetSuffix
  no_return : '\r' ∉ u
  wrote : world.muted.writeBytes sheet (encodeText u) = .ok after.muted

namespace SheetWrite

/-- Below the target directory a write to a stylesheet is seen at its path only. -/
theorem readBytes_iff (h : SheetWrite target world sheet u after) (hother : target.LeadsTo other)
    {bytes : ByteArray} :
    after.readBytes other = .ok bytes ↔
      if other = sheet then bytes = encodeText u else world.readBytes other = .ok bytes := by
  obtain ⟨location, hl, -⟩ := World.writeBytes_eq_ok_iff.mp h.wrote
  split
  · next he =>
    have hread : after.muted.readBytes other = .ok (encodeText u) :=
      World.readBytes_writeBytes_same h.wrote hl (he ▸ hl)
    rw [show after.readBytes other = _ from hread, Except.ok.injEq, eq_comm]
  · next he =>
    exact World.readBytes_writeBytes_other h.wrote hl fun ho =>
      he (World.eq_of_locate_eq hother h.leads ho hl)

/-- After the write the stylesheet holds the new text, and other files hold theirs. -/
theorem holds_iff (h : SheetWrite target world sheet u after) (hother : target.LeadsTo other)
    {t : Text} :
    after.Holds other t ↔ if other = sheet then t = u else world.Holds other t := by
  constructor
  · rintro ⟨bytes, hb, ht⟩
    rw [h.readBytes_iff hother] at hb
    split at hb
    · next he =>
      rw [if_pos he]
      rw [hb, decodeText?_encodeText, universalNewlines_of_no_return h.no_return] at ht
      exact (Option.some.inj ht).symm
    · next he =>
      rw [if_neg he]
      exact ⟨bytes, hb, ht⟩
  · intro ht
    split at ht
    · next he =>
      refine ⟨encodeText u, (h.readBytes_iff hother).mpr (by rw [if_pos he]), ?_⟩
      rw [decodeText?_encodeText, universalNewlines_of_no_return h.no_return, ht]
    · next he =>
      obtain ⟨bytes, hb, hd⟩ := ht
      exact ⟨bytes, (h.readBytes_iff hother).mpr (by rwa [if_neg he]), hd⟩

/-- Components hold the texts that they held. -/
theorem component_iff (h : SheetWrite target world sheet u after) (hleads : target.LeadsTo component)
    (hcomponent : component.isComponent = true) {t : Text} :
    after.Holds component t ↔ world.Holds component t := by
  have hne : component ≠ sheet := by
    rintro rfl
    rw [Path.isComponent, h.suffix] at hcomponent
    exact absurd hcomponent (by decide +kernel)
  rw [h.holds_iff hleads, if_neg hne]

/-- A component stays readable. -/
theorem readable (h : SheetWrite target world sheet u after) (hleads : target.LeadsTo component)
    (hcomponent : component.isComponent = true) (hreadable : world.Readable component) :
    after.Readable component where
  source := by
    obtain ⟨source, hsource⟩ := hreadable.source
    exact ⟨source, (h.component_iff hleads hcomponent).mpr hsource⟩
  sheet own bytes hown hread := by
    rw [h.readBytes_iff (hleads.of_owns (Or.inr hown))] at hread
    split at hread
    · exact ⟨_, hread ▸ decodeText?_encodeText u⟩
    · exact hreadable.sheet own bytes hown hread

/-- A component keeps its relation to its stylesheet, if the text written has it to those components
whose stylesheet it is. -/
theorem relates (h : SheetWrite target world sheet u after) (hleads : target.LeadsTo component)
    (hcomponent : component.isComponent = true)
    (hold : component.moduleSheet ≠ .ok sheet → world.Relates related component)
    (hown : component.moduleSheet = .ok sheet → ∀ source, world.Holds component source →
      related (extractClasses source) u) : after.Relates related component := by
  intro source own css hsource hsheet hcss
  have hsource' := (h.component_iff hleads hcomponent).mp hsource
  rw [h.holds_iff (hleads.of_owns (Or.inr hsheet))] at hcss
  split at hcss
  · next he =>
    rw [hcss]
    exact hown (he ▸ hsheet) source hsource'
  · next he =>
    refine hold (fun hs => he ?_) source own css hsource' hsheet hcss
    exact Except.ok.inj (hsheet.symm.trans hs)

end SheetWrite

end Component

end StyleModules
