import StyleModules.Proofs.Project.Locality

/-!
# The order of syncs does not matter

Components whose stylesheets stand at different places have no place in common
(`World.Apart.not_touches`). Each of them is therefore synced as if it were alone, whichever were
synced before it, and what it leaves is not touched by those after it
(`Runner.syncAll_apart`). So results and contents do not depend on the order
(`Runner.syncAll_perm`).

Stylesheets at different paths need not stand at different places, because two points lead back out
of a directory (`Runner.syncAll_roundabout`).
-/

namespace StyleModules

namespace World

variable {world : World} {component other sheet : Path} {location : Location}

/-- The stylesheets of the components stand at different places. -/
def Apart (world : World) (component other : Path) : Prop :=
  ∀ sheet twin location, component.moduleSheet = .ok sheet → other.moduleSheet = .ok twin →
    world.locate sheet = .ok location → world.locate twin ≠ .ok location

/-- Components apart from each other are so in any order. -/
theorem Apart.symm (h : world.Apart component other) : world.Apart other component :=
  fun sheet twin location hsheet htwin hl hl' => h twin sheet location htwin hsheet hl' hl

/-- A component stands in a directory, and the place of its stylesheet is beside it. -/
theorem exists_of_locate_component (hcomponent : component.isComponent = true)
    (hl : world.locate component = .ok location) :
    ∃ directory name sheet, location = directory ++ [name] ∧
      (Path.splitName name).2 ∈ componentSuffixes ∧ component.moduleSheet = .ok sheet ∧
      world.locate sheet = .ok (directory ++ [(Path.splitName name).1 ++ sheetEnding]) := by
  obtain ⟨sheet, hsheet⟩ := Path.exists_moduleSheet hcomponent
  obtain ⟨front, name, hnames, rfl⟩ := Path.exists_of_moduleSheet hsheet
  have hsuffix : (Path.splitName name).2 ∈ componentSuffixes := by
    rw [Path.isComponent, Path.suffix, Path.name, hnames, List.getLast?_concat,
      Option.getD_some] at hcomponent
    exact List.contains_iff_mem.mp hcomponent
  -- A name with such a suffix is neither one nor two points.
  have hname : isEntryName name = true := by
    have hlength : ∀ suffix ∈ componentSuffixes, suffix.length = 4 := by decide
    refine isEntryName_of_length ?_
    rw [← Path.splitName_append name, List.length_append, hlength _ hsuffix]
    omega
  rw [locate, hnames] at hl
  obtain ⟨directory, hfront, hd⟩ := exists_of_walk_concat hl
  rw [walk_concat hfront hd hname] at hl
  exact ⟨directory, name, _, (Except.ok.inj hl).symm, hsuffix, hsheet,
    walk_concat hfront hd (isEntryName_sheet name)⟩

/-- No component stands at the place of a stylesheet. -/
theorem locate_sheet_ne (hcomponent : component.isComponent = true)
    (hl : world.locate component = .ok location) (hsheet : other.moduleSheet = .ok sheet) :
    world.locate sheet ≠ .ok location := by
  intro hs
  obtain ⟨directory, name, -, rfl, hsuffix, -, -⟩ := exists_of_locate_component hcomponent hl
  obtain ⟨front, stem, -, rfl⟩ := Path.exists_of_moduleSheet hsheet
  rw [locate] at hs
  obtain ⟨base, hfront, hd⟩ := exists_of_walk_concat hs
  rw [walk_concat hfront hd (isEntryName_sheet stem), Except.ok.injEq] at hs
  obtain ⟨-, hname⟩ := List.append_inj' hs rfl
  rw [← List.singleton_inj.mp hname, Path.splitName_sheetEnding] at hsuffix
  exact absurd hsuffix (by decide)

/-- Components whose stylesheets stand at different places have no place in common. -/
theorem Apart.not_touches (h : world.Apart component other)
    (hcomponent : component.isComponent = true) (hother : other.isComponent = true)
    (ht : world.Touches component location) : ¬ world.Touches other location := by
  rintro ⟨twin, htwin, hl'⟩
  obtain ⟨path, hpath, hl⟩ := ht
  rcases hpath with rfl | hsheet
  · rcases htwin with rfl | htwin
    · -- Components at one place have stylesheets at one place.
      obtain ⟨directory, name, sheet, rfl, -, hsheet, hplace⟩ :=
        exists_of_locate_component hcomponent hl
      obtain ⟨base, stem, twin, he, -, htwin, hplace'⟩ := exists_of_locate_component hother hl'
      obtain ⟨rfl, hname⟩ := List.append_inj' he rfl
      rw [← List.singleton_inj.mp hname] at hplace'
      exact h sheet twin _ hsheet htwin hplace hplace'
    · exact locate_sheet_ne hcomponent hl htwin hl'
  · rcases htwin with rfl | htwin
    · exact locate_sheet_ne hother hl' hsheet hl
    · exact h path twin location hsheet htwin hl hl'

end World

namespace Runner

open World

variable {runner : Runner} {world mid : World} {components order : List Path}
  {alone : Path → SyncResult}

/-- Components without a place in common are synced one after the other, in a world that is as it
was at all their places, as each of them is synced alone. -/
theorem syncAll_apart (hworld : world.Regular)
    (hcomponents : ∀ component ∈ order, component.isComponent = true)
    (hapart : order.Pairwise fun component other =>
      ∀ location, world.Touches component location → ¬ world.Touches other location)
    (halone : ∀ component ∈ order, ((runner.sync component).exec world).1 = .ok (alone component))
    (hmid : mid.Regular)
    (hagrees : ∀ component ∈ order, Agrees (world.Touches component) world mid) :
    ∃ after, (runner.syncAll order).exec mid = (.ok (order.map alone), after) ∧
      ∀ component ∈ order,
        Agrees (world.Touches component) ((runner.sync component).exec world).2 after := by
  induction order generalizing mid with
  | nil => exact ⟨mid, Session.exec_pure [] mid, fun _ hc => absurd hc List.not_mem_nil⟩
  | cons first rest ih =>
    obtain ⟨hfirst, hrest⟩ := List.pairwise_cons.mp hapart
    have hsame := hagrees first List.mem_cons_self
    obtain ⟨hresult, hsynced⟩ := @sync_agrees runner world mid first _
      (hcomponents first List.mem_cons_self) hworld hmid hsame fun _ ht => ht
    rw [halone first List.mem_cons_self] at hresult
    obtain ⟨hregular, helsewhere⟩ := @sync_agrees_elsewhere runner mid first hmid
    obtain ⟨next, hnext⟩ : ∃ next, (runner.sync first).exec mid = (.ok (alone first), next) :=
      ⟨_, Prod.ext hresult rfl⟩
    rw [hnext] at hsynced hregular helsewhere
    have hlater : ∀ component ∈ rest, Agrees (world.Touches component) world next := by
      intro component hc
      refine (hagrees component (List.mem_cons_of_mem _ hc)).trans
        (helsewhere.mono fun location ht => ?_)
      rw [hsame.touches_iff]
      exact fun hf => hfirst component hc location hf ht
    obtain ⟨after, hexec, hafter⟩ := ih
      (fun component hc => hcomponents component (List.mem_cons_of_mem _ hc)) hrest
      (fun component hc => halone component (List.mem_cons_of_mem _ hc)) hregular hlater
    refine ⟨after, exec_syncAll_cons hnext hexec, fun component hc => ?_⟩
    rcases List.mem_cons.mp hc with rfl | hc
    · -- The syncs that follow leave the places of the first component alone.
      have hkept := (@syncAll_agrees_elsewhere runner next hregular rest).2
      rw [hexec] at hkept
      refine hsynced.trans (hkept.mono fun location ht other ho => ?_)
      rw [helsewhere.touches_iff, hsame.touches_iff]
      exact hfirst other ho location ht
    · exact hafter component hc

/-- In a world of files and directories, components that are texts with texts for stylesheets, or
with directories or nothing in place of one of them, and whose stylesheets stand at different
places, are synced in any order with the same results, those of syncing each of them alone, and
leave the same contents. -/
theorem syncAll_perm (hworld : world.Regular)
    (hcomponents : ∀ component ∈ components, component.isComponent = true)
    (hclean : ∀ component ∈ components, ¬ world.Garbled component)
    (hapart : components.Pairwise world.Apart) :
    ∃ (alone : Path → SyncResult) (last : Location → Option Entry),
      (∀ component ∈ components,
        ((runner.sync component).exec world).1 = .ok (alone component)) ∧
      ∀ order, order.Perm components →
        ∃ after, (runner.syncAll order).exec world = (.ok (order.map alone), after) ∧
          ∀ location, after.store.contents location = last location := by
  have hreturns : ∀ component, ∃ result, component ∈ components →
      ((runner.sync component).exec world).1 = .ok result := by
    intro component
    by_cases hc : component ∈ components
    · obtain ⟨result, hresult⟩ := @sync_returns runner world component
        (hcomponents component hc) hworld (hclean component hc)
      exact ⟨result, fun _ => hresult⟩
    · exact ⟨{ component := component }, fun h => absurd h hc⟩
  obtain ⟨alone, halone⟩ := Classical.axiomOfChoice hreturns
  have hsyncs : ∀ order, order.Perm components →
      ∃ after, (runner.syncAll order).exec world = (.ok (order.map alone), after) ∧
        (∀ component ∈ components,
          Agrees (world.Touches component) ((runner.sync component).exec world).2 after) ∧
        Agrees (fun location => ∀ component ∈ components, ¬ world.Touches component location)
          world after := by
    intro order hperm
    have hmem : ∀ {component}, component ∈ order ↔ component ∈ components := hperm.mem_iff
    have horder : order.Pairwise fun component other =>
        ∀ location, world.Touches component location → ¬ world.Touches other location := by
      have hpairs := (hperm.pairwise_iff fun h => Apart.symm h).mpr hapart
      refine hpairs.imp_of_mem fun hc ho h location ht => ?_
      exact h.not_touches (hcomponents _ (hmem.mp hc)) (hcomponents _ (hmem.mp ho)) ht
    obtain ⟨after, hexec, hafter⟩ := @syncAll_apart runner world world order alone hworld
      (fun component hc => hcomponents component (hmem.mp hc)) horder
      (fun component hc => halone component (hmem.mp hc)) hworld fun _ _ => .refl _ world
    have hkept := (@syncAll_agrees_elsewhere runner world hworld order).2
    rw [hexec] at hkept
    exact ⟨after, hexec, fun component hc => hafter component (hmem.mpr hc),
      hkept.mono fun location hl component hc => hl component (hmem.mp hc)⟩
  obtain ⟨final, -, htouched, hother⟩ := hsyncs components (List.Perm.refl components)
  refine ⟨alone, final.store.contents, halone, fun order hperm => ?_⟩
  obtain ⟨after, hexec, htouched', hother'⟩ := hsyncs order hperm
  refine ⟨after, hexec, fun location => ?_⟩
  by_cases hl : ∃ component ∈ components, world.Touches component location
  · obtain ⟨component, hc, ht⟩ := hl
    rw [(htouched component hc).contents location ht, (htouched' component hc).contents location ht]
  · have hnone : ∀ component ∈ components, ¬ world.Touches component location :=
      fun component hc ht => hl ⟨component, hc, ht⟩
    rw [hother.contents location hnone, hother'.contents location hnone]

section Worlds

/-- A world with a component and its stylesheet, and one whose stylesheet's place is taken by a
directory. -/
def blockedWorld : World where
  store :=
    { entries :=
        [(["A.jsx".toList], .file (encodeText "styles.one".toList) 1),
          (["A.module.css".toList], .file (encodeText []) 1),
          (["B.tsx".toList], .file (encodeText "styles.two".toList) 1),
          (["B.module.css".toList], .directory 1)]
      clock := 2 }

/-- Two components are synced in both orders with the results of syncing each of them alone. -/
theorem syncAll_perm_blocked :
    ∃ (one two : SyncResult) (last : Location → Option Entry),
      ((pairRunner.sync (herePath "A.jsx".toList)).exec blockedWorld).1 = .ok one ∧
      ((pairRunner.sync (herePath "B.tsx".toList)).exec blockedWorld).1 = .ok two ∧
      (∃ after, (pairRunner.syncAll [herePath "A.jsx".toList, herePath "B.tsx".toList]).exec
          blockedWorld = (.ok [one, two], after) ∧
        ∀ location, after.store.contents location = last location) ∧
      ∃ after, (pairRunner.syncAll [herePath "B.tsx".toList, herePath "A.jsx".toList]).exec
          blockedWorld = (.ok [two, one], after) ∧
        ∀ location, after.store.contents location = last location := by
  have hworld : blockedWorld.Regular := .of_entries (by simp [blockedWorld]) rfl
  have hcomponents : ∀ component ∈ [herePath "A.jsx".toList, herePath "B.tsx".toList],
      component.isComponent = true := by decide +kernel
  have hclean : ∀ component ∈ [herePath "A.jsx".toList, herePath "B.tsx".toList],
      ¬ blockedWorld.Garbled component := by
    intro component hc
    simp only [List.mem_cons, List.not_mem_nil, or_false] at hc
    rcases hc with rfl | rfl
    · exact (not_garbled_iff rfl).mpr ⟨finding_ne_undecodable rfl, finding_ne_undecodable rfl⟩
    · exact (not_garbled_iff rfl).mpr ⟨finding_ne_undecodable rfl, Finding.noConfusion⟩
  have hapart : [herePath "A.jsx".toList, herePath "B.tsx".toList].Pairwise blockedWorld.Apart := by
    refine List.pairwise_pair.mpr fun sheet twin location hsheet htwin hl hl' => ?_
    obtain rfl := Except.ok.inj hsheet
    obtain rfl := Except.ok.inj htwin
    obtain rfl := Except.ok.inj hl
    exact absurd hl' (by decide +kernel)
  obtain ⟨alone, last, halone, hperm⟩ :=
    @syncAll_perm pairRunner blockedWorld _ hworld hcomponents hclean hapart
  refine ⟨alone (herePath "A.jsx".toList), alone (herePath "B.tsx".toList), last,
    halone _ List.mem_cons_self, halone _ (List.mem_cons_of_mem _ List.mem_cons_self),
    hperm _ (List.Perm.refl _), hperm _ (List.Perm.swap _ _ _)⟩

/-- A component with its stylesheet, and a directory through which a longer path leads to them. -/
def roundaboutWorld (css : Text) (stamp : Nat) : World where
  store :=
    { entries :=
        [(["A.module.css".toList], .file (encodeText css) stamp),
          (["A.jsx".toList], .file (encodeText "styles.one".toList) 1),
          (["d".toList], .directory 1)]
      clock := stamp + 1 }

/-- The path of a name in the working directory that goes through the directory and back. -/
def roundabout (name : Text) : Path := ⟨.relative, ["d".toList, "..".toList, name]⟩

/-- Both paths lead to the component, and a sync by one of them writes its stylesheet if that is
stale. -/
theorem sync_roundabout {world : World} {css : Text} {stamp : Nat}
    (hworld : world.muted = roundaboutWorld css stamp) (hcss : '\r' ∉ css) {path : Text → Path}
    (hpath : path = herePath ∨ path = roundabout) :
    ((pairRunner.sync (path "A.jsx".toList)).exec world).1 =
        .ok ⟨path "A.jsx".toList, some (path "A.module.css".toList), false,
          staleSheet pairRunner.style "styles.one".toList css, false⟩ ∧
      (staleSheet pairRunner.style "styles.one".toList css = true →
        ((pairRunner.sync (path "A.jsx".toList)).exec world).2.muted =
          roundaboutWorld (syncText pairRunner.style (extractClasses "styles.one".toList) css)
            (stamp + 1)) := by
  have hregular : world.muted.Regular := by
    rw [hworld]
    exact .of_entries (by simp [roundaboutWorld]) rfl
  have hsheet : (path "A.jsx".toList).moduleSheet = .ok (path "A.module.css".toList) := by
    rcases hpath with rfl | rfl <;> rfl
  have hsource : world.Holds (path "A.jsx".toList) "styles.one".toList := by
    rw [← holds_congr (show world.muted.muted = world.muted from rfl), hworld]
    refine ⟨encodeText "styles.one".toList, ?_, ?_⟩
    · rcases hpath with rfl | rfl <;> rfl
    · rw [decodeText?_encodeText, universalNewlines_of_no_return (by decide +kernel)]
  have hholds : world.Holds (path "A.module.css".toList) css := by
    rw [← holds_congr (show world.muted.muted = world.muted from rfl), hworld]
    refine ⟨encodeText css, ?_, ?_⟩
    · rcases hpath with rfl | rfl <;> rfl
    · rw [decodeText?_encodeText, universalNewlines_of_no_return hcss]
  obtain ⟨after, hperforms⟩ := @syncComponent_performs pairRunner.style false _ _ world
    ⟨hregular.no_links, hregular.here⟩ hsheet
  rw [finding_of_holds hsource, finding_of_holds hholds] at hperforms
  have hends : (pairRunner.sync (path "A.jsx".toList)).exec world = _ := hperforms.ends
  have hwrote := hperforms.wrote
  rw [hends]
  refine ⟨rfl, fun hstale => ?_⟩
  simp only [syncPlan, sheetWrites, hstale, if_true] at hwrote
  rw [hworld] at hwrote
  rcases hpath with rfl | rfl <;> exact (Except.ok.inj hwrote).symm

/-- A component may be reached by two paths, and its stylesheet too. The second sync then finds in
line what it would have brought in line alone. -/
theorem syncAll_roundabout :
    (roundaboutWorld [] 2).Regular ∧
    (∀ component ∈ [herePath "A.jsx".toList, roundabout "A.jsx".toList],
      component.isComponent = true ∧ ¬ (roundaboutWorld [] 2).Garbled component) ∧
    [herePath "A.jsx".toList, roundabout "A.jsx".toList].Pairwise (fun component other =>
      ∀ sheet, component.moduleSheet = .ok sheet → other.moduleSheet ≠ .ok sheet) ∧
    ∃ one two alone after,
      (pairRunner.syncAll [herePath "A.jsx".toList, roundabout "A.jsx".toList]).exec
        (roundaboutWorld [] 2) = (.ok [one, two], after) ∧
      ((pairRunner.sync (roundabout "A.jsx".toList)).exec (roundaboutWorld [] 2)).1 = .ok alone ∧
      alone.sheetChanged = true ∧ two.sheetChanged = false := by
  have hstart : (roundaboutWorld [] 2).muted = roundaboutWorld [] 2 := rfl
  have hstale : staleSheet pairRunner.style "styles.one".toList [] = true := by decide +kernel
  have hline : staleSheet pairRunner.style "styles.one".toList
      (syncText pairRunner.style (extractClasses "styles.one".toList) []) = false := by
    decide +kernel
  obtain ⟨hone, hmid⟩ := sync_roundabout hstart List.not_mem_nil (Or.inl rfl)
  obtain ⟨htwo, -⟩ := sync_roundabout (hmid hstale) (by decide +kernel) (Or.inr rfl)
  obtain ⟨halone, -⟩ := sync_roundabout hstart List.not_mem_nil (Or.inr rfl)
  refine ⟨.of_entries (by simp [roundaboutWorld]) rfl, ?_, ?_, _, _, _, _,
    exec_syncAll_cons (Prod.ext hone rfl) (exec_syncAll_cons (Prod.ext htwo rfl)
      (Session.exec_pure [] _)), halone, hstale, hline⟩
  · intro component hc
    refine ⟨(by decide +kernel : ∀ component ∈ [herePath "A.jsx".toList,
      roundabout "A.jsx".toList], component.isComponent = true) component hc, ?_⟩
    simp only [List.mem_cons, List.not_mem_nil, or_false] at hc
    rcases hc with rfl | rfl
    · exact (not_garbled_iff rfl).mpr ⟨finding_ne_undecodable rfl, finding_ne_undecodable rfl⟩
    · exact (not_garbled_iff rfl).mpr ⟨finding_ne_undecodable rfl, finding_ne_undecodable rfl⟩
  · refine List.pairwise_pair.mpr fun sheet hsheet hother => ?_
    obtain rfl := Except.ok.inj hsheet
    exact absurd (Except.ok.inj hother) (by decide +kernel)

end Worlds

end Runner

end StyleModules
