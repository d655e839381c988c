import StyleModules.Proofs.Layout.Idempotence
import StyleModules.Proofs.Project.SheetSync

/-!
# A second scan changes nothing

A component and its stylesheet are in line if a sync would not write the stylesheet
(`InLine`). A sync brings them in line, and leaves all other components in line that were: their
stylesheets are other files, or the same file for the same classes. After a scan all components are
in line, and a second scan writes nothing and tells of nothing (`Runner.scan_scan`).

A component with suffix `.jsx` and one with suffix `.tsx` may have the same stem and so the same
stylesheet. If they use other classes, or the same in another order, each of them undoes what the
other has done, at every scan (`Runner.scan_scan_contested`).
-/

namespace StyleModules

section Scan

variable {style : Style} {target : Path} {all : List Path} {world after : World} {component : Path}

/-- The components below the target directory can be synced without a fight: they are readable, each
sync needs to be done once only, and those with one stylesheet use the same classes. -/
structure Syncable (style : Style) (target : Path) (all : List Path) (world : World) : Prop where
  tree : world.IsTree
  leads : ∀ component ∈ all, target.LeadsTo component
  suffix : ∀ component ∈ all, component.isComponent = true
  readable : ∀ component ∈ all, world.Readable component
  tame : ∀ component ∈ all, world.Relates (Tame style) component
  agree : ∀ component ∈ all, ∀ other ∈ all, ∀ sheet css source text,
    component.moduleSheet = .ok sheet → other.moduleSheet = .ok sheet → world.Holds sheet css →
    world.Holds component source → world.Holds other text →
    extractClasses source = extractClasses text

/-- Components can be synced whatever has been reported. -/
theorem Syncable.of_muted_eq (h : Syncable style target all world)
    (hmuted : after.muted = world.muted) : Syncable style target all after where
  tree := (World.Evolves.of_muted_eq h.tree hmuted).tree
  leads := h.leads
  suffix := h.suffix
  readable component hc := (h.readable component hc).of_muted_eq hmuted
  tame component hc := (h.tame component hc).of_muted_eq hmuted
  agree component hc other ho sheet css source text hsheet hother hcss hsource htext :=
    h.agree component hc other ho sheet css source text hsheet hother
      ((World.holds_congr hmuted).mp hcss) ((World.holds_congr hmuted).mp hsource)
      ((World.holds_congr hmuted).mp htext)

/-- Writing the stylesheet of a component in line brings all components in line whose stylesheet it
is, and touches no other. -/
theorem Syncable.of_write (h : Syncable style target all world) (hc : component ∈ all)
    {sheet : Path} {source css : Text} (hsource : world.Holds component source)
    (hsheet : component.moduleSheet = .ok sheet) (hcss : world.Holds sheet css)
    (hwrite : SheetWrite target world sheet (syncText style (extractClasses source) css) after)
    (htree : after.IsTree) :
    Syncable style target all after ∧
      ∀ other ∈ all, other = component ∨ world.Relates (InLine style) other →
        after.Relates (InLine style) other := by
  have hline : ∀ other ∈ all, other.moduleSheet = .ok sheet → ∀ text, world.Holds other text →
      InLine style (extractClasses text) (syncText style (extractClasses source) css) := by
    intro other ho hother text htext
    rw [← h.agree component hc other ho sheet css source text hsheet hother hcss hsource htext]
    exact h.tame component hc source sheet css hsource hsheet hcss
  have hcomponent : ∀ other ∈ all, ∀ {text : Text}, after.Holds other text ↔
      world.Holds other text := fun other ho =>
    hwrite.component_iff (h.leads other ho) (h.suffix other ho)
  constructor
  · refine ⟨htree, h.leads, h.suffix, fun other ho => ?_, fun other ho => ?_, ?_⟩
    · exact hwrite.readable (h.leads other ho) (h.suffix other ho) (h.readable other ho)
    · exact hwrite.relates (h.leads other ho) (h.suffix other ho) (fun _ => h.tame other ho)
        fun hother text htext => (hline other ho hother text htext).tame
    · intro first hf second hs own content text text' hown hown' hcontent htext htext'
      -- What is a file after the write was one before.
      obtain ⟨old, hold⟩ : ∃ old, world.Holds own old := by
        rw [hwrite.holds_iff ((h.leads first hf).of_owns (Or.inr hown))] at hcontent
        split at hcontent
        · next he => exact ⟨css, he ▸ hcss⟩
        · exact ⟨content, hcontent⟩
      exact h.agree first hf second hs own old text text' hown hown' hold
        ((hcomponent first hf).mp htext) ((hcomponent second hs).mp htext')
  · rintro other ho hor
    refine hwrite.relates (h.leads other ho) (h.suffix other ho) (fun hne => ?_) (hline other ho)
    rcases hor with rfl | hold
    · exact absurd hsheet hne
    · exact hold

/-- A sync brings its component in line and keeps the others in line. -/
theorem Syncable.sync (h : Syncable style target all world)
    (hspec : ∀ name ∈ style.spec.names, '\r' ∉ name) (hc : component ∈ all) :
    ∃ result after, (syncComponent style false component).exec world = (.ok result, after) ∧
      Syncable style target all after ∧ world.Rewritten after ∧
      ∀ other ∈ all, other = component ∨ world.Relates (InLine style) other →
        after.Relates (InLine style) other := by
  obtain ⟨result, after, hexec, htree, hrewritten, hsync⟩ :=
    @exists_sync style world component h.tree (h.readable component hc)
  cases hsync with
  | quiet _ hmuted hline =>
    refine ⟨result, after, hexec, h.of_muted_eq hmuted, hrewritten, fun other ho hor => ?_⟩
    rcases hor with rfl | hold
    · exact hline.of_muted_eq hmuted
    · exact hold.of_muted_eq hmuted
  | @written source css sheet _ hsource hsheet hcss _ hwrote =>
    have hsuffix : sheet.suffix = sheetSuffix := by
      obtain ⟨front, name, -, rfl⟩ := Path.exists_of_moduleSheet hsheet
      rw [Path.suffix, Path.name, List.getLast?_concat, Option.getD_some]
      exact Path.splitName_sheetEnding _
    have hwrite : SheetWrite target world sheet (syncText style (extractClasses source) css)
        after :=
      ⟨(h.leads component hc).of_owns (Or.inr hsheet), hsuffix,
        return_not_mem_syncText hspec (fun name hn => isNameChar_of_mem_extractClasses hn)
          hcss.no_return, hwrote⟩
    obtain ⟨hafter, hline⟩ := h.of_write hc hsource hsheet hcss hwrite htree
    exact ⟨result, after, hexec, hafter, hrewritten, hline⟩

section Runner

open Session

variable {runner : Runner} {components : List Path}

/-- Without generation a sync of the runner is one of the component. -/
theorem Runner.sync_eq (hgenerate : runner.config.modes.generate = false) (component : Path) :
    runner.sync component = syncComponent runner.style false component := by
  rw [Runner.sync, hgenerate]

/-- Syncs in a row give their results in a row. -/
theorem Runner.exec_syncAll_cons {mid : World} {result : SyncResult} {results : List SyncResult}
    (hfirst : (runner.sync component).exec world = (.ok result, mid))
    (hrest : (runner.syncAll components).exec mid = (.ok results, after)) :
    (runner.syncAll (component :: components)).exec world = (.ok (result :: results), after) := by
  rw [Runner.syncAll, exec_bind hfirst, exec_bind hrest, exec_pure]

/-- Syncing components brings them in line and keeps the others in line. -/
theorem Syncable.syncAll (h : Syncable runner.style target all world)
    (hspec : ∀ name ∈ runner.spec.names, '\r' ∉ name)
    (hgenerate : runner.config.modes.generate = false)
    (hsub : ∀ component ∈ components, component ∈ all) :
    ∃ results after, (runner.syncAll components).exec world = (.ok results, after) ∧
      Syncable runner.style target all after ∧ world.Rewritten after ∧
      ∀ component ∈ all, component ∈ components ∨ world.Relates (InLine runner.style) component →
        after.Relates (InLine runner.style) component := by
  induction components generalizing world with
  | nil =>
    refine ⟨[], world, exec_pure [] world, h, .refl world, fun component _ hor => ?_⟩
    exact hor.resolve_left List.not_mem_nil
  | cons first rest ih =>
    obtain ⟨result, mid, hfirst, hmid, hrewritten, hline⟩ :=
      h.sync hspec (hsub first List.mem_cons_self)
    obtain ⟨results, after, hrest, hafter, hlater, hlast⟩ :=
      ih hmid fun component hc => hsub component (List.mem_cons_of_mem _ hc)
    refine ⟨result :: results, after, ?_, hafter, hrewritten.trans hlater, fun other ho hor => ?_⟩
    · rw [← Runner.sync_eq hgenerate] at hfirst
      exact Runner.exec_syncAll_cons hfirst hrest
    · refine hlast other ho ?_
      rcases hor with hmem | hold
      · rcases List.mem_cons.mp hmem with he | hmem
        · exact Or.inr (hline other ho (Or.inl he))
        · exact Or.inl hmem
      · exact Or.inr (hline other ho (Or.inr hold))

/-- Where all components are in line, syncing them writes nothing and tells of no change. -/
theorem Syncable.syncAll_of_inLine (h : Syncable runner.style target all world)
    (hgenerate : runner.config.modes.generate = false)
    (hsub : ∀ component ∈ components, component ∈ all)
    (hline : ∀ component ∈ components, world.Relates (InLine runner.style) component) :
    ∃ results after, (runner.syncAll components).exec world = (.ok results, after) ∧
      (∀ result ∈ results, result.changed = false) ∧ after.muted = world.muted := by
  induction components generalizing world with
  | nil => exact ⟨[], world, exec_pure [] world, by simp, rfl⟩
  | cons first rest ih =>
    obtain ⟨result, mid, hfirst, -, -, hsync⟩ := @exists_sync runner.style world first h.tree
      (h.readable first (hsub first List.mem_cons_self))
    cases hsync with
    | written _ hsource hsheet hcss hstale =>
      exact absurd (hline first List.mem_cons_self _ _ _ hsource hsheet hcss) hstale
    | quiet hresult hmuted =>
      obtain ⟨results, after, hexec, hresults, hafter⟩ := ih (h.of_muted_eq hmuted)
        (fun component hc => hsub component (List.mem_cons_of_mem _ hc))
        fun component hc => (hline component (List.mem_cons_of_mem _ hc)).of_muted_eq hmuted
      refine ⟨result :: results, after, ?_, ?_, hafter.trans hmuted⟩
      · rw [← Runner.sync_eq hgenerate] at hfirst
        exact Runner.exec_syncAll_cons hfirst hexec
      · intro other ho
        rcases List.mem_cons.mp ho with rfl | ho
        · exact hresult
        · exact hresults other ho

end Runner

end Scan

namespace Runner

open Session

variable {runner : Runner} {world after : World} {path : Path}

/-- The components are the files below the target with a component's suffix, out of directories that
are left alone. -/
theorem mem_components_iff :
    path ∈ runner.components world ↔
      path ∈ world.descendants runner.config.target ∧ world.isFile path = true ∧
        path.isComponent = true ∧ path.isSkipped = false := by
  rw [components, List.mem_mergeSort, List.mem_filter]
  simp only [Bool.and_eq_true, Bool.not_eq_true', and_assoc]

/-- Rewriting files brings no new components. -/
theorem mem_components_of_rewritten (hafter : after.IsTree) (h : world.Rewritten after)
    (hpath : path ∈ runner.components after) : path ∈ runner.components world := by
  obtain ⟨hbelow, hfile, hcomponent, hkept⟩ := mem_components_iff.mp hpath
  obtain ⟨base, names, hbase, hd, hne, hseen, rfl⟩ := World.mem_descendants_iff.mp hbelow
  have hl := hafter.locate_below hbase hd hseen
  have hlocate : ∀ {path : Path} {location : Location},
      after.locate path = .ok location → world.locate path = .ok location := fun hp =>
    (World.locate_eq_ok_congr h.here h.directories _).mp hp
  obtain ⟨old, mark, hold⟩ : ∃ old mark, world.store.seen (base ++ names) = some (.file old mark) := by
    rw [World.isFile_of_locate hl] at hfile
    cases hf : after.store.find? (base ++ names) with
    | none => simp [hf] at hfile
    | some entry =>
      cases entry with
      | file bytes stamp => exact h.files _ bytes stamp (Store.seen_eq_file_iff.mpr hf)
      | _ => simp [hf, Entry.isFile] at hfile
  refine mem_components_iff.mpr ⟨World.mem_descendants_iff.mpr ⟨base, names, hlocate hbase,
    (h.directories base).symm.trans hd, hne, by simp [hold], rfl⟩, ?_, hcomponent, hkept⟩
  rw [World.isFile_of_locate (hlocate hl), Store.seen_eq_file_iff.mp hold]
  rfl

/-- A directory stays one while files are rewritten. -/
theorem isDirectory_of_rewritten (h : world.Rewritten after)
    (hd : world.isDirectory path = true) : after.isDirectory path = true := by
  cases hl : world.locate path with
  | error error =>
    rw [World.isDirectory, World.entry_of_locate_error hl] at hd
    cases hd
  | ok location =>
    rw [World.isDirectory_of_locate hl] at hd
    rw [World.isDirectory_of_locate ((World.locate_eq_ok_congr h.here h.directories path).mpr hl),
      h.directories, hd]

/-- Where there is no directory, a scan reports that and does nothing. -/
theorem exec_scan_of_not_directory
    (hdirectory : world.isDirectory runner.config.target = false) :
    ∃ notice, runner.scan.exec world = (.ok [], world.report notice) := by
  rw [scan, exec_bind (exec_look _ world), if_neg (by simp [hdirectory]),
    exec_bind (Performs.log ..).ends]
  exact ⟨_, exec_pure ..⟩

/-- A scan of a directory syncs its components. -/
theorem exec_scan {results : List SyncResult}
    (hdirectory : world.isDirectory runner.config.target = true)
    (h : (runner.syncAll (runner.components world)).exec world = (.ok results, after)) :
    runner.scan.exec world = (.ok (results.filter SyncResult.changed), after) := by
  rw [scan, exec_bind (exec_look _ world), if_pos hdirectory, exec_bind (exec_look _ world),
    exec_bind h, exec_pure]

/-- The components of a runner are texts that use class names only, and their stylesheets are plain
if they are files. -/
structure Ordinary (runner : Runner) (world : World) : Prop where
  component : ∀ component ∈ runner.components world, ∃ source, world.Holds component source ∧
    ∀ name ∈ extractClasses source, name.head?.any isNameStart = true
  sheet : ∀ component ∈ runner.components world, ∀ sheet bytes,
    component.moduleSheet = .ok sheet → world.readBytes sheet = .ok bytes →
    ∃ css, decodeText? bytes = some css ∧ isPlainSheet css = true

/-- Besides, components with one stylesheet use the same classes in the same order. -/
structure Uncontested (runner : Runner) (world : World) : Prop extends Ordinary runner world where
  agree : ∀ component ∈ runner.components world, ∀ other ∈ runner.components world,
    ∀ sheet css source text, component.moduleSheet = .ok sheet → other.moduleSheet = .ok sheet →
      world.Holds sheet css → world.Holds component source → world.Holds other text →
      extractClasses source = extractClasses text

/-- Uncontested components can be synced. -/
theorem Uncontested.syncable (h : runner.Uncontested world) (hworld : world.IsTree)
    (hspec : runner.spec.Proper) :
    Syncable runner.style runner.config.target (runner.components world) world where
  tree := hworld
  leads component hc := hworld.leadsTo (mem_components_iff.mp hc).1
  suffix component hc := (mem_components_iff.mp hc).2.2.1
  readable component hc := by
    refine ⟨?_, fun sheet bytes hsheet hread => ?_⟩
    · obtain ⟨source, hsource, -⟩ := h.component component hc
      exact ⟨source, hsource⟩
    · obtain ⟨css, hcss, -⟩ := h.sheet component hc sheet bytes hsheet hread
      exact ⟨css, hcss⟩
  tame component hc source sheet css hsource hsheet hcss := by
    obtain ⟨text, htext, hnames⟩ := h.component component hc
    obtain rfl := htext.eq hsource
    obtain ⟨bytes, hread, hdecode⟩ := hcss
    obtain ⟨content, hcontent, hplain⟩ := h.sheet component hc sheet bytes hsheet hread
    obtain rfl : content = css := Option.some.inj (hcontent.symm.trans hdecode)
    exact syncText_of_printable hspec (nodup_extractClasses text)
      (fun name hn => ⟨hnames name hn, isNameChar_of_mem_extractClasses hn⟩)
      (parse_printable hplain)
  agree := h.agree

/-- After a scan that makes no stylesheets, a second one writes no file and tells of no change. -/
theorem scan_scan (hspec : runner.spec = [] ∨ runner.spec = Spec.builtin)
    (hgenerate : runner.config.modes.generate = false) (hworld : world.IsTree)
    (h : runner.Uncontested world) :
    ∃ first after second, runner.scan.exec world = (.ok first, after) ∧
      runner.scan.exec after = (.ok [], second) ∧ second.store = after.store := by
  have hplain : runner.spec.Plain := by
    rcases hspec with he | he
    · rw [he]
      exact Spec.plain_nil
    · rw [he]
      exact Spec.plain_builtin
  have hreturn : ∀ name ∈ runner.spec.names, '\r' ∉ name := by
    rcases hspec with he | he
    · rw [he]
      decide
    · rw [he]
      decide +kernel
  have hsyncable := h.syncable hworld hplain.toProper
  cases hdirectory : world.isDirectory runner.config.target with
  | false =>
    obtain ⟨notice, hfirst⟩ := exec_scan_of_not_directory hdirectory
    obtain ⟨notice', hsecond⟩ :=
      @exec_scan_of_not_directory runner (world.report notice) hdirectory
    exact ⟨[], _, _, hfirst, hsecond, rfl⟩
  | true =>
    obtain ⟨results, after, hfirst, hafter, hrewritten, hline⟩ :=
      hsyncable.syncAll hreturn hgenerate fun _ hc => hc
    have hsub : ∀ component ∈ runner.components after, component ∈ runner.components world :=
      fun component => mem_components_of_rewritten hafter.tree hrewritten
    obtain ⟨results', second, hsecond, hresults, hmuted⟩ :=
      hafter.syncAll_of_inLine hgenerate hsub fun component hc =>
        hline component (hsub component hc) (Or.inl (hsub component hc))
    have hdirectory' := isDirectory_of_rewritten hrewritten hdirectory
    refine ⟨_, after, second, exec_scan hdirectory hfirst, ?_, ?_⟩
    · rw [exec_scan hdirectory' hsecond, List.filter_eq_nil_iff.mpr fun result hr => by
        simp [hresults result hr]]
    · have hstore : second.muted.store = after.muted.store := by rw [hmuted]
      exact hstore

section Pair

variable {jsx tsx css : Text} {stamp : Nat} {e : Text × Text}

/-- Two components with one stem, and so with one stylesheet. -/
def pair (jsx tsx : Text) : List (Text × Text) :=
  [("A.jsx".toList, jsx), ("A.tsx".toList, tsx)]

/-- The path of an entry in the working directory. -/
def herePath (name : Text) : Path := ⟨.relative, [name]⟩

/-- The stylesheet of the two components. -/
def pairSheet : Path := herePath "A.module.css".toList

/-- The world of the two components and their stylesheet. -/
def pairWorld (jsx tsx css : Text) (stamp : Nat) : World where
  store :=
    { entries :=
        (pairSheet.names, .file (encodeText css) stamp) ::
          (pair jsx tsx).map fun e => ((herePath e.1).names, .file (encodeText e.2) 1)
      clock := stamp + 1 }

/-- A runner without a specification that makes no stylesheets. -/
def pairRunner : Runner where
  config := { target := {} }

/-- The three files stand in their directory. -/
theorem isTree_pairWorld (jsx tsx css : Text) (stamp : Nat) :
    (pairWorld jsx tsx css stamp).IsTree := by
  have hentries : ∀ e ∈ (pairWorld jsx tsx css stamp).store.entries,
      (∃ name ∈ ["A.module.css".toList, "A.jsx".toList, "A.tsx".toList], e.1 = [name]) ∧
        e.2 ≠ .dangling := by
    simp [pairWorld, pair, pairSheet, herePath]
  have hnames : ∀ name ∈ ["A.module.css".toList, "A.jsx".toList, "A.tsx".toList],
      World.isEntryName name = true := by decide +kernel
  refine ⟨World.Regular.of_entries (fun e he => (hentries e he).2) rfl,
    Store.IsTree.of_entries fun e he => ?_⟩
  obtain ⟨⟨name, hname, hplace⟩, -⟩ := hentries e he
  rw [hplace]
  exact ⟨rfl, by simpa using hnames name hname⟩

/-- A pair has two components. -/
theorem eq_or_eq_of_mem_pair (h : e ∈ pair jsx tsx) :
    e = ("A.jsx".toList, jsx) ∨ e = ("A.tsx".toList, tsx) := by
  simpa only [pair, List.mem_cons, List.not_mem_nil, or_false] using h

/-- Each component holds its text. -/
theorem holds_component (h : e ∈ pair jsx tsx) (he : '\r' ∉ e.2) :
    (pairWorld jsx tsx css stamp).Holds (herePath e.1) e.2 := by
  refine ⟨encodeText e.2, ?_, by rw [decodeText?_encodeText, universalNewlines_of_no_return he]⟩
  rcases eq_or_eq_of_mem_pair h with rfl | rfl <;> rfl

/-- The stylesheet holds its text. -/
theorem holds_pairSheet (hcss : '\r' ∉ css) : (pairWorld jsx tsx css stamp).Holds pairSheet css :=
  ⟨encodeText css, rfl, by rw [decodeText?_encodeText, universalNewlines_of_no_return hcss]⟩

/-- The two components share their stylesheet. -/
theorem moduleSheet_of_mem_pair (h : e ∈ pair jsx tsx) :
    (herePath e.1).moduleSheet = .ok pairSheet := by
  rcases eq_or_eq_of_mem_pair h with rfl | rfl <;> rfl

/-- The components of the world are the two of the pair. -/
theorem components_pairWorld (jsx tsx css : Text) (stamp : Nat) :
    pairRunner.components (pairWorld jsx tsx css stamp) =
      (pair jsx tsx).map fun e => herePath e.1 := by
  have hbelow : (pairWorld jsx tsx css stamp).descendants pairRunner.config.target =
      pairSheet :: (pair jsx tsx).map fun e => herePath e.1 := rfl
  have hsheet : pairSheet.isComponent = false := by decide +kernel
  have hcomponent : ∀ name ∈ ["A.jsx".toList, "A.tsx".toList],
      ((herePath name).isComponent && !(herePath name).isSkipped) = true := by decide +kernel
  have hkept : ∀ path ∈ (pair jsx tsx).map fun e => herePath e.1,
      ((pairWorld jsx tsx css stamp).isFile path && path.isComponent && !path.isSkipped) = true := by
    intro path hpath
    obtain ⟨e, he, rfl⟩ := List.mem_map.mp hpath
    have hfile : (pairWorld jsx tsx css stamp).isFile (herePath e.1) = true := by
      rcases eq_or_eq_of_mem_pair he with rfl | rfl <;> rfl
    rw [hfile, Bool.true_and]
    rcases eq_or_eq_of_mem_pair he with rfl | rfl
    · exact hcomponent _ List.mem_cons_self
    · exact hcomponent _ (List.mem_cons_of_mem _ List.mem_cons_self)
  have hsorted : [herePath "A.jsx".toList, herePath "A.tsx".toList].Pairwise fun a b => a.le b := by
    decide +kernel
  rw [components, hbelow, List.filter_cons_of_neg (by simp [hsheet]),
    List.filter_eq_self.mpr hkept]
  exact List.mergeSort_of_pairwise hsorted

/-- A component of the world is one of the pair. -/
theorem exists_of_mem_components_pairWorld {component : Path}
    (h : component ∈ pairRunner.components (pairWorld jsx tsx css stamp)) :
    ∃ e ∈ pair jsx tsx, herePath e.1 = component := by
  rw [components_pairWorld] at h
  exact List.mem_map.mp h

/-- What is asked of a runner but that the components use the same classes. -/
theorem ordinary_pairWorld (hclean : ∀ e ∈ pair jsx tsx, '\r' ∉ e.2) (hcss : '\r' ∉ css)
    (hnames : ∀ e ∈ pair jsx tsx, ∀ name ∈ extractClasses e.2, name.head?.any isNameStart = true)
    (hplain : isPlainSheet css = true) : pairRunner.Ordinary (pairWorld jsx tsx css stamp) where
  component component hc := by
    obtain ⟨e, he, rfl⟩ := exists_of_mem_components_pairWorld hc
    exact ⟨e.2, holds_component he (hclean e he), hnames e he⟩
  sheet component hc sheet bytes hsheet hread := by
    obtain ⟨e, he, rfl⟩ := exists_of_mem_components_pairWorld hc
    obtain rfl := Except.ok.inj ((moduleSheet_of_mem_pair he).symm.trans hsheet)
    exact ⟨css, (holds_pairSheet hcss).decode hread, hplain⟩

/-- A stylesheet with two classes. -/
def pairCss : Text := ".one \x7b top: 0; \x7d .two \x7b top: 0; \x7d".toList

/-- The components use the same class. -/
def sharedWorld : World := pairWorld "styles.two".toList "(styles.two)".toList pairCss 2

/-- A scan puts the class that both components use first, and the next one changes nothing. -/
theorem scan_scan_shared :
    (pairRunner.spec = [] ∨ pairRunner.spec = Spec.builtin) ∧
      pairRunner.config.modes.generate = false ∧
      sharedWorld.IsTree ∧ pairRunner.Uncontested sharedWorld ∧
      ∃ first after second, pairRunner.scan.exec sharedWorld = (.ok first, after) ∧
        pairRunner.scan.exec after = (.ok [], second) ∧ second.store = after.store := by
  have htree : sharedWorld.IsTree := isTree_pairWorld ..
  have hclean : ∀ e ∈ pair "styles.two".toList "(styles.two)".toList, '\r' ∉ e.2 := by
    decide +kernel
  have hsame : ∀ e ∈ pair "styles.two".toList "(styles.two)".toList,
      extractClasses e.2 = ["two".toList] := by decide +kernel
  have hordinary : pairRunner.Ordinary sharedWorld :=
    ordinary_pairWorld hclean (by decide +kernel) (by decide +kernel) (by decide +kernel)
  have huncontested : pairRunner.Uncontested sharedWorld := by
    refine ⟨hordinary, fun component hc other ho sheet css source text _ _ _ hsource htext => ?_⟩
    obtain ⟨e, he, rfl⟩ := exists_of_mem_components_pairWorld hc
    obtain ⟨e', he', rfl⟩ := exists_of_mem_components_pairWorld ho
    obtain rfl := (holds_component he (hclean e he)).eq hsource
    obtain rfl := (holds_component he' (hclean e' he')).eq htext
    rw [hsame e he, hsame e' he']
  exact ⟨Or.inl rfl, rfl, htree, huncontested, scan_scan (Or.inl rfl) rfl htree huncontested⟩

/-- Syncing a component of the pair whose stylesheet is not in line writes the stylesheet. -/
theorem sync_pair {world : World} (hworld : world.muted = pairWorld jsx tsx css stamp)
    (he : e ∈ pair jsx tsx) (hclean : '\r' ∉ e.2) (hcss : '\r' ∉ css)
    (hstale : ¬ InLine pairRunner.style (extractClasses e.2) css) :
    ∃ result after, (pairRunner.sync (herePath e.1)).exec world = (.ok result, after) ∧
      result.changed = true ∧
      after.muted = pairWorld jsx tsx (syncText pairRunner.style (extractClasses e.2) css)
        (stamp + 1) := by
  have htree : world.IsTree :=
    (World.Evolves.of_muted_eq (isTree_pairWorld jsx tsx css stamp) hworld).tree
  have hsheet := moduleSheet_of_mem_pair he
  have hholds : world.Holds (herePath e.1) e.2 :=
    (World.holds_congr hworld).mpr (holds_component he hclean)
  have hold : world.Holds pairSheet css := (World.holds_congr hworld).mpr (holds_pairSheet hcss)
  have hreadable : world.Readable (herePath e.1) := by
    refine ⟨⟨e.2, hholds⟩, fun sheet bytes hs hb => ?_⟩
    obtain rfl := Except.ok.inj (hsheet.symm.trans hs)
    exact ⟨css, hold.decode hb⟩
  obtain ⟨result, after, hexec, -, -, hsync⟩ := @exists_sync pairRunner.style world _ htree hreadable
  refine ⟨result, after, hexec, ?_⟩
  cases hsync with
  | quiet _ _ hline => exact absurd (hline e.2 pairSheet css hholds hsheet hold) hstale
  | written hresult hsource hs hc _ hwrote =>
    obtain rfl := hsource.eq hholds
    obtain rfl := Except.ok.inj (hsheet.symm.trans hs)
    obtain rfl := hc.eq hold
    rw [hworld] at hwrote
    exact ⟨hresult, (Except.ok.inj hwrote).symm⟩

/-- Where neither component of the pair finds the stylesheet in line, a scan tells of both and
leaves the stylesheet as the second one wants it. -/
theorem scan_pair {world : World} (hworld : world.muted = pairWorld jsx tsx css stamp)
    (hclean : ∀ e ∈ pair jsx tsx, '\r' ∉ e.2) (hcss : '\r' ∉ css)
    (hfirst : ¬ InLine pairRunner.style (extractClasses jsx) css)
    (hsecond : ¬ InLine pairRunner.style (extractClasses tsx)
      (syncText pairRunner.style (extractClasses jsx) css)) :
    ∃ results after, pairRunner.scan.exec world = (.ok results, after) ∧ results.length = 2 ∧
      after.muted = pairWorld jsx tsx (syncText pairRunner.style (extractClasses tsx)
        (syncText pairRunner.style (extractClasses jsx) css)) (stamp + 2) := by
  have hmem : ("A.jsx".toList, jsx) ∈ pair jsx tsx := List.mem_cons_self
  have hmem' : ("A.tsx".toList, tsx) ∈ pair jsx tsx := List.mem_cons_of_mem _ List.mem_cons_self
  have hmid : '\r' ∉ syncText pairRunner.style (extractClasses jsx) css :=
    return_not_mem_syncText (by decide) (fun name hn => isNameChar_of_mem_extractClasses hn) hcss
  obtain ⟨one, mid, hone, hchanged, hworld'⟩ :=
    sync_pair hworld hmem (hclean _ hmem) hcss hfirst
  obtain ⟨two, after, htwo, hchanged', hafter⟩ :=
    sync_pair hworld' hmem' (hclean _ hmem') hmid hsecond
  have hdirectory : world.muted.isDirectory pairRunner.config.target = true := by
    rw [hworld]
    rfl
  have hall : (pairRunner.syncAll (pairRunner.components world.muted)).exec world =
      (.ok [one, two], after) := by
    rw [hworld, components_pairWorld]
    exact exec_syncAll_cons hone (exec_syncAll_cons htwo (exec_pure [] after))
  exact ⟨_, after, exec_scan hdirectory hall, by simp [hchanged, hchanged'], hafter⟩

/-- The components use one class each. -/
def contestedWorld : World := pairWorld "styles.one".toList "styles.two".toList pairCss 2

/-- Each of the components writes the stylesheet at the first scan, and again at the second. -/
theorem scan_scan_contested :
    pairRunner.spec = [] ∧ pairRunner.config.modes.generate = false ∧
      contestedWorld.IsTree ∧ pairRunner.Ordinary contestedWorld ∧
      ∃ first after second last, pairRunner.scan.exec contestedWorld = (.ok first, after) ∧
        pairRunner.scan.exec after = (.ok second, last) ∧ second.length = 2 ∧
        last.store ≠ after.store := by
  have hclean : ∀ e ∈ pair "styles.one".toList "styles.two".toList, '\r' ∉ e.2 := by
    decide +kernel
  have hcss : '\r' ∉ pairCss := by decide +kernel
  have hworld : contestedWorld.muted = pairWorld "styles.one".toList "styles.two".toList pairCss 2 :=
    rfl
  obtain ⟨first, after, hscan, -, hafter⟩ := scan_pair hworld hclean hcss
    (by decide +kernel) (by decide +kernel)
  obtain ⟨second, last, hscan', hlength, hlast⟩ := scan_pair hafter hclean
    (by decide +kernel) (by decide +kernel) (by decide +kernel)
  refine ⟨rfl, rfl, isTree_pairWorld .., ordinary_pairWorld hclean hcss (by decide +kernel)
    (by decide +kernel), first, after, second, last, hscan, hscan', hlength, fun hstore => ?_⟩
  have hclock : last.muted.store.clock = after.muted.store.clock := congrArg Store.clock hstore
  rw [hlast, hafter] at hclock
  cases hclock

end Pair

end Runner

end StyleModules
