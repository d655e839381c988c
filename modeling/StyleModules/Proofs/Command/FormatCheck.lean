import StyleModules.Proofs.Command.FormatRun
import StyleModules.Proofs.Json.LongInteger
import StyleModules.Proofs.Layout.StoredStyle

/-!
# When a check foretells what formatting does

A check of files and formatting them start from the same state. The check foretells formatting if it
changes nothing, both tell the same names, these are the files whose texts formatting replaces, and
the check fails exactly if there is such a name (`Foretells`).

This is so exactly if the specification's file has no integer of too many digits, which ends both
before they come to the files, and no layout has a label that holds a half of a character, which a
check cannot see and formatting cannot write (`check_foretells_format_iff`).
-/

namespace StyleModules

open Session

/-- The writes put another text in place of the one that the file holds, its line ends read as line
feeds, and it holds the new one afterwards. -/
def World.Replaces (world : World) (writes : List (Path × Text)) (after : World) (path : Path) :
    Prop :=
  ∃ old new, world.Holds path old ∧ (path, new) ∈ writes ∧ new ≠ old ∧
    after.readBytes path = .ok (encodeText new)

/-- A check of files and formatting them, both from this world, tell these names, and the check is
right about what formatting does. -/
structure Foretells (world : World) (files names : List Text)
    (checked formatted : Except Fault Nat × World) : Prop where
  /-- The check changes no file. -/
  kept : checked.2.store = world.store
  /-- The names are told by the check, in order. -/
  foretold : checked.2.printedLines = names.map (layoutLine true)
  /-- The same names are told by formatting, in the same order. -/
  told : formatted.2.printedLines = names.map (layoutLine false)
  /-- The check fails if there is such a name. -/
  code : exitCode checked.1 = if names = [] then 0 else 1
  /-- The names are those of files. -/
  known : names.Sublist files
  /-- The files of these names have their texts replaced, nothing else is written, and the others of
  the files are left as they are. -/
  replaced : ∃ writes, world.muted.writeAll writes = .ok formatted.2.muted ∧
    (∀ write ∈ writes, ∃ file ∈ names, write.1 = Path.ofText file) ∧
    ∀ file ∈ files, (file ∈ names ↔ world.Replaces writes formatted.2 (Path.ofText file)) ∧
      (file ∉ names → formatted.2.entry (Path.ofText file) = world.entry (Path.ofText file))

section Runs

variable {style : Style CodeText} {texts : Text → Text} {world mid after : World} {file : Text}
  {files names : List Text} {sort : Option Text} {headers : Bool} {spec : Spec CodeText}

/-- The notices of names print their lines. -/
theorem filterMap_printed?_notices (check : Bool) (names : List Text) :
    (names.map (layoutNotice check)).filterMap Notice.printed? = names.map (layoutLine check) := by
  rw [List.filterMap_map, ← List.filterMap_eq_map]
  rfl

/-- The summary of a check prints nothing among the names. -/
theorem filterMap_printed?_summary (check : Bool) (names : List Text) :
    (layoutSummary check names).filterMap Notice.printed? = [] := by
  rw [layoutSummary]
  split <;> rfl

/-- Different names are told by different lines. -/
theorem layoutLine_injective (check : Bool) {a b : Text}
    (h : layoutLine check a = layoutLine check b) : a = b :=
  List.append_cancel_left h

/-- A loaded specification has been reported and has changed nothing else. -/
structure Loads (world : World) (sort : Option Text) (spec : Spec CodeText) (mid : World) :
    Prop where
  /-- Loading ends with the specification. -/
  performs : (loadSpecOrBuiltin sort).Performs world.muted (.ok spec) [] mid
  /-- Nothing has been printed. -/
  silent : mid.printedLines = []

/-- In a world of texts a specification is loaded, unless its file has too long an integer. -/
theorem exists_loads (hlegible : world.Legible)
    (hshort : ∀ digits, ¬ world.HasLongInteger sort digits) :
    ∃ spec mid, Loads world sort spec mid := by
  obtain ⟨spec, level, message, hload⟩ :=
    @loadSpecOrBuiltin_performs world.muted hlegible sort hshort
  exact ⟨spec, _, hload, rfl⟩

/-- Files stay what they are while a specification is loaded. -/
theorem Loads.holdsApart (h : Loads world sort spec mid) (hfiles : world.HoldsApart texts files) :
    mid.HoldsApart texts files := by
  have hsame : mid.muted = world.muted := h.performs.muted_eq
  have hlocate : ∀ path, mid.locate path = world.locate path := by
    intro path
    have hmuted : mid.muted.locate path = world.muted.locate path := by rw [hsame]
    exact hmuted
  refine ⟨fun file hf => (World.holds_congr hsame).mpr (hfiles.holds file hf), ?_⟩
  simpa only [hlocate] using hfiles.apart

/-- Once the specification is loaded, a check tells the names of the files that are not laid out,
and formatting does so too and lays them out, if all layouts are texts. -/
theorem answer_format (check headers : Bool) (hload : Loads world sort spec mid)
    (htyped : world.DistinctFiles files) (hfiles : world.HoldsApart texts files)
    (hlaid : check = true ∨ ∀ file ∈ files, fileLayout ⟨spec, headers⟩ texts file ≠ none)
    (pauses : List Pause) :
    ∃ last, answerFormat files sort check headers pauses world =
        (.ok (if check ∧ strays ⟨spec, headers⟩ texts files ≠ [] then 1 else 0), last) ∧
      world.muted.writeAll (if check then [] else layoutWrites ⟨spec, headers⟩ texts files) =
        .ok last.muted ∧
      last.printedLines = (strays ⟨spec, headers⟩ texts files).map (layoutLine check) := by
  obtain ⟨after, heach, hafter⟩ := formatEach_performs (hload.holdsApart hfiles) hlaid
  obtain ⟨last, hrun, hlast⟩ := runFormat_performs hload.performs heach
  refine ⟨last, answer_of_performs htyped hrun pauses, hrun.wrote, ?_⟩
  have hsilent : mid.journal.filterMap Notice.printed? = [] := hload.silent
  rw [World.printedLines, hlast, hafter, List.filterMap_append, List.filterMap_append, hsilent,
    filterMap_printed?_notices, filterMap_printed?_summary, List.nil_append, List.append_nil]

/-- Once the specification is loaded, formatting stops at a file whose layout is no text, and tells
only of files before it. -/
theorem answer_format_stops {front rest : List Text} (hload : Loads world sort spec mid)
    (htyped : world.DistinctFiles (front ++ file :: rest))
    (hfiles : world.HoldsApart texts (front ++ file :: rest))
    (hlaid : ∀ other ∈ front, fileLayout ⟨spec, headers⟩ texts other ≠ none)
    (hnone : fileLayout ⟨spec, headers⟩ texts file = none) (pauses : List Pause) :
    (answerFormat (front ++ file :: rest) sort false headers pauses world).2.printedLines =
      (strays ⟨spec, headers⟩ texts front).map (layoutLine false) := by
  obtain ⟨after, heach, hafter⟩ := formatEach_stops (hload.holdsApart hfiles) hlaid hnone
  have hrun : (runFormat (front ++ file :: rest) sort false headers).Performs world.muted
      (.error .unencodable) _ after := hload.performs.bind heach.bind_error
  have hsilent : mid.journal.filterMap Notice.printed? = [] := hload.silent
  rw [answer_of_performs htyped hrun pauses, World.printedLines, hafter,
    List.filterMap_append, hsilent, filterMap_printed?_notices, List.nil_append]

/-- Too long an integer in the specification's file makes checking and formatting fail without a
name. -/
theorem answer_format_of_long {digits : Nat} (hlong : world.HasLongInteger sort digits)
    (htyped : world.DistinctFiles files) (check headers : Bool) (pauses : List Pause) :
    exitCode (answerFormat files sort check headers pauses world).1 = 1 ∧
      (answerFormat files sort check headers pauses world).2.printedLines = [] := by
  have hload := @loadSpecOrBuiltin_fails world.muted sort digits hlong
  have hrun : (runFormat files sort check headers).Performs world.muted
      (.error (.longInteger digits)) [] world.muted := hload.bind_error
  rw [answer_of_performs htyped hrun pauses]
  exact ⟨rfl, rfl⟩

end Runs

section Verdict

variable {style : Style CodeText} {texts : Text → Text} {world mid after : World} {file : Text}
  {files names : List Text} {sort : Option Text} {headers : Bool}
  {spec : Spec CodeText} {checkPauses formatPauses : List Pause}

/-- Names that lead to one place are the same. -/
theorem World.DistinctFiles.eq_of_locate_eq (hfiles : world.DistinctFiles files) {a b : Text}
    (ha : a ∈ files) (hb : b ∈ files)
    (h : world.locate (Path.ofText a) = world.locate (Path.ofText b)) : a = b := by
  have : Std.Symm fun a b : Text =>
      world.locate (Path.ofText a) ≠ world.locate (Path.ofText b) := ⟨fun _ _ hne => hne.symm⟩
  by_contra hne
  exact hfiles.apart.forall ha hb hne h

/-- A file's layout is written exactly if it is not the text that the file holds. -/
theorem mem_layoutWrites_iff (hfiles : world.DistinctFiles files) (hfile : file ∈ files)
    {t : Text} :
    (Path.ofText file, t) ∈ layoutWrites style texts files ↔
      file ∈ strays style texts files ∧ t = (fileLayout style texts file).getD [] := by
  constructor
  · intro hw
    obtain ⟨other, ho, he⟩ := List.mem_map.mp hw
    obtain ⟨hpath, rfl⟩ := Prod.mk.inj he
    obtain rfl := hfiles.eq_of_locate_eq (List.mem_filter.mp ho).1 hfile (by rw [hpath])
    exact ⟨ho, rfl⟩
  · rintro ⟨hs, rfl⟩
    exact List.mem_map.mpr ⟨file, hs, rfl⟩

/-- Of the files that are formatted, those that are not laid out have their texts replaced, and the
others are left as they are. -/
theorem strays_replaced (hfiles : world.DistinctFiles files)
    (hlaid : ∀ file ∈ files, fileLayout style texts file ≠ none)
    (hwrote : world.muted.writeAll (layoutWrites style texts files) = .ok after.muted)
    (hheld : ∀ file ∈ files, world.Holds (Path.ofText file) (texts file)) (hfile : file ∈ files) :
    (file ∈ strays style texts files ↔
      world.Replaces (layoutWrites style texts files) after (Path.ofText file)) ∧
      (file ∉ strays style texts files →
        after.entry (Path.ofText file) = world.entry (Path.ofText file)) := by
  obtain ⟨bytes, hread, hdecode⟩ := hheld file hfile
  have hlocate : ∀ write ∈ layoutWrites style texts files,
      world.locate write.1 = world.locate (Path.ofText file) →
        write.1 = Path.ofText file ∧ file ∈ strays style texts files := by
    intro write hw he
    obtain ⟨other, ho, rfl⟩ := List.mem_map.mp hw
    obtain rfl := hfiles.eq_of_locate_eq (List.mem_filter.mp ho).1 hfile he
    exact ⟨rfl, ho⟩
  refine ⟨⟨fun hs => ?_, ?_⟩, fun hs => ?_⟩
  · obtain ⟨location, -, hl, -⟩ := World.exists_of_readBytes hread
    obtain ⟨new, hnew, hafter⟩ := World.exists_readBytes_of_mem hwrote hl
      (fun write hw he => (hlocate write hw (he.trans hl.symm)).1)
      ((mem_layoutWrites_iff hfiles hfile).mpr ⟨hs, rfl⟩)
    obtain rfl := ((mem_layoutWrites_iff hfiles hfile).mp hnew).2
    obtain ⟨out, hout⟩ := Option.ne_none_iff_exists'.mp (hlaid file hfile)
    have hother : fileLayout style texts file ≠ some (texts file) :=
      bne_iff_ne.mp (List.mem_filter.mp hs).2
    refine ⟨_, _, hheld file hfile, hnew, fun he => hother ?_, hafter⟩
    rw [hout, Option.getD_some] at he
    rw [hout, he]
  · rintro ⟨_, new, -, hw, -⟩
    exact ((mem_layoutWrites_iff hfiles hfile).mp hw).1
  · obtain ⟨stamp, hentry⟩ := World.readBytes_eq_ok_iff.mp hread
    rw [hentry]
    exact (World.wroteAll_of_writeAll hwrote).entry_eq_file hentry fun write hw he =>
      hs (hlocate write hw he).2

/-- A check foretells formatting if the specification is loaded and all layouts are texts. The names
are those of the files that are not laid out. -/
theorem foretells_of_loads (hload : Loads world sort spec mid) (htyped : world.DistinctFiles files)
    (hfiles : world.HoldsApart texts files)
    (hlaid : ∀ file ∈ files, fileLayout ⟨spec, headers⟩ texts file ≠ none) :
    Foretells world files (strays ⟨spec, headers⟩ texts files)
      (answerFormat files sort true headers checkPauses world)
      (answerFormat files sort false headers formatPauses world) := by
  obtain ⟨checked, hchecked, hkept, hforetold⟩ :=
    answer_format true headers hload htyped hfiles (Or.inl rfl) checkPauses
  obtain ⟨formatted, hformatted, hwrote, htold⟩ :=
    answer_format false headers hload htyped hfiles (Or.inr hlaid) formatPauses
  rw [hchecked, hformatted]
  refine ⟨World.store_eq_of_muted_eq (Except.ok.inj hkept).symm, hforetold, htold, ?_,
    List.filter_sublist, _, hwrote, fun write hw => ?_,
    fun file hf => strays_replaced htyped hlaid hwrote hfiles.holds hf⟩
  · by_cases hnone : strays ⟨spec, headers⟩ texts files = []
    · simp [exitCode, hnone]
    · simp [exitCode, hnone]
  · obtain ⟨file, hs, rfl⟩ := List.mem_map.mp hw
    exact ⟨file, hs, rfl⟩

/-- A check foretells nothing if the specification's file has too long an integer: it fails and
tells no name. -/
theorem not_foretells_of_long {digits : Nat} (hlong : world.HasLongInteger sort digits)
    (htyped : world.DistinctFiles files) {formatted : Except Fault Nat × World} :
    ¬ Foretells world files names
      (answerFormat files sort true headers checkPauses world)
      formatted := by
  intro h
  obtain ⟨hcode, hprinted⟩ :=
    answer_format_of_long hlong htyped true headers checkPauses
  have hnames : names = [] := List.map_eq_nil_iff.mp (h.foretold.symm.trans hprinted)
  have hzero := h.code
  rw [hcode, hnames] at hzero
  exact absurd hzero (by decide)

/-- A check foretells nothing if the layout of some file has a label that holds a half: it tells the
name of that file, and formatting does not. -/
theorem not_foretells_of_half (hload : Loads world sort spec mid)
    (htyped : world.DistinctFiles files) (hfiles : world.HoldsApart texts files)
    (hfile : file ∈ files) (hnone : fileLayout ⟨spec, headers⟩ texts file = none) :
    ¬ Foretells world files names
      (answerFormat files sort true headers checkPauses world)
      (answerFormat files sort false headers formatPauses world) := by
  intro h
  obtain ⟨last, hchecked, -, hforetold⟩ :=
    answer_format true headers hload htyped hfiles (Or.inl rfl) checkPauses
  rw [hchecked] at h
  have hall : names = strays ⟨spec, headers⟩ texts files :=
    List.map_injective_iff.mpr (fun _ _ => layoutLine_injective true)
      (h.foretold.symm.trans hforetold)
  -- Formatting stops at the first file of this kind.
  obtain ⟨bad, hfind⟩ : ∃ bad,
      files.find? (fun other => (fileLayout ⟨spec, headers⟩ texts other).isNone) = some bad :=
    Option.isSome_iff_exists.mp
      (List.find?_isSome.mpr ⟨file, hfile, Option.isNone_iff_eq_none.mpr hnone⟩)
  obtain ⟨hisNone, front, rest, rfl, hfront⟩ := List.find?_eq_some_iff_append.mp hfind
  have hbad := Option.isNone_iff_eq_none.mp hisNone
  have hsome : ∀ other ∈ front, fileLayout ⟨spec, headers⟩ texts other ≠ none := by
    intro other ho he
    simpa [he] using hfront other ho
  have htold := h.told
  rw [answer_format_stops hload htyped hfiles hsome hbad] at htold
  have hfew : strays ⟨spec, headers⟩ texts front = names :=
    List.map_injective_iff.mpr (fun _ _ => layoutLine_injective false) htold
  have hstray : fileLayout ⟨spec, headers⟩ texts bad ≠ some (texts bad) := by
    rw [hbad]
    exact Option.some_ne_none _ |>.symm
  have hlength := congrArg List.length (hfew.trans hall)
  rw [strays_append, ← List.singleton_append, strays_append, strays_singleton hstray] at hlength
  simp only [List.length_append, List.length_singleton] at hlength
  omega

/-- A check foretells formatting exactly if the specification's file has no integer of too many
digits and no layout of the files has a label that holds a half. Both start from the same world of
texts without links, with the same distinct files, the same name of a specification and the same
wish for labels. -/
theorem check_foretells_format_iff (hworld : world.IsTree) (hlegible : world.Legible)
    (hfiles : world.DistinctFiles files) :
    (∃ names, Foretells world files names
      (answerFormat files sort true headers checkPauses world)
      (answerFormat files sort false headers formatPauses world)) ↔
    (∀ digits, ¬ world.HasLongInteger sort digits) ∧
      ∀ spec loaded, (loadSpecOrBuiltin sort).exec world.muted = (.ok spec, loaded) →
        ∀ file ∈ files, ∀ css, world.Holds (Path.ofText file) css →
          (parse css).needsHalf (⟨spec, headers⟩ : Style CodeText) = false := by
  have hheld : ∀ file, ∃ t, file ∈ files → world.Holds (Path.ofText file) t := by
    intro file
    by_cases hf : file ∈ files
    · obtain ⟨bytes, stamp, hentry⟩ := hfiles.typed file hf
      obtain ⟨t, ht⟩ := hlegible.exists_holds (hworld.entry_of_typedEntry hentry)
      exact ⟨t, fun _ => ht⟩
    · exact ⟨[], fun h => absurd h hf⟩
  obtain ⟨texts, hheld⟩ := Classical.skolem.mp hheld
  have hapart : world.HoldsApart texts files := ⟨hheld, hfiles.apart⟩
  constructor
  · rintro ⟨names, h⟩
    have hshort : ∀ digits, ¬ world.HasLongInteger sort digits :=
      fun digits hlong => not_foretells_of_long hlong hfiles h
    refine ⟨hshort, fun spec loaded hexec file hf css hcss => ?_⟩
    obtain ⟨found, mid, hload⟩ := exists_loads hlegible hshort
    obtain ⟨hfound, rfl⟩ := Prod.mk.inj (hload.performs.ends.symm.trans hexec)
    obtain rfl := Except.ok.inj hfound
    obtain rfl := (hheld file hf).eq hcss
    refine Bool.eq_false_iff.mpr fun hhalf => ?_
    exact not_foretells_of_half hload hfiles hapart hf (Style.lay_eq_none_iff.mpr hhalf) h
  · rintro ⟨hshort, hwhole⟩
    obtain ⟨spec, mid, hload⟩ := exists_loads hlegible hshort
    refine ⟨_, foretells_of_loads hload hfiles hapart fun file hf hnone => ?_⟩
    have hhalf := hwhole spec mid hload.performs.ends file hf (texts file) (hheld file hf)
    rw [Style.lay_eq_none_iff.mp hnone] at hhalf
    cases hhalf

end Verdict

/-- One file is distinct. -/
theorem World.DistinctFiles.singleton {world : World} {file : Text} {bytes : ByteArray}
    {stamp : Nat} (h : world.typedEntry file = .ok (.file bytes stamp)) :
    world.DistinctFiles [file] where
  typed other ho := by
    rw [List.mem_singleton.mp ho]
    exact ⟨bytes, stamp, h⟩
  apart := List.pairwise_singleton ..

section Examples

/-- A working directory that holds these texts. -/
def World.ofTexts (texts : List (Text × Text)) : World where
  store := { entries := texts.map fun (name, t) => ([name], .file (encodeText t) 1), clock := 2 }

variable {texts : List (Text × Text)}

/-- Texts under names of entries stand in a tree. -/
theorem World.isTree_ofTexts (hnames : ∀ e ∈ texts, isEntryName e.1 = true) :
    (World.ofTexts texts).IsTree where
  toRegular := by
    refine World.Regular.of_entries (fun e he => ?_) rfl
    obtain ⟨entry, -, rfl⟩ := List.mem_map.mp he
    exact Entry.noConfusion
  tree := by
    refine Store.IsTree.of_entries fun e he => ?_
    obtain ⟨entry, hentry, rfl⟩ := List.mem_map.mp he
    exact ⟨rfl, fun name hname => List.mem_singleton.mp hname ▸ hnames entry hentry⟩

/-- A world of texts is one. -/
theorem World.legible_ofTexts (texts : List (Text × Text)) : (World.ofTexts texts).Legible := by
  intro location bytes stamp hseen
  have hf := Store.seen_eq_file_iff.mp hseen
  have hne : location ≠ [] := by
    rintro rfl
    cases hf
  obtain ⟨entry, -, hentry⟩ := List.mem_map.mp (Store.mem_entries_of_find? hf hne)
  cases (Prod.mk.inj hentry).2
  exact ⟨_, decodeText?_encodeText entry.2⟩

/-- Two stylesheets: one that is not laid out, and one that is but for the ends of its lines. -/
def draftWorld : World := World.ofTexts
  [("a.css".toList, ".a\x7btop:0\x7d".toList),
    ("b.css".toList, ".b \x7b\r\n\ttop: 0;\r\n\x7d\r\n".toList)]

/-- The names of the two stylesheets, as they are typed. -/
def draftNames : List Text := ["./a.css".toList, "b.css".toList]

/-- The two names lead to two files. -/
theorem distinctFiles_draftWorld : draftWorld.DistinctFiles draftNames where
  typed file hf := by
    simp only [draftNames, List.mem_cons, List.not_mem_nil, or_false] at hf
    rcases hf with rfl | rfl <;> exact ⟨_, _, rfl⟩
  apart := by
    have hfirst : draftWorld.locate (Path.ofText "./a.css".toList) = .ok ["a.css".toList] := rfl
    have hsecond : draftWorld.locate (Path.ofText "b.css".toList) = .ok ["b.css".toList] := rfl
    refine List.pairwise_pair.mpr fun he => ?_
    have hplace := Except.ok.inj (hfirst.symm.trans (he.trans hsecond))
    exact absurd hplace (by decide +kernel)

/-- A check or the formatting of the two stylesheets. -/
def draftAnswer (check : Bool) : Except Fault Nat × World :=
  answerFormat draftNames none check false [] draftWorld

/-- The check of the two stylesheets foretells formatting: it tells the name of the first one, which
formatting lays out, and passes over the second one. -/
theorem check_foretells_format_drafts :
    draftWorld.IsTree ∧ draftWorld.Legible ∧ draftWorld.DistinctFiles draftNames ∧
      (draftAnswer true).2.printedLines = ["Would reformat: ./a.css".toList] ∧
      ∃ names, Foretells draftWorld draftNames names (draftAnswer true) (draftAnswer false) := by
  have htree : draftWorld.IsTree := World.isTree_ofTexts (by decide +kernel)
  have hlegible : draftWorld.Legible := World.legible_ofTexts _
  refine ⟨htree, hlegible, distinctFiles_draftWorld, by decide +kernel,
    (check_foretells_format_iff htree hlegible distinctFiles_draftWorld).mpr ⟨?_, ?_⟩⟩
  · rintro digits ⟨name, document, hname, -⟩
    cases hname
  · intro spec loaded hload file hf css hcss
    obtain rfl : Spec.stored Spec.builtin = spec := Except.ok.inj (Prod.mk.inj hload).1
    have hstored := Node.needsHalf_stored (⟨Spec.builtin, false⟩ : Style) (parse css)
    rw [Node.needsHalf_text] at hstored
    exact hstored

/-- The document of a specification that starts with an integer of too many digits. -/
def longDocument : Text := '[' :: '1' :: (List.replicate JsonReader.digitLimit '1' ++ [']'])

/-- A stylesheet that is laid out, beside that document. -/
def longWorld : World := World.ofTexts
  [("s.json".toList, longDocument), ("a.css".toList, ".a \x7b\n\tzzz: 0;\n\x7d\n".toList)]

/-- The document of a specification with a label that is a half. -/
def halfDocument : Text :=
  "[\x7b\"category\": \"\\ud800\", \"keywords\": [\"top\"]\x7d]".toList

/-- The specification in that document. -/
def halfSpec : Spec CodeText := [⟨[.half 0], [Text.points "top".toList]⟩]

/-- The document is read as that specification. -/
theorem read_halfDocument : Spec.read (universalNewlines halfDocument) = .ok halfSpec := by
  have hread : (Spec.read (universalNewlines halfDocument)).toOption = some halfSpec := by
    decide +kernel
  cases hspec : Spec.read (universalNewlines halfDocument) with
  | error fault =>
    rw [hspec] at hread
    cases hread
  | ok spec =>
    rw [hspec] at hread
    rw [Option.some.inj hread]

/-- A stylesheet that is not laid out, beside that document. -/
def halfWorld : World := World.ofTexts
  [("s.json".toList, halfDocument), ("a.css".toList, ".a\x7btop:0\x7d".toList)]

/-- A check or the formatting of the stylesheet by the document beside it. -/
def sheetAnswer (world : World) (check : Bool) : Except Fault Nat × World :=
  answerFormat ["a.css".toList] (some "s.json".toList) check true [] world

/-- A check of a stylesheet does not foretell formatting by a specification with an integer of too
many digits, nor by one with a label that is a half. -/
theorem check_misleads :
    (longWorld.IsTree ∧ longWorld.Legible ∧ longWorld.DistinctFiles ["a.css".toList] ∧
      ¬ ∃ names, Foretells longWorld ["a.css".toList] names
        (sheetAnswer longWorld true) (sheetAnswer longWorld false)) ∧
    halfWorld.IsTree ∧ halfWorld.Legible ∧ halfWorld.DistinctFiles ["a.css".toList] ∧
      ¬ ∃ names, Foretells halfWorld ["a.css".toList] names
        (sheetAnswer halfWorld true) (sheetAnswer halfWorld false) := by
  have hlong : longWorld.DistinctFiles ["a.css".toList] :=
    .singleton (rfl : longWorld.typedEntry "a.css".toList = _)
  have hhalf : halfWorld.DistinctFiles ["a.css".toList] :=
    .singleton (rfl : halfWorld.typedEntry "a.css".toList = _)
  refine ⟨⟨World.isTree_ofTexts (by decide +kernel), World.legible_ofTexts _, hlong, ?_⟩,
    World.isTree_ofTexts (by decide +kernel), World.legible_ofTexts _, hhalf, ?_⟩
  · rintro ⟨names, h⟩
    have hread : JsonValue.read longDocument =
        .error (.longInteger ((List.replicate JsonReader.digitLimit '1').length + 1)) :=
      JsonValue.read_digits rfl (by decide) (fun d hd => List.eq_of_mem_replicate hd ▸ rfl) []
        (Nat.le_of_eq List.length_replicate.symm)
    have hholds : longWorld.Holds (Path.ofText "s.json".toList) (universalNewlines longDocument) :=
      .of_entry (rfl : longWorld.entry (Path.ofText "s.json".toList) = _)
    rw [universalNewlines_of_no_return (by simp [longDocument])] at hholds
    exact not_foretells_of_long ⟨_, _, rfl, hholds, hread⟩ hlong h
  · rintro ⟨names, h⟩
    have hholds : halfWorld.Holds (Path.ofText "s.json".toList) (universalNewlines halfDocument) :=
      .of_entry (rfl : halfWorld.entry (Path.ofText "s.json".toList) = _)
    obtain ⟨_, _, hload⟩ := @loadSpecOrBuiltin_reads halfWorld.muted _ _ _ hholds read_halfDocument
    have hsheet : halfWorld.HoldsApart (fun _ => ".a\x7btop:0\x7d".toList) ["a.css".toList] := by
      refine ⟨fun file hf => ?_, hhalf.apart⟩
      rw [List.mem_singleton.mp hf]
      exact .of_entry (rfl : halfWorld.entry (Path.ofText "a.css".toList) = _)
    have hlabel : (parse ".a\x7btop:0\x7d".toList).needsHalf ⟨halfSpec, true⟩ = true := by
      decide +kernel
    exact not_foretells_of_half ⟨hload, rfl⟩ hhalf hsheet (List.mem_singleton_self _)
      (Style.lay_eq_none_iff.mpr hlabel) h

end Examples

end StyleModules
