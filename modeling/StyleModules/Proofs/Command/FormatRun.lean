import Mathlib.Data.List.Pairwise
import StyleModules.Command.Run
import StyleModules.Proofs.Files.Evolution

/-!
# What formatting and checking do

A specification that is wished for is loaded unless its document has too long an integer
(`loadSpecOrBuiltin_performs`). A check then reads every file and tells the names of those that are
not laid out (`formatEach_performs`). Formatting writes the layouts of these files and tells their
names, up to the first one with a label that holds a half: that file is emptied, and the rest is
left alone (`formatEach_stops`).

The specification has been loaded before, and each file stands at a place of its own, so no write of
formatting is seen at a later file.
-/

namespace StyleModules

/-- A name that does not count is empty or a point. -/
theorem Path.isProperName_eq (name : Text) :
    isProperName name = !(name.isEmpty || name == ['.']) := by
  rw [isProperName, Bool.not_or, bne]

namespace World

variable {world : World}

/-- Names that do not count lead nowhere else. -/
theorem walk_filter_isProperName {store : Store} {location reached : Location} {names : List Text}
    (h : walk store location names = .ok reached) :
    walk store location (names.filter Path.isProperName) = .ok reached := by
  induction names generalizing location with
  | nil => exact h
  | cons name names ih =>
    cases hd : store.hasDirectory location with
    | false => exact absurd h (walk_cons_of_not_directory hd name names)
    | true =>
      rw [walk_cons_of_directory hd] at h
      cases hname : Path.isProperName name with
      | false =>
        rw [List.filter_cons_of_neg (by simp [hname])]
        rw [Path.isProperName_eq, Bool.not_eq_false'] at hname
        rw [if_pos hname] at h
        exact ih h
      | true =>
        have hproper : ¬ (name.isEmpty || name == ['.']) = true := by
          simpa only [Path.isProperName_eq, Bool.not_eq_true', Bool.not_eq_true] using hname
        rw [List.filter_cons_of_pos hname, walk_cons_of_directory hd, if_neg hproper]
        rw [if_neg hproper] at h
        split at h
        · next hup => rw [if_pos hup]; exact ih h
        · next hup => rw [if_neg hup]; exact ih h

/-- From a place below proper names every path leads to such a place. -/
theorem isEntryName_of_walk {store : Store} {location reached : Location} {names : List Text}
    (hlocation : ∀ name ∈ location, isEntryName name = true)
    (h : walk store location names = .ok reached) : ∀ name ∈ reached, isEntryName name = true := by
  induction names generalizing location with
  | nil => exact Except.ok.inj h ▸ hlocation
  | cons name names ih =>
    cases hd : store.hasDirectory location with
    | false => exact absurd h (walk_cons_of_not_directory hd name names)
    | true =>
      rw [walk_cons_of_directory hd] at h
      -- Two points take a name away, and any other name that counts is added.
      split at h
      · exact ih hlocation h
      · next hproper =>
        split at h
        · exact ih (fun other ho => hlocation other (List.dropLast_subset location ho)) h
        · next hup =>
          refine ih (fun other ho => ?_) h
          rcases List.mem_append.mp ho with ho | ho
          · exact hlocation other ho
          · rw [List.mem_singleton.mp ho]
            rw [isEntryName, Path.isProperName_eq, Bool.and_eq_true, Bool.not_eq_true', bne_iff_ne]
            exact ⟨Bool.eq_false_iff.mpr hproper, fun he => hup (beq_iff_eq.mpr he)⟩

/-- What stands at a path as it was typed stands at the path that the text denotes. -/
theorem IsTree.entry_of_typedEntry (hworld : world.IsTree) {t : Text} {entry : Entry}
    (h : world.typedEntry t = .ok entry) : world.entry (Path.ofText t) = .ok entry := by
  have hstart : ∀ name ∈ world.start (Path.ofText t), isEntryName name = true :=
    hworld.tree.names _ (Store.seen_ne_none_of_hasDirectory (hworld.start (Path.ofText t)))
  rw [typedEntry] at h
  split at h
  · cases h
  · split at h
    · cases h
    · next reached hwalk =>
      have hlocate : world.locate (Path.ofText t) = .ok reached := walk_filter_isProperName hwalk
      -- From the root the names of the place lead to it, if anywhere.
      cases hroot : world.locate ⟨.root, reached⟩ with
      | error error =>
        rw [entry_of_locate_error hroot] at h
        cases h
      | ok location =>
        have hsame : location = reached :=
          eq_append_of_walk (isEntryName_of_walk hstart hwalk) hroot
        rw [World.entry, hroot, hsame] at h
        rw [World.entry, hlocate]
        exact h

end World

section Load

open Session

variable {world : World}

/-- The document of a specification has too long an integer if reading it says so. -/
theorem Spec.read_eq_error {document : Text} {fault : Fault}
    (h : Spec.read document = .error fault) :
    (∃ error, fault = .spec error) ∨
      ∃ digits, fault = .longInteger digits ∧
        JsonValue.read document = .error (.longInteger digits) := by
  unfold Spec.read at h
  split at h
  · next failure _ =>
    cases h
    exact Or.inl ⟨_, rfl⟩
  · next digits hread =>
    cases h
    exact Or.inr ⟨digits, rfl, hread⟩
  · cases h
  · cases h
    exact Or.inl ⟨_, rfl⟩

/-- The file of a specification has too long an integer. -/
def World.HasLongInteger (world : World) (sort : Option Text) (digits : Nat) : Prop :=
  ∃ name document, sort = some name ∧ world.Holds (Path.ofText name) document ∧
    JsonValue.read document = .error (.longInteger digits)

/-- A file that has too long an integer makes loading a specification fail. -/
theorem loadSpecOrBuiltin_fails {sort : Option Text} {digits : Nat}
    (h : world.HasLongInteger sort digits) :
    (loadSpecOrBuiltin sort).Performs world (.error (.longInteger digits)) [] world := by
  obtain ⟨name, document, rfl, hholds, hread⟩ := h
  have htry : (tryLoadSpec (Path.ofText name)).Performs world (.error (.longInteger digits)) []
      world := by
    refine (Performs.readText hholds).bind ?_
    simp only [Spec.read, hread]
    exact ⟨rfl, rfl⟩
  exact htry.bind_error

/-- A specification that can be read from its file is loaded. -/
theorem loadSpecOrBuiltin_reads {name document : Text} {spec : Spec CodeText}
    (hholds : world.Holds (Path.ofText name) document) (hread : Spec.read document = .ok spec) :
    ∃ level message, (loadSpecOrBuiltin (some name)).Performs world (.ok spec) []
      (world.report (.logged level message)) := by
  have htry : (tryLoadSpec (Path.ofText name)).Performs world (.ok (.ok spec)) [] world := by
    refine (Performs.readText hholds).bind ?_
    simp only [hread]
    exact Performs.pure _ world
  exact ⟨_, _, htry.bind ((Performs.log ..).bind (Performs.pure spec _))⟩

/-- The built-in specification is loaded where the file holds none. -/
theorem loadSpecOrBuiltin_falls_back {name : Text} {error : SpecError}
    (htry : (tryLoadSpec (Path.ofText name)).Performs world (.ok (.error error)) [] world) :
    ∃ level message, (loadSpecOrBuiltin (some name)).Performs world
      (.ok (Spec.stored Spec.builtin)) [] (world.report (.logged level message)) :=
  ⟨_, _, htry.bind ((Performs.log ..).bind (Performs.pure _ _))⟩

/-- In a world of texts loading a specification logs one notice, unless its file has too long an
integer. -/
theorem loadSpecOrBuiltin_performs (hworld : world.Legible) {sort : Option Text}
    (hshort : ∀ digits, ¬ world.HasLongInteger sort digits) :
    ∃ spec level message, (loadSpecOrBuiltin sort).Performs world (.ok spec) []
      (world.report (.logged level message)) := by
  cases sort with
  | none => exact ⟨_, _, _, (Performs.log ..).bind (Performs.pure (Spec.stored Spec.builtin) _)⟩
  | some name =>
    cases hread : world.readBytes (Path.ofText name) with
    | error error =>
      exact ⟨_, loadSpecOrBuiltin_falls_back
        ((Performs.readText_unreachable hread).bind (Performs.pure _ world))⟩
    | ok bytes =>
      obtain ⟨stamp, hentry⟩ := World.readBytes_eq_ok_iff.mp hread
      obtain ⟨document, hholds⟩ := hworld.exists_holds hentry
      cases hspec : Spec.read document with
      | ok spec => exact ⟨spec, loadSpecOrBuiltin_reads hholds hspec⟩
      | error fault =>
        rcases Spec.read_eq_error hspec with ⟨error, rfl⟩ | ⟨digits, rfl, hlong⟩
        · have htry : (tryLoadSpec (Path.ofText name)).Performs world (.ok (.error error)) []
              world := by
            refine (Performs.readText hholds).bind ?_
            simp only [hspec]
            exact Performs.pure _ world
          exact ⟨_, loadSpecOrBuiltin_falls_back htry⟩
        · exact absurd ⟨name, document, rfl, hholds, hlong⟩ (hshort digits)

end Load

section Format

open Session

variable {style : Style CodeText} {texts : Text → Text} {world after : World} {file : Text}
  {files : List Text}

/-- The layout of a file, unless a label in it holds a half. -/
def fileLayout (style : Style CodeText) (texts : Text → Text) (file : Text) : Option Text :=
  style.lay (parse (texts file))

/-- The files whose texts are not laid out. -/
def strays (style : Style CodeText) (texts : Text → Text) (files : List Text) : List Text :=
  files.filter fun file => fileLayout style texts file != some (texts file)

/-- The writes that lay out these files; a layout that is no text leaves its file empty. -/
def layoutWrites (style : Style CodeText) (texts : Text → Text) (files : List Text) :
    List (Path × Text) :=
  (strays style texts files).map fun file =>
    (Path.ofText file, (fileLayout style texts file).getD [])

/-- The line that tells that a file would be laid out, or has been. -/
def layoutLine (check : Bool) (file : Text) : Text :=
  (if check then "Would reformat: ".toList else "Formatted: ".toList) ++ file

/-- The notice of a file that would be laid out, or has been. -/
def layoutNotice (check : Bool) (file : Text) : Notice := .printed (layoutLine check file)

/-- The strays of files in a row are those of the first files and then those of the others. -/
theorem strays_append (style : Style CodeText) (texts : Text → Text) (front back : List Text) :
    strays style texts (front ++ back) = strays style texts front ++ strays style texts back :=
  List.filter_append front back

/-- A file is alone not laid out if its layout is not what it holds. -/
theorem strays_singleton (h : fileLayout style texts file ≠ some (texts file)) :
    strays style texts [file] = [file] :=
  List.filter_eq_self.mpr fun other ho => by
    rw [List.mem_singleton.mp ho]
    exact bne_iff_ne.mpr h

/-- The writes that lay out files in a row are those for the first and then those for the others. -/
theorem layoutWrites_append (style : Style CodeText) (texts : Text → Text)
    (front back : List Text) :
    layoutWrites style texts (front ++ back) =
      layoutWrites style texts front ++ layoutWrites style texts back := by
  rw [layoutWrites, strays_append, List.map_append]
  rfl

/-- A file is laid out by writes to that file only. -/
theorem fst_of_mem_layoutWrites {write : Path × Text}
    (h : write ∈ layoutWrites style texts [file]) : write.1 = Path.ofText file := by
  obtain ⟨other, ho, rfl⟩ := List.mem_map.mp h
  rw [List.mem_singleton.mp (List.mem_filter.mp ho).1]

/-- The files hold these texts, and each stands at a place of its own. -/
structure World.HoldsApart (world : World) (texts : Text → Text) (files : List Text) : Prop where
  /-- Each file holds its text. -/
  holds : ∀ file ∈ files, world.Holds (Path.ofText file) (texts file)
  /-- No two of the paths lead to one place. -/
  apart : files.Pairwise fun a b => world.locate (Path.ofText a) ≠ world.locate (Path.ofText b)

/-- Where a file is written the other files stay as they are, and stay apart. -/
theorem World.HoldsApart.of_writeAll {rest : List Text} {writes : List (Path × Text)}
    (h : world.HoldsApart texts (file :: rest))
    (hwrote : world.muted.writeAll writes = .ok after.muted)
    (hwrites : ∀ write ∈ writes, write.1 = Path.ofText file) :
    after.HoldsApart texts rest := by
  obtain ⟨hother, hapart⟩ := List.pairwise_cons.mp h.apart
  have hrest : ∀ other ∈ rest, world.Holds (Path.ofText other) (texts other) :=
    fun other ho => h.holds other (List.mem_cons_of_mem _ ho)
  refine ⟨fun other ho => ?_, hapart.imp_of_mem fun ha hb hne => ?_⟩
  · exact World.holds_of_writeAll hwrote (fun write hw => hwrites write hw ▸ hother other ho)
      (hrest other ho)
  · rwa [World.locate_of_writeAll hwrote (hrest _ ha), World.locate_of_writeAll hwrote (hrest _ hb)]

/-- Checking a file writes nothing and formatting it writes its layout, if it is not laid out, and
both tell of it. -/
theorem formatOne_performs {check : Bool} (hfile : world.Holds (Path.ofText file) (texts file))
    (hlaid : check = true ∨ fileLayout style texts file ≠ none) :
    ∃ after, (formatOne style check file).Performs world
        (.ok (fileLayout style texts file != some (texts file)))
        (if check then [] else layoutWrites style texts [file]) after ∧
      after.journal = world.journal ++ (strays style texts [file]).map (layoutNotice check) := by
  by_cases hsame : fileLayout style texts file = some (texts file)
  · have hstrays : strays style texts [file] = [] := by simp [strays, hsame]
    refine ⟨world, ?_, by simp [hstrays]⟩
    rw [layoutWrites, hstrays, List.map_nil, ite_self, bne_eq_false_iff_eq.mpr hsame]
    refine (Performs.readText hfile).bind ?_
    dsimp only
    rw [show style.lay (parse (texts file)) = some (texts file) from hsame, if_pos (by simp)]
    exact Performs.pure false world
  · have hstrays := strays_singleton hsame
    rw [layoutWrites, hstrays, (bne_iff_ne.mpr hsame : (_ != _) = true)]
    have hdiffers : ¬ (style.lay (parse (texts file)) == some (texts file)) = true :=
      fun he => hsame (eq_of_beq he)
    cases check with
    | true =>
      refine ⟨world.report (layoutNotice true file), ?_, rfl⟩
      refine (Performs.readText hfile).bind ?_
      dsimp only
      rw [if_neg hdiffers, if_pos rfl]
      exact (Performs.print ..).bind (Performs.pure true _)
    | false =>
      obtain ⟨out, hout⟩ : ∃ out, fileLayout style texts file = some out :=
        Option.ne_none_iff_exists'.mp (hlaid.resolve_left Bool.false_ne_true)
      obtain ⟨next, hnext⟩ := hfile.writable.writeBytes (encodeText out)
      refine ⟨next.report (layoutNotice false file), ?_, ?_⟩
      · refine (Performs.readText hfile).bind ?_
        dsimp only
        rw [if_neg hdiffers, if_neg Bool.false_ne_true, hout,
          show style.lay (parse (texts file)) = some out from hout]
        exact (Performs.writeText hnext).bind ((Performs.print ..).bind (Performs.pure true _))
      · obtain ⟨_, -, -, -, rfl⟩ := World.writeBytes_eq_ok_iff.mp hnext
        rfl

/-- Formatting a file fails if its layout is no text. The file is left empty, and nothing is told
of it. -/
theorem formatOne_fails (hfile : world.Holds (Path.ofText file) (texts file))
    (hnone : fileLayout style texts file = none) :
    ∃ after, (formatOne style false file).Performs world (.error .unencodable)
        (layoutWrites style texts [file]) after ∧ after.journal = world.journal := by
  obtain ⟨next, hnext⟩ := hfile.writable.writeBytes (encodeText [])
  have hlay : style.lay (parse (texts file)) = none := hnone
  refine ⟨next, ?_, ?_⟩
  · rw [layoutWrites, strays_singleton (by simp [hnone]), List.map_singleton, hnone]
    refine (Performs.readText hfile).bind ?_
    simp only [hlay]
    exact ((Performs.writeText hnext).bind (Performs.throw _ _)).bind_error
  · obtain ⟨_, -, -, -, rfl⟩ := World.writeBytes_eq_ok_iff.mp hnext
    rfl

/-- Checking files writes nothing, and formatting them writes the layouts of those that are not laid
out, if all their layouts are texts; and both tell of these files. -/
theorem formatEach_performs {check : Bool} (hfiles : world.HoldsApart texts files)
    (hlaid : check = true ∨ ∀ file ∈ files, fileLayout style texts file ≠ none) :
    ∃ after, (formatEach style check files).Performs world
        (.ok (strays style texts files).length)
        (if check then [] else layoutWrites style texts files) after ∧
      after.journal = world.journal ++ (strays style texts files).map (layoutNotice check) := by
  induction files generalizing world with
  | nil =>
    refine ⟨world, ?_, by simp [strays]⟩
    rw [layoutWrites, strays, List.filter_nil, List.map_nil, ite_self]
    exact Performs.pure 0 world
  | cons file rest ih =>
    obtain ⟨mid, hone, hmid⟩ := formatOne_performs (hfiles.holds file List.mem_cons_self)
      (hlaid.imp_right fun h => h file List.mem_cons_self)
    -- The other paths lead elsewhere, so their files are as they were when their turn comes.
    have hrest := hfiles.of_writeAll hone.wrote fun write hw => by
      split at hw
      · cases hw
      · exact fst_of_mem_layoutWrites hw
    obtain ⟨after, hlater, hafter⟩ :=
      ih hrest (hlaid.imp_right fun h other ho => h other (List.mem_cons_of_mem _ ho))
    have hstrays := strays_append style texts [file] rest
    have hlayouts : (if check then [] else layoutWrites style texts (file :: rest)) =
        (if check then [] else layoutWrites style texts [file]) ++
          (if check then [] else layoutWrites style texts rest) := by
      cases check with
      | true => rfl
      | false => exact layoutWrites_append style texts [file] rest
    rw [List.singleton_append] at hstrays
    refine ⟨after, ?_, ?_⟩
    · have hcount : (strays style texts [file]).length =
          if fileLayout style texts file != some (texts file) then 1 else 0 := by
        unfold strays
        rw [List.filter_cons]
        split <;> rfl
      rw [hlayouts, hstrays, List.length_append, hcount]
      exact hone.bind (hlater.map _)
    · rw [hafter, hmid, hstrays, List.map_append, List.append_assoc]

/-- Formatting files stops at the first one whose layout is no text. The files before it have been
laid out and told, and it is left empty. -/
theorem formatEach_stops {front rest : List Text}
    (hfiles : world.HoldsApart texts (front ++ file :: rest))
    (hlaid : ∀ other ∈ front, fileLayout style texts other ≠ none)
    (hnone : fileLayout style texts file = none) :
    ∃ after, (formatEach style false (front ++ file :: rest)).Performs world
        (.error .unencodable) (layoutWrites style texts (front ++ [file])) after ∧
      after.journal = world.journal ++ (strays style texts front).map (layoutNotice false) := by
  induction front generalizing world with
  | nil =>
    obtain ⟨after, hone, hafter⟩ := formatOne_fails (hfiles.holds file List.mem_cons_self) hnone
    exact ⟨after, hone.bind_error, by simp [hafter, strays]⟩
  | cons first front ih =>
    obtain ⟨mid, hone, hmid⟩ := @formatOne_performs style texts world first false
      (hfiles.holds first List.mem_cons_self) (Or.inr (hlaid first List.mem_cons_self))
    rw [if_neg Bool.false_ne_true] at hone
    obtain ⟨after, hlater, hafter⟩ := ih (hfiles.of_writeAll hone.wrote fun _ hw =>
      fst_of_mem_layoutWrites hw) fun other ho => hlaid other (List.mem_cons_of_mem _ ho)
    refine ⟨after, ?_, ?_⟩
    · rw [List.cons_append, List.cons_append, ← List.singleton_append (l := front ++ [file]),
        layoutWrites_append]
      exact hone.bind hlater.bind_error
    · have hstrays := strays_append style texts [first] front
      rw [List.singleton_append] at hstrays
      rw [hafter, hmid, hstrays, List.map_append, List.append_assoc]

/-- The line that tells how many files would be laid out, if any. -/
def layoutSummary (check : Bool) (names : List Text) : List Notice :=
  if check ∧ names ≠ [] then
    [.warned (Text.ofNat names.length ++ " file(s) would be reformatted".toList)]
  else []

/-- The command loads the specification and comes to the files. It fails if it is a check and some
file is not laid out. -/
theorem runFormat_performs {sort : Option Text} {check headers : Bool} {spec : Spec CodeText}
    {mid : World} {names : List Text} {writes : List (Path × Text)}
    (hload : (loadSpecOrBuiltin sort).Performs world (.ok spec) [] mid)
    (heach : (formatEach ⟨spec, headers⟩ check files).Performs mid (.ok names.length) writes
      after) :
    ∃ last, (runFormat files sort check headers).Performs world
        (.ok (if check ∧ names ≠ [] then 1 else 0)) writes last ∧
      last.journal = after.journal ++ layoutSummary check names := by
  have hfails : (check && names.length != 0) = true ↔ check = true ∧ names ≠ [] := by simp
  have hwrites : writes = [] ++ (writes ++ []) := by simp
  by_cases hstray : check = true ∧ names ≠ []
  · rw [layoutSummary, if_pos hstray, if_pos hstray, hwrites]
    refine ⟨after.report (.warned _), hload.bind (heach.bind ?_), rfl⟩
    rw [if_pos (hfails.mpr hstray)]
    exact ⟨rfl, rfl⟩
  · rw [layoutSummary, if_neg hstray, if_neg hstray, List.append_nil, hwrites]
    refine ⟨after, hload.bind (heach.bind ?_), rfl⟩
    rw [if_neg fun h => hstray (hfails.mp h)]
    exact Performs.pure 0 after

/-- The names are those of files, as they are typed, and each leads to a place of its own. -/
structure World.DistinctFiles (world : World) (files : List Text) : Prop where
  /-- A file stands where each name leads. -/
  typed : ∀ file ∈ files, ∃ bytes stamp, world.typedEntry file = .ok (.file bytes stamp)
  /-- No two of the names lead to one place. -/
  apart : files.Pairwise fun a b => world.locate (Path.ofText a) ≠ world.locate (Path.ofText b)

/-- How a request to format files, or to check them, ends in a world. -/
def answerFormat (files : List Text) (sort : Option Text) (check headers : Bool)
    (pauses : List Pause) (world : World) : Except Fault Nat × World :=
  ((Request.format files sort check headers).run pauses).exec world.muted

/-- A request to format files ends as formatting them does. -/
theorem answer_of_performs {sort : Option Text} {check headers : Bool} {outcome : Except Fault Nat}
    {writes : List (Path × Text)} (hfiles : world.DistinctFiles files)
    (h : (runFormat files sort check headers).Performs world.muted outcome writes after)
    (pauses : List Pause) :
    answerFormat files sort check headers pauses world = (outcome, after) := by
  have hall : files.all (isFormattable world.muted) = true := by
    rw [List.all_eq_true]
    intro file hf
    obtain ⟨bytes, stamp, hentry⟩ := hfiles.typed file hf
    have hmuted : world.muted.typedEntry file = .ok (.file bytes stamp) := hentry
    rw [isFormattable, hmuted]
    rfl
  rw [answerFormat, Request.run, exec_bind (exec_look _ world.muted), if_pos hall, h.ends]

end Format

end StyleModules
