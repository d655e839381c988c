import StyleModules.Proofs.Files.Change

/-!
# The writes that an operation makes

An operation performs a list of writes if its world afterwards is the one before with these texts
written to these files, one after the other, and only reports added (`Session.Performs`). What a
list of writes changes is known from the list: it keeps the directories and all places to which none
of its paths leads, and a file holds what was written to it last (`World.WroteAll`,
`World.readBytes_writeAll`).
-/

namespace StyleModules

/-- The line that a notice prints. -/
def Notice.printed? : Notice → Option Text
  | printed line => some line
  | _ => none

namespace World

variable {world after : World} {path other : Path} {location : Location} {bytes : ByteArray}

/-- The world without its journal. -/
def muted (world : World) : World := { world with journal := [] }

/-- The lines that have been printed. -/
def printedLines (world : World) : List Text := world.journal.filterMap Notice.printed?

/-- The journal is no part of the store. -/
theorem store_eq_of_muted_eq (h : after.muted = world.muted) : after.store = world.store :=
  (World.mk.inj h).1

/-- The journal does not move the working directory. -/
theorem here_eq_of_muted_eq (h : after.muted = world.muted) : after.here = world.here :=
  (World.mk.inj h).2.1

/-- Files are read alike, whatever has been reported. -/
theorem readBytes_congr (h : after.muted = world.muted) (path : Path) :
    after.readBytes path = world.readBytes path := by
  have hmuted : after.muted.readBytes path = world.muted.readBytes path := by rw [h]
  exact hmuted

/-- Files hold the same texts, whatever has been reported. -/
theorem holds_congr {t : Text} (h : after.muted = world.muted) :
    after.Holds path t ↔ world.Holds path t := by
  rw [Holds, Holds, readBytes_congr h]

/-- The bytes of a held text are decoded to it. -/
theorem Holds.decode {t : Text} (h : world.Holds path t) (hread : world.readBytes path = .ok bytes) :
    decodeText? bytes = some t := by
  obtain ⟨found, hfound, hdecode⟩ := h
  obtain rfl := Except.ok.inj (hfound.symm.trans hread)
  exact hdecode

/-- A file holds one text. -/
theorem Holds.eq {t u : Text} (h : world.Holds path t) (h' : world.Holds path u) : t = u := by
  obtain ⟨bytes, hread, hdecode⟩ := h'
  exact Option.some.inj ((h.decode hread).symm.trans hdecode)

/-- The world after texts have been written to files, in order. -/
def writeAll (world : World) : List (Path × Text) → Except AccessError World
  | [] => .ok world
  | (path, t) :: writes =>
    match world.writeBytes path (encodeText t) with
    | .error error => .error error
    | .ok next => next.writeAll writes

/-- Texts are written one after the other. -/
theorem writeAll_cons {t : Text} {next : World}
    (h : world.writeBytes path (encodeText t) = .ok next) (writes : List (Path × Text)) :
    world.writeAll ((path, t) :: writes) = next.writeAll writes := by
  rw [writeAll, h]

/-- The first of several writes has been made before the others. -/
theorem exists_of_writeAll_cons {t : Text} {writes : List (Path × Text)}
    (h : world.writeAll ((path, t) :: writes) = .ok after) :
    ∃ next, world.writeBytes path (encodeText t) = .ok next ∧ next.writeAll writes = .ok after := by
  rw [writeAll] at h
  split at h
  · cases h
  · next next hnext => exact ⟨next, hnext, h⟩

/-- Writes in a row are made one after the other. -/
theorem writeAll_append {next : World} {writes : List (Path × Text)}
    (h : world.writeAll writes = .ok next) (more : List (Path × Text)) :
    world.writeAll (writes ++ more) = next.writeAll more := by
  induction writes generalizing world with
  | nil =>
    obtain rfl := Except.ok.inj h
    rfl
  | cons write writes ih =>
    obtain ⟨path, t⟩ := write
    obtain ⟨first, hfirst, hrest⟩ := exists_of_writeAll_cons h
    rw [List.cons_append, writeAll_cons hfirst, ih hrest]

/-- Writing does not depend on what has been reported. -/
theorem writeBytes_muted (h : world.writeBytes path bytes = .ok after) :
    world.muted.writeBytes path bytes = .ok after.muted := by
  obtain ⟨location, hl, hd, hn, rfl⟩ := writeBytes_eq_ok_iff.mp h
  exact writeBytes_eq_ok_iff.mpr ⟨location, hl, hd, hn, rfl⟩

/-- What a list of writes leaves as it was: the working directory, the directories, and what is
seen where none of its paths leads. -/
structure WroteAll (world : World) (writes : List (Path × Text)) (after : World) : Prop where
  here : after.here = world.here
  directories : world.store.SameDirectories after.store
  seen : ∀ place, (∀ write ∈ writes, world.locate write.1 ≠ .ok place) →
    after.store.seen place = world.store.seen place

/-- What a list of writes changes is told by the list. -/
theorem wroteAll_of_writeAll {writes : List (Path × Text)} (h : world.writeAll writes = .ok after) :
    world.WroteAll writes after := by
  induction writes generalizing world with
  | nil =>
    obtain rfl := Except.ok.inj h
    exact ⟨rfl, fun _ => rfl, fun _ _ => rfl⟩
  | cons write writes ih =>
    obtain ⟨path, t⟩ := write
    obtain ⟨next, hnext, hrest⟩ := exists_of_writeAll_cons h
    obtain ⟨location, hl, -⟩ := writeBytes_eq_ok_iff.mp hnext
    have hwrote := wrote_of_writeBytes hnext hl
    have hlater := ih hrest
    refine ⟨hlater.here.trans hwrote.here, hwrote.directories.trans hlater.directories,
      fun place hplace => ?_⟩
    have hne : place ≠ location := by
      rintro rfl
      exact hplace _ List.mem_cons_self hl
    rw [hlater.seen place fun write hw => ?_, hwrote.seen, if_neg hne]
    rw [ne_eq, locate_eq_ok_congr hwrote.here hwrote.directories]
    exact hplace write (List.mem_cons_of_mem _ hw)

/-- A file holds what was written to it last. -/
theorem readBytes_writeAll {writes more : List (Path × Text)} {t : Text}
    (h : world.writeAll (writes ++ (path, t) :: more) = .ok after)
    (hl : world.locate path = .ok location)
    (hmore : ∀ write ∈ more, world.locate write.1 ≠ .ok location) :
    after.readBytes path = .ok (encodeText t) := by
  induction writes generalizing world with
  | nil =>
    obtain ⟨next, hnext, hrest⟩ := exists_of_writeAll_cons h
    have hwrote := wrote_of_writeBytes hnext hl
    have hlater := wroteAll_of_writeAll hrest
    have hnextl := (locate_eq_ok_congr hwrote.here hwrote.directories path).mpr hl
    have hafterl := (locate_eq_ok_congr hlater.here hlater.directories path).mpr hnextl
    rw [readBytes_of_locate hafterl, hlater.seen location fun write hw => ?_, hwrote.seen,
      if_pos rfl]
    · rfl
    · rw [ne_eq, locate_eq_ok_congr hwrote.here hwrote.directories]
      exact hmore write hw
  | cons write writes ih =>
    obtain ⟨first, text⟩ := write
    obtain ⟨next, hnext, hrest⟩ := exists_of_writeAll_cons h
    obtain ⟨place, hplace, -⟩ := writeBytes_eq_ok_iff.mp hnext
    have hwrote := wrote_of_writeBytes hnext hplace
    refine ih hrest ((locate_eq_ok_congr hwrote.here hwrote.directories path).mpr hl)
      fun write hw => ?_
    rw [ne_eq, locate_eq_ok_congr hwrote.here hwrote.directories]
    exact hmore write hw

/-- Of the texts written to a file it holds one. -/
theorem exists_readBytes_of_mem {writes : List (Path × Text)}
    (h : world.writeAll writes = .ok after) (hl : world.locate path = .ok location)
    (hpath : ∀ write ∈ writes, world.locate write.1 = .ok location → write.1 = path) {t : Text}
    (ht : (path, t) ∈ writes) :
    ∃ u, (path, u) ∈ writes ∧ after.readBytes path = .ok (encodeText u) := by
  induction writes generalizing world t with
  | nil => cases ht
  | cons write writes ih =>
    obtain ⟨first, text⟩ := write
    by_cases hlater : ∃ u, (path, u) ∈ writes
    · obtain ⟨u, hu⟩ := hlater
      obtain ⟨next, hnext, hrest⟩ := exists_of_writeAll_cons h
      obtain ⟨place, hplace, -⟩ := writeBytes_eq_ok_iff.mp hnext
      have hwrote := wrote_of_writeBytes hnext hplace
      have hcongr := @locate_eq_ok_congr world next location hwrote.here hwrote.directories
      obtain ⟨last, hlast, hread⟩ := ih hrest ((hcongr path).mpr hl)
        (fun write hw hle => hpath write (List.mem_cons_of_mem _ hw) ((hcongr write.1).mp hle))
        hu
      exact ⟨last, List.mem_cons_of_mem _ hlast, hread⟩
    · rcases List.mem_cons.mp ht with he | ht
      · obtain ⟨rfl, rfl⟩ := Prod.mk.inj he
        refine ⟨t, List.mem_cons_self, @readBytes_writeAll _ _ _ _ [] writes t h hl ?_⟩
        intro write hw hle
        obtain ⟨target, u⟩ := write
        have htarget : target = path := hpath _ (List.mem_cons_of_mem _ hw) hle
        exact hlater ⟨u, htarget ▸ hw⟩
      · exact absurd ⟨t, ht⟩ hlater

/-- Texts that a file did not hold change it: it has other bytes exactly if something was written
to it. -/
theorem readBytes_ne_iff {writes : List (Path × Text)}
    (h : world.writeAll writes = .ok after) (hl : world.locate path = .ok location)
    (hpath : ∀ write ∈ writes, world.locate write.1 = .ok location → write.1 = path)
    (hnew : ∀ t, (path, t) ∈ writes → '\r' ∉ t ∧ ¬ world.Holds path t) :
    after.readBytes path ≠ world.readBytes path ↔ ∃ t, (path, t) ∈ writes := by
  constructor
  · intro hne
    have hwrote := wroteAll_of_writeAll h
    have hafter := (locate_eq_ok_congr hwrote.here hwrote.directories path).mpr hl
    refine Classical.byContradiction fun hnone => hne ?_
    rw [readBytes_of_locate hafter, readBytes_of_locate hl, hwrote.seen]
    intro write hw hle
    obtain ⟨target, t⟩ := write
    have htarget : target = path := hpath _ hw hle
    exact hnone ⟨t, htarget ▸ hw⟩
  · rintro ⟨t, ht⟩ he
    obtain ⟨u, hu, hread⟩ := exists_readBytes_of_mem h hl hpath ht
    obtain ⟨hreturn, hholds⟩ := hnew u hu
    refine hholds ⟨encodeText u, he ▸ hread, ?_⟩
    rw [decodeText?_encodeText, universalNewlines_of_no_return hreturn]

/-- A path that leads to the place of a write reads what was written. -/
theorem readBytes_writeBytes_same {u : Text}
    (h : world.writeBytes path (encodeText u) = .ok after)
    (hl : world.locate path = .ok location) (hother : world.locate other = .ok location) :
    after.readBytes other = .ok (encodeText u) := by
  have hwrote := wrote_of_writeBytes h hl
  have hafter := (locate_eq_ok_congr hwrote.here hwrote.directories other).mpr hother
  rw [readBytes_of_locate hafter, hwrote.seen, if_pos rfl]
  rfl

/-- A path that does not lead to the place of a write reads what it read before. -/
theorem readBytes_writeBytes_other (h : world.writeBytes path bytes = .ok after)
    (hl : world.locate path = .ok location) (hother : world.locate other ≠ .ok location)
    {content : ByteArray} :
    after.readBytes other = .ok content ↔ world.readBytes other = .ok content := by
  have hwrote := wrote_of_writeBytes h hl
  have hcongr := fun place => @locate_eq_ok_congr world after place hwrote.here hwrote.directories
    other
  have hsame : ∀ place, world.locate other = .ok place →
      after.readBytes other = world.readBytes other := by
    intro place hplace
    have hne : place ≠ location := by
      rintro rfl
      exact hother hplace
    rw [readBytes_of_locate ((hcongr place).mpr hplace), readBytes_of_locate hplace, hwrote.seen,
      if_neg hne]
  constructor
  · intro hread
    obtain ⟨place, _, hplace, _⟩ := exists_of_readBytes hread
    rwa [← hsame place ((hcongr place).mp hplace)]
  · intro hread
    obtain ⟨place, _, hplace, _⟩ := exists_of_readBytes hread
    rwa [hsame place hplace]

/-- What can be written stays so after a write. -/
theorem Writable.of_writeBytes (h : world.Writable other)
    (hwrite : world.writeBytes path bytes = .ok after) : after.Writable other := by
  obtain ⟨location, hl, hd, hn⟩ := h
  obtain ⟨place, hplace, -⟩ := writeBytes_eq_ok_iff.mp hwrite
  have hwrote := wrote_of_writeBytes hwrite hplace
  refine ⟨location, (locate_eq_ok_congr hwrote.here hwrote.directories other).mpr hl,
    (hwrote.directories location).trans hd, ?_⟩
  rw [ne_eq, ← Store.seen_eq_dangling_iff, hwrote.seen]
  split
  · simp
  · rwa [Store.seen_eq_dangling_iff]

/-- Where a text is held another can be written. -/
theorem Holds.writable {t : Text} (h : world.Holds path t) : world.Writable path := by
  obtain ⟨bytes, hb, _⟩ := h
  obtain ⟨location, stamp, hl, hf⟩ := exists_of_readBytes hb
  refine ⟨location, hl, ?_, ?_⟩
  · rw [Store.hasDirectory, hf]
    rfl
  · rw [hf]
    simp

section Entries

variable {stamp : Nat} {writes : List (Path × Text)} {t : Text}

/-- The bytes at a path are those of the file that stands there. -/
theorem readBytes_eq_ok_iff :
    world.readBytes path = .ok bytes ↔ ∃ stamp, world.entry path = .ok (.file bytes stamp) := by
  unfold readBytes
  cases world.entry path with
  | error error => simp
  | ok entry => cases entry <;> simp

/-- A file of a text holds it, with its line ends read as line feeds. -/
theorem Holds.of_entry {t : Text} {stamp : Nat}
    (h : world.entry path = .ok (.file (encodeText t) stamp)) :
    world.Holds path (universalNewlines t) :=
  ⟨_, readBytes_eq_ok_iff.mpr ⟨stamp, h⟩, decodeText?_encodeText t⟩

/-- A path is that of a file if one stands there. -/
theorem isFile_iff :
    world.isFile path = true ↔ ∃ bytes stamp, world.entry path = .ok (.file bytes stamp) := by
  unfold isFile
  cases world.entry path with
  | error error => simp
  | ok entry => cases entry <;> simp [Entry.isFile]

/-- The file that stands at a path is seen at the place to which the path leads. -/
theorem entry_eq_file_iff :
    world.entry path = .ok (.file bytes stamp) ↔ ∃ location, world.locate path = .ok location ∧
      world.store.seen location = some (.file bytes stamp) := by
  cases hl : world.locate path with
  | error error => simp [entry_of_locate_error hl]
  | ok location =>
    simp only [entry, hl, Except.ok.injEq, exists_eq_left', Store.seen_eq_file_iff]
    cases world.store.find? location with
    | none => simp
    | some entry => cases entry <;> simp

/-- A file stands as it stood where none of the writes leads to it. -/
theorem WroteAll.entry_eq_file (h : world.WroteAll writes after)
    (hentry : world.entry path = .ok (.file bytes stamp))
    (hpath : ∀ write ∈ writes, world.locate write.1 ≠ world.locate path) :
    after.entry path = .ok (.file bytes stamp) := by
  obtain ⟨location, hl, hseen⟩ := entry_eq_file_iff.mp hentry
  refine entry_eq_file_iff.mpr
    ⟨location, (locate_eq_ok_congr h.here h.directories path).mpr hl, ?_⟩
  rwa [h.seen location fun write hw he => hpath write hw (he.trans hl.symm)]

/-- What a file holds stays where other files are written. -/
theorem holds_of_writeAll (hwrote : world.muted.writeAll writes = .ok after.muted)
    (hpath : ∀ write ∈ writes, world.locate write.1 ≠ world.locate path) (h : world.Holds path t) :
    after.Holds path t := by
  obtain ⟨bytes, hread, hdecode⟩ := h
  obtain ⟨stamp, hentry⟩ := readBytes_eq_ok_iff.mp hread
  have hafter := (wroteAll_of_writeAll hwrote).entry_eq_file hentry hpath
  exact ⟨bytes, readBytes_eq_ok_iff.mpr ⟨stamp, hafter⟩, hdecode⟩

/-- A path that leads to a file leads to the same place after writes. -/
theorem locate_of_writeAll (hwrote : world.muted.writeAll writes = .ok after.muted)
    (h : world.Holds path t) : after.locate path = world.locate path := by
  obtain ⟨bytes, hread, -⟩ := h
  obtain ⟨location, -, hl, -⟩ := exists_of_readBytes hread
  have hall := wroteAll_of_writeAll hwrote
  rw [hl]
  exact (locate_eq_ok_congr hall.here hall.directories path).mpr hl

end Entries

end World

namespace Session

variable {α β : Type} {world mid after : World}

/-- From the world the operation ends with the value or fault, in a world in which it has made these
writes and no other change, reports apart. -/
structure Performs (action : Session α) (world : World) (outcome : Except Fault α)
    (writes : List (Path × Text)) (after : World) : Prop where
  ends : action.exec world = (outcome, after)
  wrote : world.muted.writeAll writes = .ok after.muted

/-- An operation that ends with a fault ends what was to follow. -/
theorem exec_bind_error {action : Session α} {fault : Fault}
    (h : action.exec world = (.error fault, after)) (next : α → Session β) :
    (action >>= next).exec world = (.error fault, after) := by
  unfold exec at h ⊢
  rw [ExceptT.run_bind, StateT.run_bind, h]
  rfl

/-- What is made of a value in the end leaves the rest as it is. -/
theorem exec_bind_pure (action : Session α) (f : α → β) (world : World) :
    (action >>= fun value => pure (f value)).exec world =
      ((action.exec world).1.map f, (action.exec world).2) := by
  cases h : action.exec world with
  | mk outcome after =>
    cases outcome with
    | ok value => exact exec_bind h _
    | error fault => exact exec_bind_error h _

namespace Performs

/-- Without writes all files stay as they are. -/
theorem muted_eq {action : Session α} {outcome : Except Fault α}
    (h : action.Performs world outcome [] after) : after.muted = world.muted :=
  (Except.ok.inj h.wrote).symm

/-- What two operations write in a row is written in that order. -/
theorem bind {action : Session α} {value : α} {writes more : List (Path × Text)}
    {next : α → Session β} {outcome : Except Fault β}
    (h : action.Performs world (.ok value) writes mid)
    (hnext : (next value).Performs mid outcome more after) :
    (action >>= next).Performs world outcome (writes ++ more) after where
  ends := (exec_bind h.ends next).trans hnext.ends
  wrote := (World.writeAll_append h.wrote more).trans hnext.wrote

/-- After a fault nothing more is written. -/
theorem bind_error {action : Session α} {fault : Fault} {writes : List (Path × Text)}
    {next : α → Session β} (h : action.Performs world (.error fault) writes after) :
    (action >>= next).Performs world (.error fault) writes after where
  ends := exec_bind_error h.ends next
  wrote := h.wrote

/-- A choice of operations goes on as the chosen one. -/
theorem ite_bind {condition : Prop} [Decidable condition] {first second : Session α} {value : α}
    {writes more : List (Path × Text)} {next : α → Session β} {outcome : Except Fault β}
    (h : (if condition then first else second).Performs world (.ok value) writes mid)
    (hnext : (next value).Performs mid outcome more after) :
    (if condition then first >>= next else second >>= next).Performs world outcome
      (writes ++ more) after := by
  rw [← apply_ite (· >>= next)]
  exact h.bind hnext

/-- A value is given without a write. -/
theorem pure (value : α) (world : World) :
    (Pure.pure value : Session α).Performs world (.ok value) [] world := ⟨rfl, rfl⟩

/-- A value is changed without a write. -/
theorem map {action : Session α} {value : α} {writes : List (Path × Text)}
    (h : action.Performs world (.ok value) writes after) (f : α → β) :
    (action >>= fun a => Pure.pure (f a)).Performs world (.ok (f value)) writes after where
  ends := exec_bind h.ends _
  wrote := h.wrote

/-- A fault changes nothing. -/
theorem throw (fault : Fault) (world : World) :
    (MonadExcept.throw fault : Session α).Performs world (.error fault) [] world := ⟨rfl, rfl⟩

/-- Looking at the world writes nothing. -/
theorem look (view : World → α) (world : World) :
    (Session.look view).Performs world (.ok (view world)) [] world := ⟨rfl, rfl⟩

/-- A record of the log is added to the journal. -/
theorem log (level : Level) (message : Text) (world : World) :
    (Session.log level message).Performs world (.ok ()) []
      (world.report (.logged level message)) := ⟨rfl, rfl⟩

/-- A line of output is added to the journal. -/
theorem print (line : Text) (world : World) :
    (Session.print line).Performs world (.ok ()) [] (world.report (.printed line)) := ⟨rfl, rfl⟩

/-- A result that is a value is given as it is. -/
theorem lift_ok {result : Except Fault α} {value : α} (h : result = .ok value) (world : World) :
    (liftM result : Session α).Performs world (.ok value) [] world := by
  subst h
  exact ⟨rfl, rfl⟩

/-- A held text is read. -/
theorem readText {path : Path} {t : Text} (h : world.Holds path t) :
    (Session.readText path).Performs world (.ok (.ok t)) [] world := ⟨exec_readText h, rfl⟩

/-- An access error is reported as a value. -/
theorem readText_unreachable {path : Path} {error : AccessError}
    (h : world.readBytes path = .error error) :
    (Session.readText path).Performs world (.ok (.error error)) [] world := by
  refine ⟨?_, rfl⟩
  rw [Session.readText, exec_bind (exec_look _ world), h]
  rfl

/-- Bytes that are no text end reading with a fault. -/
theorem readText_undecodable {path : Path} {bytes : ByteArray} (h : world.readBytes path = .ok bytes)
    (hd : decodeText? bytes = none) :
    (Session.readText path).Performs world (.error .undecodable) [] world := by
  refine ⟨?_, rfl⟩
  rw [Session.readText, exec_bind (exec_look _ world), h]
  simp only [hd]
  rfl

/-- Writing a text is its one write. -/
theorem writeText {path : Path} {t : Text}
    (h : world.writeBytes path (encodeText t) = .ok after) :
    (Session.writeText path t).Performs world (.ok ()) [(path, t)] after where
  ends := exec_writeText h
  wrote := World.writeAll_cons (World.writeBytes_muted h) []

end Performs

end Session

end StyleModules
