import StyleModules.Project.Runner
import StyleModules.Proofs.Files.Clock

/-!
# Files told as written have new stamps

While a file is handled the clock never goes back, and every path told as written has a stamp that
was not in use before, unless nothing was there and a stylesheet has been moved there with its old
stamp (`Runner.handle_restamps`). This holds in every world, also with links and with directories
that are named like files.
-/

namespace StyleModules

namespace World

variable {world after : World} {path : Path} {told more : List Path} {floor : Nat}

/-- The clock has passed the floor, and the paths told show stamps from there on. -/
structure Restamped (floor : Nat) (told : List Path) (world : World) : Prop where
  dated : world.Dated floor
  fresh : ∀ path ∈ told, ∀ stamp, world.stamp? path = some stamp → floor ≤ stamp

/-- Fewer files may be told. -/
theorem Restamped.mono (h : world.Restamped floor told) (hsub : ∀ path ∈ more, path ∈ told) :
    world.Restamped floor more := ⟨h.dated, fun path hp => h.fresh path (hsub path hp)⟩

/-- A report changes no stamp. -/
theorem Restamped.report (h : world.Restamped floor told) (notice : Notice) :
    (world.report notice).Restamped floor told := ⟨h.dated, h.fresh⟩

/-- A file that is written is told from then on. -/
theorem Restamped.writeBytes (h : world.Restamped floor told) {bytes : ByteArray}
    (hw : world.writeBytes path bytes = .ok after) : after.Restamped floor (path :: told) where
  dated := h.dated.writeBytes hw
  fresh other ho stamp hs := by
    rcases List.mem_cons.mp ho with rfl | ho
    · obtain rfl : world.store.clock = stamp := Option.some.inj ((stamp?_writeBytes hw).symm.trans hs)
      exact h.dated.floor_le
    · rcases stamp?_of_writeBytes hw hs with hold | hnew
      · exact h.fresh other ho stamp hold
      · exact Nat.le_trans h.dated.floor_le hnew

/-- What does not exist has no stamp. -/
theorem stamp?_eq_none_of_missing (h : world.pathExists path = false) : world.stamp? path = none := by
  unfold pathExists at h
  unfold stamp?
  split at h
  · cases h
  · rfl

end World

namespace Session

variable {α β : Type} {before : World → Prop} {action : Session α}

/-- If the operation starts in a world with the property and ends with a value, then value and world
are as said. -/
structure Ensures (before : World → Prop) (action : Session α) (result : α → World → Prop) :
    Prop where
  holds : ∀ world value after, before world → action.exec world = (.ok value, after) →
    result value after

namespace Ensures

variable {result more : α → World → Prop}

/-- A value is given in the world as it is. -/
theorem pure (value : α) (h : ∀ world, before world → result value world) :
    Ensures before (Pure.pure value) result where
  holds := by
    rintro world _ _ hbefore ⟨⟩
    exact h world hbefore

/-- What the first operation ensures, the next starts from. -/
theorem bind {goal : β → World → Prop} {next : α → Session β} (h : Ensures before action result)
    (hnext : ∀ value, Ensures (result value) (next value) goal) :
    Ensures before (action >>= next) goal where
  holds world value after hbefore hexec := by
    obtain ⟨outcome, last, haction⟩ : ∃ outcome last, action.exec world = (outcome, last) :=
      ⟨_, _, rfl⟩
    cases outcome with
    | error fault =>
      rw [exec_bind_error haction] at hexec
      cases hexec
    | ok found =>
      rw [exec_bind haction] at hexec
      exact (hnext found).holds last value after (h.holds world found last hbefore haction) hexec

/-- A choice of operations goes on as the chosen one. -/
theorem ite_bind {goal : β → World → Prop} {condition : Prop} [Decidable condition]
    {other : Session α} {next : α → Session β}
    (h : Ensures before (if condition then action else other) result)
    (hnext : ∀ value, Ensures (result value) (next value) goal) :
    Ensures before (if condition then action >>= next else other >>= next) goal := by
  rw [← apply_ite (· >>= next)]
  exact h.bind hnext

/-- An operation ensures less as well. -/
theorem mono (h : Ensures before action result)
    (hmore : ∀ value after, result value after → more value after) :
    Ensures before action more :=
  ⟨fun world value after hbefore hexec => hmore value after (h.holds world value after hbefore hexec)⟩

/-- An operation may start from more. -/
theorem of_imp {start : World → Prop} (h : Ensures before action result)
    (himp : ∀ world, start world → before world) : Ensures start action result :=
  ⟨fun world value after hstart => h.holds world value after (himp world hstart)⟩

/-- What has nothing to do with the world stays true. -/
theorem frame (h : Ensures before action result) (fact : Prop) :
    Ensures (fun world => before world ∧ fact) action fun value world =>
      result value world ∧ fact :=
  ⟨fun world value after hbefore hexec =>
    ⟨h.holds world value after hbefore.1 hexec, hbefore.2⟩⟩

/-- An operation that leaves the world as it is keeps what is true of it. -/
theorem of_still (h : ∀ world, (action.exec world).2 = world) :
    Ensures before action fun _ => before where
  holds world value after hbefore hexec := by
    have hstill : after = world := by rw [← h world, hexec]
    rwa [hstill]

/-- Looking at the world gives what is seen there. -/
theorem look (view : World → α) :
    Ensures before (Session.look view) fun value world => before world ∧ value = view world where
  holds := by
    rintro world _ _ hbefore ⟨⟩
    exact ⟨hbefore, rfl⟩

/-- Reading a text changes nothing. -/
theorem readText (path : Path) : Ensures before (Session.readText path) fun _ => before := by
  refine of_still fun world => ?_
  rw [Session.readText, exec_bind (exec_look _ world)]
  split
  · rfl
  · split
    · rfl
    · rfl

/-- Passing a result on changes nothing. -/
theorem lift (outcome : Except Fault α) :
    Ensures before (liftM outcome : Session α) fun _ => before := by
  refine of_still fun world => ?_
  cases outcome <;> rfl

/-- A record of the log changes nothing but the journal. -/
theorem log (level : Level) (message : Text)
    (h : ∀ world notice, before world → before (world.report notice)) :
    Ensures before (Session.log level message) fun _ => before where
  holds := by
    rintro world _ _ hbefore ⟨⟩
    exact h world _ hbefore

/-- A change gives the changed world. -/
theorem change {act : World → Except AccessError World} (path : Path) :
    Ensures before (Session.change path act) fun _ after =>
      ∃ world, before world ∧ act world = .ok after where
  holds world value after hbefore hexec := by
    have hget : (get : Session World).exec world = (.ok world, world) := rfl
    rw [Session.change, exec_bind hget] at hexec
    split at hexec
    · cases hexec
    · next next hnext =>
      cases hexec
      exact ⟨world, hbefore, hnext⟩

end Ensures

end Session

section Operations

open Session

variable {floor : Nat} {told : List Path} {path sheet : Path}

/-- A record of the log changes no stamp. -/
theorem log_ensures (level : Level) (message : Text) :
    Ensures (·.Restamped floor told) (log level message) fun _ => (·.Restamped floor told) :=
  Ensures.log level message fun _ notice h => h.report notice

/-- A written text has a fresh stamp. -/
theorem writeText_ensures (t : Text) :
    Ensures (·.Restamped floor told) (writeText path t) fun _ =>
      (·.Restamped floor (path :: told)) :=
  (Ensures.change path).mono fun _ _ ⟨_, hworld, hw⟩ => hworld.writeBytes hw

/-- A stylesheet that is laid out has a fresh stamp if it was written. -/
theorem formatFile_ensures (style : Style) :
    Ensures (·.Restamped floor []) (formatFile style path) fun changed =>
      (·.Restamped floor (if changed then [path] else [])) := by
  rw [formatFile_text]
  refine (Ensures.readText path).bind fun read => ?_
  split
  · exact (log_ensures ..).bind fun _ => .pure false fun _ h => h
  · split
    · exact .pure false fun _ h => h
    · exact (writeText_ensures _).bind fun _ => (log_ensures ..).bind fun _ =>
        .pure true fun _ h => h

/-- The component has a fresh stamp if its import was written. -/
theorem updateImport_ensures (source : Text) :
    Ensures (·.Restamped floor told) (updateImport path sheet source) fun changed =>
      (·.Restamped floor ((if changed then [path] else []) ++ told)) := by
  rw [updateImport]
  split
  · exact .pure false fun _ h => h
  · exact (writeText_ensures _).bind fun _ => (log_ensures ..).bind fun _ =>
      .pure true fun _ h => h

/-- The stylesheet has a fresh stamp if it was written. -/
theorem updateSheet_ensures (style : Style) (used : List Text) (css : Text) :
    Ensures (·.Restamped floor told) (updateSheet style used sheet css) fun changed =>
      (·.Restamped floor ((if changed then [sheet] else []) ++ told)) := by
  rw [updateSheet_text]
  split
  · exact .pure false fun _ h => h
  · exact (writeText_ensures _).bind fun _ => (log_ensures ..).bind fun _ =>
      .pure true fun _ h => h

/-- The stylesheet has a fresh stamp if it was made. -/
theorem resolveSheet_ensures (generate : Bool) :
    Ensures (·.Restamped floor []) (resolveSheet path generate) fun found =>
      (·.Restamped floor (if found.2 then found.1.toList else [])) := by
  refine (Ensures.lift _).bind fun sheet => (Ensures.look _).bind fun there => ?_
  split
  · exact .pure _ fun _ h => h.1
  · split
    · exact ((writeText_ensures _).of_imp fun _ h => h.1).bind fun _ => (log_ensures ..).bind fun _ =>
        .pure _ fun _ h => h
    · exact .pure _ fun _ h => h.1

/-- The files a sync tells are the component, if its import was written, and the stylesheet, if it
was made or written. -/
theorem mem_of_mem_written {created sheetChanged importChanged : Bool} {other : Path}
    (h : other ∈ (SyncResult.mk path (some sheet) created sheetChanged importChanged).written) :
    other ∈ (if sheetChanged then [sheet] else []) ++
      ((if importChanged then [path] else []) ++ (if created then [sheet] else [])) := by
  cases created <;> cases sheetChanged <;> cases importChanged <;>
    simp_all [SyncResult.written, or_comm]

/-- The files that a sync wrote have fresh stamps. -/
theorem syncSheet_ensures (style : Style) (generate : Bool) (source : Text) (created : Bool) :
    Ensures (·.Restamped floor (if created then [sheet] else []))
      (syncSheet style generate path source sheet created) fun result =>
        (·.Restamped floor result.written) := by
  refine (Ensures.readText sheet).bind fun read => ?_
  cases read with
  | error error =>
    exact (log_ensures ..).bind fun _ =>
      .pure _ fun _ h => h.mono fun other ho => mem_of_mem_written ho
  | ok css =>
    have himport : Ensures (·.Restamped floor (if created then [sheet] else []))
        (if (generate && !(extractClasses source).isEmpty) = true then
          updateImport path sheet source else pure false : Session Bool) fun importChanged =>
            (·.Restamped floor
              ((if importChanged then [path] else []) ++ (if created then [sheet] else []))) := by
      by_cases hneeded : (generate && !(extractClasses source).isEmpty) = true
      · rw [if_pos hneeded]
        exact updateImport_ensures source
      · rw [if_neg hneeded]
        exact .pure false fun _ h => h
    refine himport.ite_bind fun importChanged => ?_
    exact (updateSheet_ensures style _ css).bind fun sheetChanged =>
      .pure _ fun _ h => h.mono fun other => mem_of_mem_written

/-- To ask whether a stylesheet is needed changes nothing. -/
theorem needsNone_ensures {before : World → Prop} (generate : Bool) (used : List Text) :
    Ensures before (needsNone generate path used) fun _ => before := by
  rw [needsNone]
  split
  · exact (Ensures.lift _).bind fun sheet => (Ensures.look _).bind fun _ => .pure _ fun _ h => h.1
  · exact .pure _ fun _ h => h

/-- The files that a sync of a component wrote have fresh stamps. -/
theorem syncComponent_ensures (style : Style) (generate : Bool) :
    Ensures (·.Restamped floor []) (syncComponent style generate path) fun result =>
      (·.Restamped floor result.written) := by
  refine (Ensures.readText path).bind fun read => ?_
  cases read with
  | error error => exact (log_ensures ..).bind fun _ => .pure _ fun _ h => h
  | ok source =>
    refine (needsNone_ensures ..).bind fun unneeded => ?_
    cases unneeded with
    | true => exact .pure _ fun _ h => h
    | false =>
      refine (resolveSheet_ensures generate).bind fun found => ?_
      obtain ⟨sheet, created⟩ := found
      cases sheet with
      | none => exact .pure _ fun _ h => h.mono (by simp [SyncResult.written])
      | some sheet => exact syncSheet_ensures style generate source created

/-- The path to which an orphan is moved led to nothing before. -/
theorem adoptOrphan_ensures {world : World} (hdated : world.Dated floor) :
    Ensures (· = world) (adoptOrphan path) fun adopted after =>
      after.Dated floor ∧ ∀ other ∈ adopted.toList, world.stamp? other = none := by
  have hstill : ∀ {after : World}, after = world →
      after.Dated floor ∧ ∀ other ∈ (none : Option Path).toList, world.stamp? other = none :=
    fun he => ⟨he ▸ hdated, by simp⟩
  refine (Ensures.look _).bind fun orphans => ?_
  match orphans with
  | [] => exact .pure none fun _ h => hstill h.1
  | [orphan] =>
    refine (Ensures.lift _).bind fun sheet => (Ensures.look _).bind fun there => ?_
    cases there with
    | true => exact .pure none fun _ h => hstill h.1.1
    | false =>
      have hmove : Ensures (fun start => (start = world ∧ [orphan] = start.orphans path.parent) ∧
            false = start.pathExists sheet) (Session.movePath orphan sheet) fun _ after =>
          after.Dated floor ∧ ∀ other ∈ (some sheet).toList, world.stamp? other = none := by
        refine (Ensures.change _).mono ?_
        rintro _ after ⟨start, ⟨⟨rfl, -⟩, hmissing⟩, hmoved⟩
        refine ⟨hdated.movePath hmoved, ?_⟩
        simpa using World.stamp?_eq_none_of_missing hmissing.symm
      exact hmove.bind fun _ => (Ensures.log _ _ fun _ _ h => h).bind fun _ =>
        .pure (some sheet) fun _ h => h
  | first :: second :: rest =>
    refine Ensures.bind ?_ fun _ => .pure none fun _ h => h
    exact ((Ensures.log _ _ fun _ _ h => h).of_imp fun _ h => hstill h.1)

end Operations

namespace Runner

open Session

variable {runner : Runner} {world after : World} {path : Path} {told : List Path}

/-- Handling a file never sets the clock back, and what it tells as written was missing before or
has a stamp that was not in use. -/
theorem handle_restamps {isNew : Bool} {floor : Nat} (hdated : world.Dated floor)
    (h : (runner.handle path isNew).exec world = (.ok told, after)) :
    after.Dated floor ∧ ∀ other ∈ told, world.stamp? other = none ∨
      ∀ stamp, after.stamp? other = some stamp → floor ≤ stamp := by
  have hstart : world.Restamped floor [] := ⟨hdated, by simp⟩
  have hadopt : Ensures (· = world) (if (isNew && runner.config.modes.generate) = true then
      adoptOrphan path else pure none) fun adopted mid =>
        mid.Dated floor ∧ ∀ other ∈ adopted.toList, world.stamp? other = none := by
    split
    · exact adoptOrphan_ensures hdated
    · exact .pure none fun mid he => ⟨he ▸ hdated, by simp⟩
  have hsync : Ensures (·.Dated floor) (runner.sync path) fun result =>
      (·.Restamped floor result.written) :=
    (syncComponent_ensures ..).of_imp fun _ hmid => ⟨hmid, by simp⟩
  suffices hensures : Ensures (· = world) (runner.handle path isNew) fun told after =>
      after.Dated floor ∧ ∀ other ∈ told, world.stamp? other = none ∨
        ∀ stamp, after.stamp? other = some stamp → floor ≤ stamp from
    hensures.holds world told after rfl h
  rw [handle]
  split
  · refine hadopt.ite_bind fun adopted => ?_
    refine (hsync.frame _).bind fun result => .pure _ ?_
    rintro last ⟨hlast, hmissing⟩
    refine ⟨hlast.dated, fun other ho => ?_⟩
    rcases List.mem_append.mp ho with ho | ho
    · exact Or.inl (hmissing other ho)
    · exact Or.inr (hlast.fresh other ho)
  · split
    · refine ((formatFile_ensures runner.style).of_imp fun mid he => he ▸ hstart).bind fun changed =>
        .pure _ fun mid hmid => ⟨hmid.dated, fun other ho => Or.inr (hmid.fresh other ho)⟩
    · exact .pure [] fun mid he => ⟨he ▸ hdated, by simp⟩

end Runner

end StyleModules
