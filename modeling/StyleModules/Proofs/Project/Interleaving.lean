import StyleModules.Proofs.Project.Restamping
import StyleModules.Proofs.Project.Settling

/-!
# Edits while a poll is on its way

A poll takes a snapshot, handles the pending files one after the other, and then takes over the
stamps of the files it wrote, one after the other in any order. Between any two of these steps
others may write files. A run of these steps in which nobody else writes is a poll
(`Runner.poll_of_run`, `Runner.exists_run_of_poll`).

A file that somebody writes and nothing changes any more is pending for the next poll, unless the
poll had written it before and not yet taken over its stamp: then the stamp taken over is that of
the edit (`Runner.edit_pending_iff`). What is pending is handled (`Runner.Run.handles_iff`), so the
next poll handles the file (`Runner.edit_handled_next`). An edit that is taken over is noticed if
this poll still handles a file that reads the one edited (`Runner.edit_noticed_iff`), and else lost
until the file is written again (`Runner.edit_lost`).
-/

namespace StyleModules

/-- A poll on its way. -/
structure PollState where
  /-- The files as they are now. -/
  world : World
  /-- The stamps to be returned, as far as they are known. -/
  snapshot : Snapshot
  /-- The files still to be handled, each new or not. -/
  pending : List (Path × Bool)
  /-- The files written whose stamps are still to be taken over. -/
  written : List Path

/-- All stamps, in the world and in the snapshot, lie below the clock. -/
structure PollState.Dated (state : PollState) : Prop where
  world : state.world.Dated 0
  snapshot : ∀ path stamp, state.snapshot.stamp? path = some stamp →
    stamp < state.world.store.clock

/-- The poll has come to its end. -/
structure PollState.Finished (state : PollState) : Prop where
  handled : state.pending = []
  absorbed : state.written = []

/-- What happens while a poll is on its way. -/
inductive PollEvent where
  /-- Somebody else writes a file. -/
  | edit (path : Path) (bytes : ByteArray)
  /-- The poll handles the next file. -/
  | handle
  /-- The poll takes over the stamp of a file that it wrote. -/
  | restat (path : Path)

/-- Nobody else does anything. -/
def PollEvent.isOwn : PollEvent → Bool
  | edit _ _ => false
  | _ => true

namespace Runner

/-- A poll that has taken its snapshot. -/
def begin (runner : Runner) (previous : Snapshot) (world : World) : PollState where
  world := world
  snapshot := runner.snapshot world
  pending := previous.pending (runner.snapshot world)
  written := []

/-- One step while a poll is on its way. -/
inductive Step (runner : Runner) : PollState → PollEvent → PollState → Prop
  | edit {state : PollState} {path : Path} {bytes : ByteArray} {world : World}
    (h : state.world.writeBytes path bytes = .ok world) :
    Step runner state (.edit path bytes) { state with world := world }
  | handle {state : PollState} {path : Path} {isNew : Bool} {rest : List (Path × Bool)}
    {told : List Path} {world : World} (hpending : state.pending = (path, isNew) :: rest)
    (h : (runner.handle path isNew).exec state.world = (.ok told, world)) :
    Step runner state .handle
      { state with world := world, pending := rest, written := state.written ++ told }
  | restat {state : PollState} {path : Path} (hpending : state.pending = [])
    (h : path ∈ state.written) :
    Step runner state (.restat path)
      { state with
        snapshot := state.snapshot.set path (state.world.stamp? path)
        written := state.written.filter (· != path) }

/-- Steps one after the other. -/
inductive Run (runner : Runner) : PollState → List PollEvent → PollState → Prop
  | nil (state : PollState) : Run runner state [] state
  | cons {state mid final : PollState} {event : PollEvent} {events : List PollEvent}
    (hstep : runner.Step state event mid) (hrun : Run runner mid events final) :
    Run runner state (event :: events) final

variable {runner : Runner} {state mid edited final : PollState} {event : PollEvent}
  {events before later : List PollEvent}
  {path : Path} {stamp : Nat}

section Poll

open Session

variable {previous settled : Snapshot} {world after : World}

/-- Without edits by others, a run to the end handles all that is pending and takes over the stamps
of all that was written. -/
theorem handleEach_of_run (h : runner.Run state events final)
    (hown : ∀ event ∈ events, event.isOwn = true) (hfinished : final.Finished) :
    ∃ told, (runner.handleEach state.pending).exec state.world = (.ok told, final.world) ∧
      ∀ path, final.snapshot.stamp? path =
        if path ∈ state.written ++ told then final.world.stamp? path
        else state.snapshot.stamp? path := by
  induction h with
  | nil state =>
    refine ⟨[], ?_, fun path => ?_⟩
    · rw [hfinished.handled]
      rfl
    · rw [hfinished.absorbed, List.append_nil, if_neg List.not_mem_nil]
  | cons hstep hrun ih =>
    obtain ⟨told, hexec, hstamps⟩ :=
      ih (fun event he => hown event (List.mem_cons_of_mem _ he)) hfinished
    cases hstep with
    | edit => exact absurd (hown _ List.mem_cons_self) Bool.false_ne_true
    | @handle path isNew rest first world hpending hhandle =>
      refine ⟨first ++ told, ?_, fun other => ?_⟩
      · rw [hpending, handleEach, exec_bind hhandle, exec_bind hexec, exec_pure]
      · rw [hstamps, List.append_assoc]
    | @restat path hpending hmem =>
      simp only at hexec hstamps
      rw [hpending] at hexec ⊢
      obtain ⟨htold, hworld⟩ := Prod.mk.inj hexec
      obtain rfl := Except.ok.inj htold
      refine ⟨[], hexec, fun other => ?_⟩
      rw [hstamps, List.append_nil, List.append_nil, Snapshot.stamp?_set, ← hworld]
      by_cases ho : other = path
      · simp [ho, hmem]
      · simp [ho]

/-- A run to the end in which nobody else writes is a poll. -/
theorem poll_of_run (h : runner.Run (runner.begin previous world) events final)
    (hown : ∀ event ∈ events, event.isOwn = true) (hfinished : final.Finished) :
    ∃ settled, (runner.poll previous).exec world = (.ok settled, final.world) ∧
      ∀ path, settled.stamp? path = final.snapshot.stamp? path := by
  obtain ⟨told, hexec, hstamps⟩ := handleEach_of_run h hown hfinished
  refine ⟨_, exec_poll_eq_ok_iff.mpr ⟨told, hexec, rfl⟩, fun path => ?_⟩
  rw [hstamps, stamp?_absorb]
  rfl

/-- When all is handled, the stamps of what was written can be taken over. -/
theorem exists_run_of_handled (hpending : state.pending = []) :
    ∃ events final, runner.Run state events final ∧
      (∀ event ∈ events, event.isOwn = true) ∧ final.Finished := by
  -- Each step takes away at least one of the paths.
  induction hn : state.written.length using Nat.strongRecOn generalizing state with
  | _ n ih =>
    cases hwritten : state.written with
    | nil => exact ⟨[], state, .nil state, by simp, hpending, hwritten⟩
    | cons path rest =>
      have hmem : path ∈ state.written := hwritten ▸ List.mem_cons_self
      have hshorter : (state.written.filter (· != path)).length < n := by
        rw [← hn, hwritten, List.filter_cons_of_neg (by simp)]
        exact Nat.lt_succ_of_le (List.length_filter_le ..)
      obtain ⟨events, final, hrun, hown, hfinished⟩ := @ih _ hshorter
        { state with
          snapshot := state.snapshot.set path (state.world.stamp? path)
          written := state.written.filter (· != path) } hpending rfl
      refine ⟨.restat path :: events, final, .cons (.restat hpending hmem) hrun, ?_, hfinished⟩
      simpa [PollEvent.isOwn] using hown

/-- Handling all that is pending is a run, which can go on to its end. -/
theorem exists_run_of_handleEach {told : List Path}
    (h : (runner.handleEach state.pending).exec state.world = (.ok told, after)) :
    ∃ events final, runner.Run state events final ∧
      (∀ event ∈ events, event.isOwn = true) ∧ final.Finished := by
  induction hpending : state.pending generalizing state told with
  | nil => exact exists_run_of_handled hpending
  | cons item rest ih =>
    obtain ⟨path, isNew⟩ := item
    rw [hpending] at h
    obtain ⟨first, next, hfirst, hrest⟩ := exists_of_exec_bind h
    obtain ⟨later, last, hlater, hreturn⟩ := exists_of_exec_bind hrest
    obtain ⟨-, rfl⟩ := Prod.mk.inj hreturn
    obtain ⟨events, final, hrun, hown, hfinished⟩ := @ih
      { state with world := next, pending := rest, written := state.written ++ first } _ hlater rfl
    refine ⟨.handle :: events, final, .cons (.handle hpending hfirst) hrun, ?_, hfinished⟩
    simpa [PollEvent.isOwn] using hown

/-- Every poll is a run to the end in which nobody else writes. -/
theorem exists_run_of_poll (h : (runner.poll previous).exec world = (.ok settled, after)) :
    ∃ events final, runner.Run (runner.begin previous world) events final ∧
      (∀ event ∈ events, event.isOwn = true) ∧ final.Finished ∧ final.world = after ∧
      ∀ path, final.snapshot.stamp? path = settled.stamp? path := by
  obtain ⟨told, hexec, -⟩ := exec_poll_eq_ok_iff.mp h
  obtain ⟨events, final, hrun, hown, hfinished⟩ :=
    @exists_run_of_handleEach runner (runner.begin previous world) _ _ hexec
  obtain ⟨result, hpoll, hstamps⟩ := poll_of_run hrun hown hfinished
  obtain ⟨hresult, hworld⟩ := Prod.mk.inj (hpoll.symm.trans h)
  obtain rfl := Except.ok.inj hresult
  exact ⟨events, final, hrun, hown, hfinished, hworld, fun path => (hstamps path).symm⟩

end Poll

section Edit

variable {previous : Snapshot} {world : World} {bytes : ByteArray}

/-- A step keeps all stamps below the clock, which does not go back. -/
theorem Step.dated (h : runner.Step state event mid) (hstate : state.Dated) :
    mid.Dated ∧ state.world.store.clock ≤ mid.world.store.clock := by
  obtain ⟨hworld, hsnapshot⟩ := hstate
  cases h with
  | edit hw =>
    have hnext := World.Dated.writeBytes hworld.raise hw
    exact ⟨⟨hnext.lower, fun path stamp hs =>
      Nat.lt_of_lt_of_le (hsnapshot path stamp hs) hnext.floor_le⟩, hnext.floor_le⟩
  | handle _ hexec =>
    obtain ⟨hnext, -⟩ := handle_restamps hworld.raise hexec
    exact ⟨⟨hnext.lower, fun path stamp hs =>
      Nat.lt_of_lt_of_le (hsnapshot path stamp hs) hnext.floor_le⟩, hnext.floor_le⟩
  | @restat path =>
    refine ⟨⟨hworld, fun other stamp hs => ?_⟩, Nat.le_refl _⟩
    rw [Snapshot.stamp?_set] at hs
    split at hs
    · exact hworld.stamp?_lt hs
    · exact hsnapshot other stamp hs

/-- A run keeps all stamps below the clock. -/
theorem Run.dated (h : runner.Run state events final) (hstate : state.Dated) : final.Dated := by
  induction h with
  | nil => exact hstate
  | cons hstep _ ih => exact ih (hstep.dated hstate).1

/-- A poll starts with all stamps below the clock. -/
theorem dated_begin (hworld : world.Dated 0) : (runner.begin previous world).Dated where
  world := hworld
  snapshot path stamp hs := by
    have hmem : (path, stamp) ∈ runner.snapshot world := Snapshot.mem_of_stamp? hs
    exact hworld.stamp?_lt (mem_snapshot_iff.mp hmem).2

/-- From the start of the run to its end the path shows one stamp. -/
def Shows (runner : Runner) (state : PollState) (events : List PollEvent) (path : Path)
    (stamp : Nat) : Prop :=
  ∀ first rest mid, events = first ++ rest → runner.Run state first mid →
    mid.world.stamp? path = some stamp

/-- The path shows the stamp at the start. -/
theorem Shows.start (h : runner.Shows state events path stamp) :
    state.world.stamp? path = some stamp := h [] events state rfl (.nil state)

/-- The path shows the stamp from the next state on. -/
theorem Shows.tail (h : runner.Shows state (event :: events) path stamp)
    (hstep : runner.Step state event mid) : runner.Shows mid events path stamp :=
  fun first rest last he hrun => h (event :: first) rest last (by rw [he]; rfl) (.cons hstep hrun)

/-- A stamp that is to be taken over, or has been, is taken over at the end. -/
theorem Run.absorbs (h : runner.Run state events final)
    (hshows : runner.Shows state events path stamp)
    (hstate : path ∈ state.written ∨ state.snapshot.stamp? path = some stamp) :
    path ∈ final.written ∨ final.snapshot.stamp? path = some stamp := by
  induction h with
  | nil => exact hstate
  | cons hstep _ ih =>
    refine ih (hshows.tail hstep) ?_
    cases hstep with
    | edit => exact hstate
    | handle => exact hstate.imp_left fun hp => List.mem_append_left _ hp
    | @restat other =>
      rw [Snapshot.stamp?_set]
      by_cases ho : path = other
      · rw [if_pos ho, ← ho]
        exact Or.inr hshows.start
      · rw [if_neg ho]
        exact hstate.imp_left fun hp => List.mem_filter.mpr ⟨hp, by simpa using ho⟩

/-- What is handled tells no file whose stamp stays the same. -/
theorem Step.not_told (hstep : runner.Step state event mid) (hstate : state.Dated)
    (hstart : state.world.stamp? path = some stamp) (hend : mid.world.stamp? path = some stamp)
    (hpath : path ∉ state.written) : path ∉ mid.written := by
  cases hstep with
  | edit => exact hpath
  | handle _ hexec =>
    obtain ⟨-, htold⟩ := handle_restamps hstate.world.raise hexec
    intro hmem
    rcases List.mem_append.mp hmem with hmem | hmem
    · exact hpath hmem
    · rcases htold path hmem with hnone | hfresh
      · rw [hstart] at hnone
        cases hnone
      · exact Nat.lt_irrefl _ (Nat.lt_of_le_of_lt (hfresh stamp hend)
          (hstate.world.stamp?_lt hstart))
  | restat => exact fun hmem => hpath (List.mem_filter.mp hmem).1

/-- A stamp that is not to be taken over is not taken over. -/
theorem Run.leaves (h : runner.Run state events final) (hdated : state.Dated)
    (hshows : runner.Shows state events path stamp) (hpath : path ∉ state.written)
    (hstamp : state.snapshot.stamp? path ≠ some stamp) :
    final.snapshot.stamp? path ≠ some stamp := by
  induction h with
  | nil => exact hstamp
  | cons hstep _ ih =>
    have htail := hshows.tail hstep
    refine ih (hstep.dated hdated).1 htail (hstep.not_told hdated hshows.start htail.start hpath) ?_
    cases hstep with
    | edit => exact hstamp
    | handle => exact hstamp
    | @restat other _ hmem =>
      have hne : path ≠ other := by
        rintro rfl
        exact hpath hmem
      rwa [Snapshot.stamp?_set, if_neg hne]

/-- An edit after which the file does not change any more is not taken over, unless the poll had
written the file before and takes over its stamp after. -/
theorem edit_held_iff (hworld : world.Dated 0)
    (hbefore : runner.Run (runner.begin previous world) before mid)
    (hedit : runner.Step mid (.edit path bytes) edited) (hlater : runner.Run edited later final)
    (hlast : runner.Shows edited later path mid.world.store.clock) (hfinished : final.Finished) :
    final.world.stamp? path = some mid.world.store.clock ∧
      (final.snapshot.stamp? path ≠ some mid.world.store.clock ↔ path ∉ mid.written) := by
  have hmid := hbefore.dated (dated_begin hworld)
  have hedited := (hedit.dated hmid).1
  refine ⟨hlast later [] final (List.append_nil later).symm hlater, ?_⟩
  cases hedit with
  | edit hwrite =>
    constructor
    · intro hne hmem
      rcases hlater.absorbs hlast (Or.inl hmem) with hleft | htaken
      · rw [hfinished.absorbed] at hleft
        cases hleft
      · exact hne htaken
    · intro hnot
      refine hlater.leaves hedited hlast hnot fun hs => ?_
      exact Nat.lt_irrefl _ (hmid.snapshot path _ hs)

/-- Whatever else happens while a poll is on its way, an edit after which the file does not change
any more is pending for the next poll, unless the poll had written the file before the edit and
takes over its stamp after it. -/
theorem edit_pending_iff (hworld : world.Dated 0)
    (hbefore : runner.Run (runner.begin previous world) before mid)
    (hedit : runner.Step mid (.edit path bytes) edited) (hlater : runner.Run edited later final)
    (hlast : runner.Shows edited later path mid.world.store.clock) (hfinished : final.Finished) :
    (final.snapshot.stamp? path ≠ final.world.stamp? path ↔ path ∉ mid.written) ∧
      (runner.Watches final.world path →
        ((∃ isNew, (path, isNew) ∈ final.snapshot.pending (runner.snapshot final.world)) ↔
          path ∉ mid.written)) := by
  obtain ⟨hcurrent, hiff⟩ := edit_held_iff hworld hbefore hedit hlater hlast hfinished
  refine ⟨hcurrent ▸ hiff, fun hwatched => ?_⟩
  rw [pending_iff hwatched hcurrent, hiff]

/-- In the course of the run the poll handles the file. -/
def Handles (runner : Runner) (state : PollState) (events : List PollEvent) (final : PollState)
    (path : Path) : Prop :=
  ∃ first rest here next isNew, events = first ++ .handle :: rest ∧ runner.Run state first here ∧
    here.pending.head? = some (path, isNew) ∧ runner.Step here .handle next ∧
    runner.Run next rest final

/-- Files are handled in the order in which they are pending. -/
theorem Run.pending_suffix (h : runner.Run state events final) :
    final.pending <:+ state.pending := by
  induction h with
  | nil => exact List.suffix_rfl
  | cons hstep _ ih =>
    cases hstep with
    | edit => exact ih
    | handle hpending => exact ih.trans (hpending ▸ List.suffix_cons _ _)
    | restat => exact ih

/-- A run to the end handles exactly the files that are pending. -/
theorem Run.handles_iff (h : runner.Run state events final) (hhandled : final.pending = []) :
    runner.Handles state events final path ↔ ∃ isNew, (path, isNew) ∈ state.pending := by
  constructor
  · rintro ⟨first, rest, here, next, isNew, -, hfirst, hhead, -, -⟩
    exact ⟨isNew, hfirst.pending_suffix.mem (List.mem_of_head? hhead)⟩
  · rintro ⟨isNew, hmem⟩
    induction h with
    | nil state =>
      rw [hhandled] at hmem
      cases hmem
    | @cons state mid final event events hstep hrun ih =>
      have hlater : (path, isNew) ∈ mid.pending →
          runner.Handles state (event :: events) final path := by
        intro hmid
        obtain ⟨first, rest, here, next, mark, rfl, hfirst, hhead, hnext, hrest⟩ := ih hhandled hmid
        exact ⟨event :: first, rest, here, next, mark, rfl, .cons hstep hfirst, hhead, hnext, hrest⟩
      cases hstep with
      | edit hw => exact hlater hmem
      | handle hpending hexec =>
        rw [hpending] at hmem
        rcases List.mem_cons.mp hmem with heq | hrest
        · exact ⟨[], events, state, _, isNew, rfl, .nil state, by rw [hpending, heq]; rfl,
            .handle hpending hexec, hrun⟩
        · exact hlater hrest
      | restat hpending hw =>
        rw [hpending] at hmem
        cases hmem

/-- Handling the first file reads the other: a component is read with its stylesheet, and a
stylesheet if it is to be laid out. -/
def Reads (runner : Runner) (path other : Path) : Prop :=
  if path.isComponent then path.Owns other
  else (runner.config.modes.sort && path.suffix == sheetSuffix) = true ∧ other = path

/-- An edit after which the file does not change any more is noticed, by this poll in a file that it
handles later or by the next one, unless this poll had written the file before the edit and nothing
that reads the file was pending any more. -/
theorem edit_noticed_iff (hworld : world.Dated 0)
    (hbefore : runner.Run (runner.begin previous world) before mid)
    (hedit : runner.Step mid (.edit path bytes) edited) (hlater : runner.Run edited later final)
    (hlast : runner.Shows edited later path mid.world.store.clock) (hfinished : final.Finished) :
    ((∃ other, runner.Reads other path ∧ runner.Handles edited later final other) ∨
        final.snapshot.stamp? path ≠ final.world.stamp? path) ↔
      (path ∈ mid.written → ∃ other isNew, (other, isNew) ∈ mid.pending ∧
        runner.Reads other path) := by
  obtain ⟨hcurrent, hheld⟩ := edit_held_iff hworld hbefore hedit hlater hlast hfinished
  have hpending : edited.pending = mid.pending := by
    cases hedit
    rfl
  rw [hcurrent, hheld]
  simp only [hlater.handles_iff hfinished.handled, hpending]
  constructor
  · rintro (⟨other, hreads, isNew, hmem⟩ | hnot) hwritten
    · exact ⟨other, isNew, hmem, hreads⟩
    · exact absurd hwritten hnot
  · intro h
    by_cases hwritten : path ∈ mid.written
    · obtain ⟨other, isNew, hmem, hreads⟩ := h hwritten
      exact Or.inl ⟨other, hreads, isNew, hmem⟩
    · exact Or.inr hwritten

/-- The next poll handles a file whose edit was not taken over, whatever happens meanwhile. -/
theorem edit_handled_next {last : PollState} (hworld : world.Dated 0)
    (hbefore : runner.Run (runner.begin previous world) before mid)
    (hedit : runner.Step mid (.edit path bytes) edited) (hlater : runner.Run edited later final)
    (hlast : runner.Shows edited later path mid.world.store.clock) (hfinished : final.Finished)
    (hwatched : runner.Watches final.world path) (hpath : path ∉ mid.written)
    (hnext : runner.Run (runner.begin final.snapshot final.world) events last)
    (hend : last.Finished) :
    runner.Handles (runner.begin final.snapshot final.world) events last path := by
  obtain ⟨hcurrent, hheld⟩ := edit_held_iff hworld hbefore hedit hlater hlast hfinished
  exact (hnext.handles_iff hend.handled).mpr
    ((pending_iff hwatched hcurrent).mpr (hheld.mpr hpath))

/-- The world of one stylesheet, which holds a text and has a stamp. -/
def sheetWorld (t : Text) (stamp : Nat) (journal : List Notice) : World where
  store := { entries := [(["a.css".toList], .file (encodeText t) stamp)], clock := stamp + 1 }
  journal := journal

/-- The path of the stylesheet. -/
def sheetPath : Path := ⟨.relative, ["a.css".toList]⟩

/-- A runner that lays out stylesheets. -/
def sheetRunner : Runner where
  config := { target := {}, modes := { sort := true } }

/-- The stylesheet can be written, which takes the next stamp. -/
theorem writeBytes_sheetWorld (t u : Text) (stamp : Nat) (journal : List Notice) :
    (sheetWorld t stamp journal).writeBytes sheetPath (encodeText u) =
      .ok (sheetWorld u (stamp + 1) journal) := rfl

/-- The stylesheet holds its text. -/
theorem holds_sheetWorld {t : Text} (ht : '\r' ∉ t) (stamp : Nat) (journal : List Notice) :
    (sheetWorld t stamp journal).Holds sheetPath t :=
  ⟨encodeText t, rfl, by rw [decodeText?_encodeText, universalNewlines_of_no_return ht]⟩

/-- The stylesheet is watched. -/
theorem watches_sheetWorld (t : Text) (stamp : Nat) (journal : List Notice) :
    sheetRunner.Watches (sheetWorld t stamp journal) sheetPath where
  below := by
    have hbelow : (sheetWorld t stamp journal).descendants sheetRunner.config.target =
        [sheetPath] := rfl
    rw [hbelow]
    exact List.mem_singleton_self sheetPath
  suffix := by decide +kernel
  kept := by decide +kernel

/-- The snapshot has the stylesheet alone. -/
theorem snapshot_sheetWorld (t : Text) (stamp : Nat) (journal : List Notice) :
    sheetRunner.snapshot (sheetWorld t stamp journal) = [(sheetPath, stamp)] := by
  have hbelow : (sheetWorld t stamp journal).descendants sheetRunner.config.target =
      [sheetPath] := rfl
  have hkept : (watchedSuffixes.contains sheetPath.suffix && !sheetPath.isSkipped) = true := by
    decide +kernel
  simp only [snapshot, hbelow, List.filter_cons, hkept, if_true, List.filter_nil,
    List.mergeSort_singleton]
  rfl

/-- The stamp of the stylesheet lies below the clock. -/
theorem dated_sheetWorld (t : Text) (stamp : Nat) (journal : List Notice) :
    (sheetWorld t stamp journal).Dated 0 where
  positive := Nat.succ_pos stamp
  floor_le := Nat.zero_le _
  below e he mark hs := by
    rw [List.mem_singleton.mp he] at hs
    obtain rfl : stamp = mark := Option.some.inj hs
    exact Nat.lt_succ_self stamp

/-- Handling the stylesheet lays it out, and tells if it was written. -/
theorem handle_sheet {t : Text} {stamp : Nat} {journal : List Notice} {changed : Bool}
    {after : World}
    (h : (formatFile sheetRunner.style sheetPath).exec (sheetWorld t stamp journal) =
      (.ok changed, after)) (isNew : Bool) :
    (sheetRunner.handle sheetPath isNew).exec (sheetWorld t stamp journal) =
      (.ok (if changed then [sheetPath] else []), after) := by
  have hcomponent : sheetPath.isComponent = false := by decide +kernel
  have hsheet : (sheetRunner.config.modes.sort && sheetPath.suffix == sheetSuffix) = true := by
    decide +kernel
  rw [handle, if_neg (by simp [hcomponent]), if_pos hsheet]
  exact Session.exec_bind h _

/-- A first poll finds the stylesheet new. -/
theorem begin_sheet (t : Text) (stamp : Nat) (journal : List Notice) :
    sheetRunner.begin [] (sheetWorld t stamp journal) =
      ⟨sheetWorld t stamp journal, [(sheetPath, stamp)], [(sheetPath, true)], []⟩ := by
  rw [begin, snapshot_sheetWorld]
  rfl

/-- A declaration that is not laid out. -/
def hastyCss : Text := "x\x7by:z\x7d".toList

/-- A stylesheet that is laid out already is not written, and an edit of it after it has been
handled is pending for the next poll. -/
theorem edit_pending_canonical :
    (sheetWorld [] 1 []).Dated 0 ∧
      ∃ mid edited, sheetRunner.Run (sheetRunner.begin [] (sheetWorld [] 1 [])) [.handle] mid ∧
        sheetRunner.Step mid (.edit sheetPath (encodeText hastyCss)) edited ∧
        sheetRunner.Run edited [] edited ∧
        sheetRunner.Shows edited [] sheetPath mid.world.store.clock ∧ edited.Finished ∧
        ∃ isNew, (sheetPath, isNew) ∈
          edited.snapshot.pending (sheetRunner.snapshot edited.world) := by
  have hdated := dated_sheetWorld [] 1 []
  have hformat := formatFile_performs_of_eq (holds_sheetWorld List.not_mem_nil 1 [])
    (show formatText sheetRunner.style [] = [] by decide +kernel)
  have hbefore : sheetRunner.Run (sheetRunner.begin [] (sheetWorld [] 1 [])) [.handle]
      ⟨sheetWorld [] 1 [], [(sheetPath, 1)], [], []⟩ := by
    rw [begin_sheet]
    exact .cons (.handle rfl (handle_sheet hformat.ends true)) (.nil _)
  have hedit : sheetRunner.Step ⟨sheetWorld [] 1 [], [(sheetPath, 1)], [], []⟩
      (.edit sheetPath (encodeText hastyCss))
      ⟨sheetWorld hastyCss 2 [], [(sheetPath, 1)], [], []⟩ :=
    .edit (writeBytes_sheetWorld [] hastyCss 1 [])
  have hlater : sheetRunner.Run ⟨sheetWorld hastyCss 2 [], [(sheetPath, 1)], [], []⟩ []
      ⟨sheetWorld hastyCss 2 [], [(sheetPath, 1)], [], []⟩ := .nil _
  have hlast : sheetRunner.Shows ⟨sheetWorld hastyCss 2 [], [(sheetPath, 1)], [], []⟩ [] sheetPath
      2 := by
    intro first rest last he hrun
    rw [List.append_eq_nil_iff.mp he.symm |>.1] at hrun
    cases hrun
    rfl
  refine ⟨hdated, _, _, hbefore, hedit, hlater, hlast, ⟨rfl, rfl⟩, ?_⟩
  exact ((edit_pending_iff hdated hbefore hedit hlater hlast ⟨rfl, rfl⟩).2
    (watches_sheetWorld hastyCss 2 [])).mpr List.not_mem_nil

/-- What is reported when the stylesheet has been laid out. -/
def sheetJournal : List Notice := [.logged .info ("Formatted: ".toList ++ sheetPath.toText)]

/-- A stylesheet is handled and written; somebody writes it again; the poll takes over the new
stamp. No handling of the file comes after the edit, yet the snapshot holds its stamp: the next poll
does nothing, though the file is not laid out. -/
theorem edit_lost :
    (sheetWorld hastyCss 1 []).Dated 0 ∧
      ∃ mid edited final,
        sheetRunner.Run (sheetRunner.begin [] (sheetWorld hastyCss 1 [])) [.handle] mid ∧
        sheetRunner.Step mid (.edit sheetPath (encodeText hastyCss)) edited ∧
        sheetRunner.Run edited [.restat sheetPath] final ∧
        sheetRunner.Shows edited [.restat sheetPath] sheetPath mid.world.store.clock ∧
        final.Finished ∧ sheetRunner.Watches final.world sheetPath ∧ mid.pending = [] ∧
        final.snapshot.stamp? sheetPath = final.world.stamp? sheetPath ∧
        (sheetRunner.poll final.snapshot).exec final.world =
          (.ok (sheetRunner.snapshot final.world), final.world) ∧
        final.world.Holds sheetPath hastyCss ∧
        formatText sheetRunner.style hastyCss ≠ hastyCss := by
  have hreturn : '\r' ∉ hastyCss := by decide +kernel
  have hother : formatText sheetRunner.style hastyCss ≠ hastyCss := by decide +kernel
  have hformat := formatFile_performs_of_ne (holds_sheetWorld hreturn 1 []) hother
    (writeBytes_sheetWorld hastyCss (formatText sheetRunner.style hastyCss) 1 [])
  have hbefore : sheetRunner.Run (sheetRunner.begin [] (sheetWorld hastyCss 1 [])) [.handle]
      ⟨sheetWorld (formatText sheetRunner.style hastyCss) 2 sheetJournal, [(sheetPath, 1)], [],
        [sheetPath]⟩ := by
    rw [begin_sheet]
    exact .cons (.handle rfl (handle_sheet hformat.ends true)) (.nil _)
  have hedit : sheetRunner.Step
      ⟨sheetWorld (formatText sheetRunner.style hastyCss) 2 sheetJournal, [(sheetPath, 1)], [],
        [sheetPath]⟩ (.edit sheetPath (encodeText hastyCss))
      ⟨sheetWorld hastyCss 3 sheetJournal, [(sheetPath, 1)], [], [sheetPath]⟩ :=
    .edit (writeBytes_sheetWorld _ hastyCss 2 sheetJournal)
  have hlater : sheetRunner.Run ⟨sheetWorld hastyCss 3 sheetJournal, [(sheetPath, 1)], [],
      [sheetPath]⟩ [.restat sheetPath]
      ⟨sheetWorld hastyCss 3 sheetJournal, [(sheetPath, 3)], [], []⟩ :=
    .cons (.restat rfl List.mem_cons_self) (.nil _)
  have hlast : sheetRunner.Shows ⟨sheetWorld hastyCss 3 sheetJournal, [(sheetPath, 1)], [],
      [sheetPath]⟩ [.restat sheetPath] sheetPath 3 := by
    intro first rest last he hrun
    cases hrun with
    | nil => rfl
    | cons hstep hrun =>
      obtain ⟨rfl, htail⟩ := List.cons.inj he
      rw [List.append_eq_nil_iff.mp htail.symm |>.1] at hrun
      cases hstep
      cases hrun
      rfl
  have hnone : Snapshot.pending [(sheetPath, 3)]
      (sheetRunner.snapshot (sheetWorld hastyCss 3 sheetJournal)) = [] := by
    rw [snapshot_sheetWorld]
    decide +kernel
  refine ⟨dated_sheetWorld hastyCss 1 [], _, _, _, hbefore, hedit, hlater, hlast, ⟨rfl, rfl⟩,
    watches_sheetWorld hastyCss 3 sheetJournal, rfl, rfl, ?_, holds_sheetWorld hreturn 3 _, hother⟩
  refine exec_poll_eq_ok_iff.mpr ⟨[], ?_, rfl⟩
  rw [hnone]
  rfl

end Edit

end Runner

end StyleModules
