import StyleModules.Project.Runner
import StyleModules.Proofs.Layout.StoredStyle

/-!
# Runners of stored specifications

A command makes its runner with the code points of a specification. If these spell the texts of a
specification, then the runner scans, polls and watches as the runner of that specification does
(`Runner.run_stored`, `Runner.poll_stored`): all that a runner does with its specification is to
lay out trees.
-/

namespace StyleModules

section Sync

variable {σ : Type} [Script σ] (style : Style σ)

/-- A stylesheet is laid out in its file as by the code points of the specification. -/
theorem formatFile_stored (path : Path) : formatFile style.stored path = formatFile style path := by
  simp only [formatFile, Style.lay_stored]

/-- A component's stylesheet is written as by the code points of the specification. -/
theorem updateSheet_stored (used : List Text) (sheet : Path) (css : Text) :
    updateSheet style.stored used sheet css = updateSheet style used sheet css := by
  simp only [updateSheet, Style.lay_stored]

/-- A component is synced as by the code points of the specification. -/
theorem syncComponent_stored (generate : Bool) (component : Path) :
    syncComponent style.stored generate component = syncComponent style generate component := by
  simp only [syncComponent, syncSheet, updateSheet_stored]

end Sync

namespace Runner

variable {σ : Type} [Script σ] (runner : Runner σ)

/-- A runner with the code points of a specification syncs a component alike. -/
theorem sync_stored (component : Path) : runner.stored.sync component = runner.sync component :=
  syncComponent_stored runner.style _ component

/-- A runner with the code points of a specification syncs components alike. -/
theorem syncAll_stored (components : List Path) :
    runner.stored.syncAll components = runner.syncAll components := by
  induction components with
  | nil => rfl
  | cons component rest ih => rw [syncAll, syncAll, sync_stored, ih]

/-- A runner with the code points of a specification scans alike. -/
theorem scan_stored : runner.stored.scan = runner.scan := by
  simp only [scan, syncAll_stored]
  rfl

/-- A runner with the code points of a specification handles a file alike. -/
theorem handle_stored (path : Path) (isNew : Bool) :
    runner.stored.handle path isNew = runner.handle path isNew := by
  have hformat : formatFile runner.stored.style path = formatFile runner.style path :=
    formatFile_stored runner.style path
  simp only [handle, sync_stored, hformat]
  rfl

/-- A runner with the code points of a specification handles changed files alike. -/
theorem handleAll_stored (previous current : Snapshot) :
    runner.stored.handleAll previous current = runner.handleAll previous current := by
  induction current with
  | nil => rfl
  | cons entry rest ih =>
    obtain ⟨path, stamp⟩ := entry
    rw [handleAll, handleAll, handle_stored, ih]

/-- A runner with the code points of a specification polls alike. -/
theorem poll_stored (previous : Snapshot) : runner.stored.poll previous = runner.poll previous := by
  simp only [poll, handleAll_stored]
  rfl

/-- A runner with the code points of a specification watches alike. -/
theorem watchFrom_stored (pauses : List Pause) (limit : Option Nat) (snapshot : Snapshot) :
    runner.stored.watchFrom pauses limit snapshot = runner.watchFrom pauses limit snapshot := by
  induction pauses generalizing limit snapshot with
  | nil => rcases limit with _ | _ | _ <;> simp only [watchFrom]
  | cons pause pauses ih =>
    rcases limit with _ | _ | _ <;> simp only [watchFrom, poll_stored, ih]

/-- A runner with the code points of a specification runs alike. -/
theorem run_stored (pauses : List Pause) : runner.stored.run pauses = runner.run pauses := by
  simp only [run, watch, scan_stored, watchFrom_stored]
  rfl

end Runner

end StyleModules
