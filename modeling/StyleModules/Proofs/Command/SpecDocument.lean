import StyleModules.Command.Run
import StyleModules.Proofs.Component.SyncRun
import StyleModules.Proofs.Json.ReadBack
import StyleModules.Proofs.Project.Restamping

/-!
# A printed specification is loaded as it was

The document of a specification holds no carriage return, so its file is read as it was written. The
reader gives back the stored form of the specification, and that its categories (`Spec.read_write`).
-/

namespace StyleModules

open JsonReader JsonValue

section Document

/-- The stored form of a category holds strings only. -/
theorem Category.isTextual_toJson (category : Category) : category.toJson.IsTextual := by
  refine .object fun member hm => ?_
  simp only [List.mem_cons, List.not_mem_nil, or_false] at hm
  rcases hm with rfl | rfl
  · exact .string _
  · refine .array fun item hi => ?_
    obtain ⟨keyword, -, rfl⟩ := List.mem_map.mp hi
    exact .string keyword

/-- The stored form of a specification holds strings only. -/
theorem Spec.isTextual_toJson (spec : Spec) : spec.toJson.IsTextual := by
  refine .array fun item hi => ?_
  obtain ⟨category, -, rfl⟩ := List.mem_map.mp hi
  exact category.isTextual_toJson

/-- A document holds no character that is none of those of documents. -/
theorem Spec.not_mem_write (spec : Spec) {c : Char} (h : isDocumentChar c = false) :
    c ∉ spec.write := by
  intro hc
  rw [spec.isTextual_toJson.isWritten 0 c hc] at h
  cases h

/-- The document of a specification is read as the specification, also with spaces behind it. -/
theorem Spec.read_write (spec : Spec) {ending : Text} (h : ending.all isJsonSpace = true) :
    Spec.read (spec.write ++ ending) = .ok spec.stored := by
  rw [Spec.read, Spec.write, spec.isTextual_toJson.read_write h, spec.stored_toJson]
  exact congrArg Except.ok spec.stored.ofJson_toJson

/-- The document of a specification is that of its code points. -/
theorem Spec.write_stored (spec : Spec) : spec.stored.write = spec.write := by
  rw [Spec.write, ← Spec.stored_toJson, JsonValue.write_stored, Spec.write]

end Document

section Storage

open Session

variable {world after : World} {path : Path} {spec : Spec CodeText} {t : Text}

/-- A specification is loaded from a file that holds a document of it, and nothing is changed. -/
theorem exec_tryLoadSpec (hholds : world.Holds path t) (hread : Spec.read t = .ok spec) :
    (tryLoadSpec path).exec world = (.ok (.ok spec), world) := by
  rw [tryLoadSpec, exec_bind (exec_readText hholds)]
  dsimp only
  rw [hread]
  rfl

/-- So it is where no other one will do. -/
theorem exec_loadSpec (hholds : world.Holds path t) (hread : Spec.read t = .ok spec) :
    (loadSpec path).exec world = (.ok spec, world) := by
  rw [loadSpec, exec_bind (exec_tryLoadSpec hholds hread)]
  rfl

/-- Loading a specification prints nothing. -/
theorem loadSpecOrBuiltin_ensures (sort : Option Text) (lines : List Text) :
    Ensures (fun world => world.printedLines = lines) (loadSpecOrBuiltin sort) fun _ world =>
      world.printedLines = lines := by
  have hlog : ∀ level message, Ensures (fun world => world.printedLines = lines)
      (log level message) fun _ world => world.printedLines = lines := by
    intro level message
    refine ⟨?_⟩
    rintro world _ _ hlines ⟨⟩
    show (world.journal ++ [Notice.logged level message]).filterMap Notice.printed? = lines
    rw [List.filterMap_append]
    exact (List.append_nil _).trans hlines
  cases sort with
  | none => exact (hlog ..).bind fun _ => .pure _ fun _ hlines => hlines
  | some file =>
    have htry : Ensures (fun world => world.printedLines = lines)
        (tryLoadSpec (Path.ofText file)) fun _ world => world.printedLines = lines := by
      refine (Ensures.readText _).bind fun found => ?_
      cases found with
      | error error => exact .pure _ fun _ hlines => hlines
      | ok document =>
        dsimp only
        split
        · exact .pure _ fun _ hlines => hlines
        · exact .pure _ fun _ hlines => hlines
        · exact .of_still fun _ => rfl
    refine htry.bind fun found => ?_
    cases found with
    | error error => exact (hlog ..).bind fun _ => .pure _ fun _ hlines => hlines
    | ok spec => exact (hlog ..).bind fun _ => .pure _ fun _ hlines => hlines

/-- A specification that is wished for is loaded from a file that holds a document of it. -/
theorem exec_loadSpecOrBuiltin {file : Text} (hholds : world.Holds (Path.ofText file) t)
    (hread : Spec.read t = .ok spec) :
    ∃ mid, (loadSpecOrBuiltin (some file)).exec world = (.ok spec, mid) := by
  have htry := exec_tryLoadSpec hholds hread
  exact ⟨_, by rw [loadSpecOrBuiltin, exec_bind htry]; rfl⟩

/-- The request is answered with exit code 0, and with these lines printed. -/
def Request.Prints (request : Request) (pauses : List Pause) (world : World)
    (lines : List Text) : Prop :=
  ∃ last, (request.run pauses).exec world.muted = (.ok 0, last) ∧ last.printedLines = lines

/-- The command prints the document of the specification that it has loaded. -/
theorem prints_of_load {spec : Spec} {sort : Option Text} {mid : World}
    (hload : (loadSpecOrBuiltin sort).exec world.muted = (.ok spec.stored, mid))
    (pauses : List Pause) : (Request.spec sort).Prints pauses world [spec.write] := by
  refine ⟨mid.report (.printed spec.write), ?_, ?_⟩
  · rw [Request.run, exec_bind hload, ← spec.write_stored]
    rfl
  · have hsilent := (loadSpecOrBuiltin_ensures sort []).holds _ _ _ rfl hload
    show (mid.journal ++ [Notice.printed spec.write]).filterMap Notice.printed? = _
    rw [List.filterMap_append, show mid.journal.filterMap Notice.printed? = [] from hsilent]
    rfl

/-- Printing and loading a specification are inverse. Whatever specification the command has, it
prints its document. A file with this document, with or without the line end behind it, is loaded as
the specification, without a fault; and the command prints the same when it is given the file. -/
theorem printed_spec_loads (spec : Spec) :
    (∀ sort pauses world mid, (loadSpecOrBuiltin sort).exec world.muted = (.ok spec.stored, mid) →
      (Request.spec sort).Prints pauses world [spec.write]) ∧
    ∀ ending, (ending = [] ∨ ending = ['\n']) → ∀ (world : World) path after,
      world.writeBytes path (encodeText (spec.write ++ ending)) = .ok after →
      (loadSpec path).exec after = (.ok spec.stored, after) ∧
      ∀ file pauses, Path.ofText file = path →
        (Request.spec (some file)).Prints pauses after [spec.write] := by
  refine ⟨fun _ pauses _ _ hload => prints_of_load hload pauses, ?_⟩
  intro ending hending world path after hwrite
  have hspaces : ending.all isJsonSpace = true := by rcases hending with rfl | rfl <;> rfl
  have hread := spec.read_write hspaces
  have hreturn : '\r' ∉ spec.write ++ ending := by
    intro hc
    rcases List.mem_append.mp hc with hc | hc
    · exact spec.not_mem_write (by decide) hc
    · rcases hending with rfl | rfl <;> simp at hc
  have hholds := World.holds_of_writeBytes hreturn hwrite
  refine ⟨exec_loadSpec hholds hread, fun file pauses hpath => ?_⟩
  have hmuted : after.muted.Holds (Path.ofText file) (spec.write ++ ending) := hpath ▸ hholds
  obtain ⟨mid, hload⟩ := exec_loadSpecOrBuiltin hmuted hread
  exact prints_of_load hload pauses

/-- A specification with quotes, a backslash, control characters and characters of higher planes,
with an empty keyword and an empty category. -/
def oddSpec : Spec :=
  [⟨"say \"\\\n\x01\x7f\u00e9\u2028".toList, ["😀...".toList, [], "a/b\r".toList]⟩, ⟨[], []⟩]

/-- An odd specification is printed by its command and loaded from the file it is stored in. -/
theorem printed_spec_loads_odd :
    ∃ after, World.writeBytes {} (Path.ofText "s.json".toList)
        (encodeText (oddSpec.write ++ ['\n'])) = .ok after ∧
      (loadSpec (Path.ofText "s.json".toList)).exec after = (.ok oddSpec.stored, after) ∧
      (Request.spec (some "s.json".toList)).Prints [] after [oddSpec.write] := by
  obtain ⟨hload, hprint⟩ := (printed_spec_loads oddSpec).2 ['\n'] (Or.inr rfl) {}
    (Path.ofText "s.json".toList) _ rfl
  exact ⟨_, rfl, hload, hprint "s.json".toList [] rfl⟩

end Storage

end StyleModules
