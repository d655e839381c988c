import StyleModules.Files.World

/-!
# Writing a file that is there

A world holds a text at a path if there is a file at the path whose bytes decode to the text.
Writing to such a path succeeds. Afterwards the file holds what was written, as long as that has no
carriage return, and all files at other locations hold what they held: no path leads elsewhere,
because a file takes the place of a file (`World.Holds.write`).
-/

namespace StyleModules

namespace Store

/-- What is found in a store after a file that is there has been written. -/
theorem find?_writeFile {store : Store} {location : Location} {old : ByteArray} {stamp : Nat}
    (h : store.find? location = some (.file old stamp)) (bytes : ByteArray) (other : Location) :
    (store.writeFile location bytes).find? other =
      if other = location then some (.file bytes store.clock) else store.find? other := by
  have hne : location ≠ [] := by
    rintro rfl
    simp [find?] at h
  have hsome : (store.tick.find? location).isSome = true := by
    rw [show store.tick.find? location = store.find? location from rfl, h]
    rfl
  rw [writeFile, place, if_pos hsome]
  split
  · next he => rw [he, find?_put_self _ hne]
  · next he => exact find?_put_of_ne _ he _

end Store

namespace World

/-- Paths lead to the same places in stores that differ only in what files hold. -/
theorem walk_congr {store other : Store}
    (h : ∀ location, other.find? location = store.find? location ∨
      ∃ old stamp bytes clock, store.find? location = some (.file old stamp) ∧
        other.find? location = some (.file bytes clock)) (location : Location)
    (names : List Text) : walk other location names = walk store location names := by
  induction names generalizing location with
  | nil => rfl
  | cons name names ih =>
    rcases h location with he | ⟨old, stamp, bytes, clock, hs, ho⟩
    · rw [walk, walk, he]
      simp only [ih]
    · rw [walk, walk, hs, ho]

/-- Names are followed one after the other. -/
theorem walk_append (store : Store) (location : Location) (names more : List Text) :
    walk store location (names ++ more) =
      match walk store location names with
      | .error error => .error error
      | .ok reached => walk store reached more := by
  induction names generalizing location with
  | nil => rfl
  | cons name names ih =>
    rw [List.cons_append, walk, walk]
    split
    · split
      · exact ih _
      · split
        · exact ih _
        · exact ih _
    · rfl
    · rfl

/-- The file at the path holds the text. -/
def Holds (world : World) (path : Path) (t : Text) : Prop :=
  ∃ bytes, world.readBytes path = .ok bytes ∧ decodeText? bytes = some t

/-- A path that holds a text leads to a file. -/
theorem exists_of_readBytes {world : World} {path : Path} {bytes : ByteArray}
    (h : world.readBytes path = .ok bytes) :
    ∃ location stamp, world.locate path = .ok location ∧
      world.store.find? location = some (.file bytes stamp) := by
  unfold readBytes entry at h
  split at h
  · cases h
  · next found stamp he =>
    split at he
    · cases he
    · next location hl =>
      split at he
      · cases he
      · cases he
      · next entry _ hf =>
        cases h
        cases he
        exact ⟨location, stamp, hl, hf⟩
  · cases h

/-- The bytes of the file at a place are read by a path that leads there. -/
theorem readBytes_of_find? {world : World} {path : Path} {location : Location} {bytes : ByteArray}
    {stamp : Nat} (hl : world.locate path = .ok location)
    (hf : world.store.find? location = some (.file bytes stamp)) :
    world.readBytes path = .ok bytes := by
  simp only [readBytes, entry, hl, hf]

/-- A path at which a text is held exists. -/
theorem pathExists_of_holds {world : World} {path : Path} {t : Text} (h : world.Holds path t) :
    world.pathExists path = true := by
  obtain ⟨bytes, hb, _⟩ := h
  obtain ⟨location, stamp, hl, hf⟩ := exists_of_readBytes hb
  simp only [pathExists, entry, hl, hf]

/-- A text is written to a file that is there, and no file elsewhere changes. -/
theorem Holds.write {world : World} {path : Path} {old t : Text} (h : world.Holds path old)
    (ht : '\r' ∉ t) :
    ∃ after, world.writeBytes path (encodeText t) = .ok after ∧ after.Holds path t ∧
      ∀ (other : Path) (u : Text), world.Holds other u → world.locate other ≠ world.locate path →
        after.Holds other u := by
  obtain ⟨bytes, hb, _⟩ := h
  obtain ⟨location, stamp, hl, hf⟩ := exists_of_readBytes hb
  have hfind := Store.find?_writeFile hf (encodeText t)
  have hwalk : ∀ start names, walk (world.store.writeFile location (encodeText t)) start names =
      walk world.store start names := by
    refine walk_congr fun place => ?_
    rw [hfind]
    split
    · next he => exact Or.inr ⟨bytes, stamp, _, _, he ▸ hf, rfl⟩
    · exact Or.inl rfl
  refine ⟨{ world with store := world.store.writeFile location (encodeText t) }, ?_, ?_, ?_⟩
  · simp only [writeBytes, hl, hf]
  · have hself := hfind location
    rw [if_pos rfl] at hself
    refine ⟨encodeText t, readBytes_of_find? ((hwalk _ _).trans hl) hself, ?_⟩
    rw [decodeText?_encodeText, universalNewlines_of_no_return ht]
  · rintro other u ⟨content, hc, hu⟩ hne
    obtain ⟨place, mark, hp, hm⟩ := exists_of_readBytes hc
    have hplace : place ≠ location := by
      rintro rfl
      exact hne (hp.trans hl.symm)
    have hother := hfind place
    rw [if_neg hplace, hm] at hother
    exact ⟨content, readBytes_of_find? ((hwalk _ _).trans hp) hother, hu⟩

end World

namespace Session

variable {α β : Type} {world after : World}

/-- An operation that ends with a value hands it on. -/
theorem exec_bind {action : Session α} {value : α}
    (h : action.exec world = (.ok value, after)) (next : α → Session β) :
    (action >>= next).exec world = (next value).exec after := by
  unfold exec at h ⊢
  rw [ExceptT.run_bind, StateT.run_bind, h]
  rfl

/-- A value ends an operation without a change. -/
theorem exec_pure (value : α) (world : World) :
    (pure value : Session α).exec world = (.ok value, world) := rfl

/-- Looking at the world changes nothing. -/
theorem exec_look (view : World → α) (world : World) :
    (look view).exec world = (.ok (view world), world) := rfl

/-- A file is read as the text that it holds. -/
theorem exec_readText {path : Path} {t : Text} (h : world.Holds path t) :
    (readText path).exec world = (.ok (.ok t), world) := by
  obtain ⟨bytes, hb, ht⟩ := h
  rw [readText, exec_bind (exec_look _ world)]
  simp only [hb, ht]
  rfl

/-- A file that can be written is written. -/
theorem exec_writeText {path : Path} {t : Text}
    (h : world.writeBytes path (encodeText t) = .ok after) :
    (writeText path t).exec world = (.ok (), after) := by
  have hget : (get : Session World).exec world = (.ok world, world) := rfl
  rw [writeText, change, exec_bind hget]
  simp only [h]
  rfl

end Session

end StyleModules
