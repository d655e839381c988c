import StyleModules.Proofs.Files.Effect

/-!
# Stamps and the clock

All stamps in use lie below the clock, and the clock never goes back (`Store.Dated`). So a stamp
that a write hands out has never been seen. After a write, a path shows the stamp it had, or one
that was not in use before (`World.stamp?_of_writeBytes`).
-/

namespace StyleModules

namespace Store

/-- All stamps in use lie below the clock, which is not before the floor. -/
structure Dated (store : Store) (floor : Nat) : Prop where
  positive : 0 < store.clock
  floor_le : floor ≤ store.clock
  below : ∀ e ∈ store.entries, ∀ stamp, e.2.stamp? = some stamp → stamp < store.clock

variable {store : Store} {floor : Nat} {location other : Location} {entry : Entry}

/-- What is found has a stamp below the clock; the root has the first stamp of all. -/
theorem Dated.stamp_lt (h : store.Dated floor) (hf : store.find? location = some entry)
    {stamp : Nat} (hs : entry.stamp? = some stamp) : stamp < store.clock := by
  by_cases hl : location = []
  · subst hl
    cases hf
    obtain rfl : 0 = stamp := Option.some.inj hs
    exact h.positive
  · exact h.below _ (mem_entries_of_find? hf hl) stamp hs

/-- A stamp that is handed out is in use from then on. -/
theorem Dated.put_tick (h : store.Dated floor) (location : Location)
    (hentry : ∀ stamp, entry.stamp? = some stamp → stamp ≤ store.clock) :
    (store.put location entry).tick.Dated floor where
  positive := Nat.succ_pos _
  floor_le := Nat.le_succ_of_le h.floor_le
  below e he stamp hs := by
    rcases List.mem_cons.mp he with rfl | he
    · exact Nat.lt_succ_of_le (hentry stamp hs)
    · exact Nat.lt_succ_of_lt (h.below e (List.mem_filter.mp he).1 stamp hs)

/-- A fresh stamp for a directory keeps all stamps below the clock. -/
theorem Dated.renew (h : store.Dated floor) (location : Location) :
    (store.renew location).Dated floor := by
  unfold Store.renew
  split
  · exact h.put_tick location fun stamp hs => Nat.le_of_eq (Option.some.inj hs).symm
  · exact h

/-- Writing a file keeps all stamps below the clock. -/
theorem Dated.writeFile (h : store.Dated floor) (location : Location) (bytes : ByteArray) :
    (store.writeFile location bytes).Dated floor := by
  have hput : (store.tick.put location (.file bytes store.clock)).Dated floor :=
    h.put_tick location fun stamp hs => Nat.le_of_eq (Option.some.inj hs).symm
  rw [Store.writeFile, place]
  split
  · exact hput
  · exact hput.renew _

/-- Entries may come to other places, and some may go. -/
theorem Dated.of_entries (h : store.Dated floor) {entries : List (Location × Entry)}
    (hentries : ∀ e ∈ entries, ∃ old ∈ store.entries, old.2 = e.2) :
    Dated { store with entries := entries } floor where
  positive := h.positive
  floor_le := h.floor_le
  below e he stamp hs := by
    obtain ⟨old, hold, heq⟩ := hentries e he
    exact h.below old hold stamp (heq ▸ hs)

/-- Moving an entry keeps all stamps below the clock. -/
theorem Dated.move (h : store.Dated floor) (source target : Location) :
    (store.move source target).Dated floor := by
  unfold Store.move
  split
  · exact h
  · refine Dated.renew (Dated.renew (h.of_entries fun e he => ?_) _) _
    obtain ⟨old, hold, rfl⟩ := List.mem_map.mp he
    exact ⟨old, (List.mem_filter.mp hold).1, rfl⟩

/-- The clock may be taken for the floor. -/
theorem Dated.raise (h : store.Dated floor) : store.Dated store.clock :=
  ⟨h.positive, Nat.le_refl _, h.below⟩

/-- Zero may be taken for the floor. -/
theorem Dated.lower (h : store.Dated floor) : store.Dated 0 := ⟨h.positive, Nat.zero_le _, h.below⟩

/-- A directory with a fresh stamp has one that was not in use. -/
theorem find?_renew (h : (store.renew location).find? other = some entry) :
    store.find? other = some entry ∨ entry.stamp? = some store.clock := by
  unfold renew at h
  split at h
  · by_cases ho : other = location
    · subst ho
      by_cases hl : other = []
      · subst hl
        exact Or.inl h
      · have hself : (store.put other (.directory store.clock)).find? other = some entry := h
        rw [find?_put_self _ hl] at hself
        cases hself
        exact Or.inr rfl
    · exact Or.inl ((find?_put_of_ne store ho _).symm.trans h)
  · exact Or.inl h

/-- After a write an entry is as it was, or has a stamp that was not in use. -/
theorem find?_of_writeFile {bytes : ByteArray} (hne : location ≠ [])
    (h : (store.writeFile location bytes).find? other = some entry) {stamp : Nat}
    (hs : entry.stamp? = some stamp) :
    store.find? other = some entry ∨ store.clock ≤ stamp := by
  have hput : ∀ {found : Entry}, (store.tick.put location (.file bytes store.clock)).find? other =
      some found → found.stamp? = some stamp →
      store.find? other = some found ∨ store.clock ≤ stamp := by
    intro found hfound hstamp
    by_cases ho : other = location
    · subst ho
      rw [find?_put_self _ hne] at hfound
      cases hfound
      exact Or.inr (Nat.le_of_eq (Option.some.inj hstamp))
    · exact Or.inl ((find?_put_of_ne store.tick ho _).symm.trans hfound)
  rw [writeFile, place] at h
  split at h
  · exact hput h hs
  · rcases find?_renew h with hold | hnew
    · exact hput hold hs
    · obtain rfl : store.clock + 1 = stamp := Option.some.inj (hnew.symm.trans hs)
      exact Or.inr (Nat.le_succ _)

end Store

namespace World

variable {world after : World} {path other : Path} {bytes : ByteArray} {floor stamp : Nat}

/-- All stamps in use lie below the clock, which is not before the floor. -/
abbrev Dated (world : World) (floor : Nat) : Prop := world.store.Dated floor

/-- The stamp that a path shows lies below the clock. -/
theorem Dated.stamp?_lt (h : world.Dated floor) (hs : world.stamp? path = some stamp) :
    stamp < world.store.clock := by
  obtain ⟨location, entry, -, hf, hstamp⟩ := exists_of_stamp? hs
  exact h.stamp_lt hf hstamp

/-- Writing keeps all stamps below the clock. -/
theorem Dated.writeBytes (h : world.Dated floor) (hw : world.writeBytes path bytes = .ok after) :
    after.Dated floor := by
  obtain ⟨location, -, -, -, rfl⟩ := writeBytes_eq_ok_iff.mp hw
  exact Store.Dated.writeFile h location bytes

/-- Moving keeps all stamps below the clock. -/
theorem Dated.movePath (h : world.Dated floor) {source target : Path}
    (hm : world.movePath source target = .ok after) : after.Dated floor := by
  obtain ⟨start, goal, -, -, rfl⟩ := movePath_eq_ok_iff.mp hm
  exact Store.Dated.move h start goal

/-- A written file has the stamp that the clock handed out. -/
theorem stamp?_writeBytes (h : world.writeBytes path bytes = .ok after) :
    after.stamp? path = some world.store.clock := by
  obtain ⟨location, hl, -⟩ := writeBytes_eq_ok_iff.mp h
  have hwrote := wrote_of_writeBytes h hl
  have hfile : after.store.seen location = some (.file bytes world.store.clock) := by
    rw [hwrote.seen, if_pos rfl]
  rw [stamp?_of_locate ((locate_eq_ok_congr hwrote.here hwrote.directories path).mpr hl),
    Store.seen_eq_file_iff.mp hfile]
  rfl

/-- After a write a path shows the stamp it had, or one that was not in use. -/
theorem stamp?_of_writeBytes (h : world.writeBytes path bytes = .ok after)
    (hs : after.stamp? other = some stamp) :
    world.stamp? other = some stamp ∨ world.store.clock ≤ stamp := by
  obtain ⟨location, hl, hd, -, rfl⟩ := writeBytes_eq_ok_iff.mp h
  have hwrote := wrote_of_writeBytes h hl
  obtain ⟨place, entry, hplace, hf, hstamp⟩ := exists_of_stamp? hs
  have hold := (locate_eq_ok_congr hwrote.here hwrote.directories other).mp hplace
  have hne : location ≠ [] := by
    rintro rfl
    cases hd
  rcases Store.find?_of_writeFile hne hf hstamp with hfound | hnew
  · rw [stamp?_of_locate hold, hfound]
    exact Or.inl hstamp
  · exact Or.inr hnew

end World

end StyleModules
