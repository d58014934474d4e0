import Cadence.Proofs.World.Sound

/-!
Detaching, marking and flushing keep the invariant of a world. A flush frees the pending entities one after the
other; the invariant holds in between if the queue is taken to hold the entities that are still to be freed.
-/

namespace Cadence.World

/-- An attached component is in the list of its owner, who is live. -/
theorem SoundStore.owner_of_attached {w : World} (hw : w.SoundStore) {h : Handle} {owner : Entity} {c : Component}
    (hentry : w.store.entries.get? h = some ⟨owner, .attached, c⟩) :
    ∃ slot, w.slots[owner.id]? = some slot ∧ slot.generation = owner.generation ∧ slot.state = some .live ∧
      h ∈ slot.handles := by
  have hrelease : h ∉ w.store.releases := by
    intro hmem
    obtain ⟨_, _, hdetached⟩ := hw.entry_of_mem_releases hmem
    rw [hentry] at hdetached
    cases hdetached
  obtain ⟨slot, hslot, hmem⟩ := hw.placed hentry hrelease
  obtain ⟨l, _, hl, hsame⟩ := hw.entry_of_mem_handles hslot hmem
  rw [hentry, Option.some.injEq, Store.Entry.mk.injEq] at hsame
  obtain ⟨howner, hattachment, _⟩ := hsame
  refine ⟨slot, hslot, by rw [howner], ?_, hmem⟩
  cases l with
  | live => exact hl
  | pending => cases hattachment

/-- The lists of two slots have no handle in common. -/
theorem SoundStore.id_eq {w : World} (hw : w.SoundStore) {id id' : Nat} {slot slot' : Slot} {h : Handle}
    (hslot : w.slots[id]? = some slot) (hslot' : w.slots[id']? = some slot') (hmem : h ∈ slot.handles)
    (hmem' : h ∈ slot'.handles) : id = id' := by
  obtain ⟨_, _, _, hentry⟩ := hw.entry_of_mem_handles hslot hmem
  obtain ⟨_, _, _, hentry'⟩ := hw.entry_of_mem_handles hslot' hmem'
  rw [hentry, Option.some.injEq, Store.Entry.mk.injEq, Entity.mk.injEq] at hentry'
  exact hentry'.1.1

/-- A component moves from the list of its owner to the queue for release. -/
theorem SoundStore.detached {w w' : World} (hw : w.SoundStore) {h : Handle} {owner : Entity} {c : Component} {slot : Slot}
    (hslot : w.slots[owner.id]? = some slot) (hmem : h ∈ slot.handles)
    (hslots : w'.slots = w.slots.modify owner.id fun slot => { slot with handles := slot.handles.filter (· ≠ h) })
    (hsound : w'.store.entries.Sound)
    (hget : ∀ h', w'.store.entries.get? h' = if h' = h then some ⟨owner, .detached, c⟩ else w.store.entries.get? h')
    (hreleases : w'.store.releases = w.store.releases.push h) : w'.SoundStore where
  entries := hsound
  handles_nodup {id slot'} hs := by
    rw [hslots] at hs
    obtain ⟨_, rfl⟩ | ⟨_, hs⟩ := getElem?_modify_cases hslot hs
    · rw [Array.toList_filter]
      exact (hw.handles_nodup hslot).filter _
    · exact hw.handles_nodup hs
  entry_of_mem_handles {id slot' h'} hs hmem' := by
    rw [hslots] at hs
    obtain ⟨rfl, rfl⟩ | ⟨hid, hs'⟩ := getElem?_modify_cases hslot hs
    · obtain ⟨hold, hne⟩ : h' ∈ slot.handles ∧ h' ≠ h := by simpa using hmem'
      have hentry := hw.entry_of_mem_handles hslot hold
      rwa [hget, if_neg hne]
    · rw [hget, if_neg]
      · exact hw.entry_of_mem_handles hs' hmem'
      · rintro rfl
        exact hid (hw.id_eq hs' hslot hmem' hmem)
  releases_nodup := by
    rw [hreleases]
    exact nodup_push hw.releases_nodup fun hrelease => hw.not_mem_handles hrelease hslot hmem
  entry_of_mem_releases {h'} hmem' := by
    rw [hget]
    split
    · exact ⟨owner, c, rfl⟩
    · rename_i hne
      rw [hreleases, Array.mem_push] at hmem'
      exact hw.entry_of_mem_releases (hmem'.resolve_right hne)
  not_mem_handles {id slot' h'} hrelease hs := by
    rw [hreleases, Array.mem_push] at hrelease
    rw [hslots] at hs
    obtain ⟨rfl, rfl⟩ | ⟨hid, hs'⟩ := getElem?_modify_cases hslot hs
    · obtain hrelease | rfl := hrelease
      · simpa using fun hold => absurd hold (hw.not_mem_handles hrelease hslot)
      · simp
    · obtain hrelease | rfl := hrelease
      · exact hw.not_mem_handles hrelease hs'
      · exact fun hmem' => hid (hw.id_eq hs' hslot hmem' hmem)
  placed {h' entry} hentry' hrelease := by
    rw [hreleases, Array.mem_push, not_or] at hrelease
    rw [hget, if_neg hrelease.2] at hentry'
    obtain ⟨old, hold, hmem'⟩ := hw.placed hentry' hrelease.1
    rw [hslots]
    refine ⟨_, getElem?_modify_of_some hold _ _, ?_⟩
    split
    · simpa using ⟨hmem', hrelease.2⟩
    · exact hmem'

theorem sound_withDetached {w : World} (hw : w.Sound) {h : Handle} {owner : Entity} {c : Component}
    (hentry : w.store.entries.get? h = some ⟨owner, .attached, c⟩) : (w.withDetached owner h).Sound := by
  obtain ⟨slot, hslot, hgeneration, hstate, hmem⟩ := hw.owner_of_attached hentry
  have hcontains : w.contains owner := by
    simp [contains, state?_eq_some_iff.mpr ⟨slot, hslot, hgeneration, hstate⟩]
  have hslots : (w.withDetached owner h).slots =
      w.slots.modify owner.id fun slot => { slot with handles := slot.handles.filter (· ≠ h) } := by
    simp [withDetached, hcontains]
  have hlife := map_life_modify w.slots owner.id
    (fun slot => { slot with handles := slot.handles.filter (· ≠ h) }) fun _ => rfl
  have hget : ∀ h', (w.withDetached owner h).store.entries.get? h' =
      if h' = h then some ⟨owner, .detached, c⟩ else w.store.entries.get? h' := by
    intro h'
    have hdetach := Store.get?_entries_detach w.store h h'
    rw [hentry] at hdetach
    exact hdetach
  exact ⟨hw.toSoundSlots.congr (hslots ▸ hlife) rfl rfl rfl,
    hw.toSoundStore.detached hslot hmem hslots (Store.sound_detach hw.entries h) hget (by simp [withDetached])⟩

theorem sound_detach {w : World} (hw : w.Sound) (h : Handle) : (w.detach h).2.Sound := by
  rw [detach_eq]
  split
  · exact hw
  · exact sound_withDetached hw ‹_›
  · exact hw

/-! ### Marking -/

theorem SoundSlots.withPending {w : World} (hw : w.SoundSlots) {e : Entity} (hlive : w.state? e = some .live) :
    (w.withPending e).SoundSlots := by
  obtain ⟨slot, hslot, hgeneration, hstate⟩ := state?_eq_some_iff.mp hlive
  have hslots : (w.withPending e).slots = w.slots.modify e.id ({ · with state := some .pending }) := rfl
  have hnotPending : e ∉ w.pending := by
    rw [hw.mem_pending, hlive]
    simp
  refine ⟨?_, nodup_push hw.pending_nodup hnotPending, fun e' => ?_, hw.freeIds_nodup, fun id => ?_⟩
  · have hcount := countP_modify (·.state = some .live) ({ · with state := some .pending }) hslot
    simp only [hstate, decide_true, if_true, reduceCtorEq, Option.some.injEq, decide_false, Bool.false_eq_true,
      if_false] at hcount
    simp only [World.withPending, hw.liveCount_eq, slots_modifySlot]
    omega
  -- `e` has joined those who wait, and everybody else is as before
  · rw [state?_eq_some_iff, hslots]
    simp only [World.withPending, Array.mem_push, hw.mem_pending, state?_eq_some_iff, Array.getElem?_modify]
    by_cases hid : e.id = e'.id
    · have heq : e' = e ↔ slot.generation = e'.generation := by
        cases e
        cases e'
        simp_all [eq_comm]
      simp [← hid, hslot, hstate, heq]
    · have hne : e' ≠ e := fun heq => hid (by rw [heq])
      simp [hid, hne]
  · refine (hw.mem_freeIds id).trans ?_
    rw [hslots]
    simp only [Array.getElem?_modify]
    by_cases hid : e.id = id
    · subst hid
      simp [hslot, hstate]
    · simp [hid]

/-- The components of an entity are detached in the store, and stay in its list. -/
theorem SoundStore.marked {w w' : World} (hw : w.SoundStore) {id : Nat} {slot : Slot} (hslot : w.slots[id]? = some slot)
    (hslots : w'.slots = w.slots.modify id ({ · with state := some .pending })) (hsound : w'.store.entries.Sound)
    (hget : ∀ h, w'.store.entries.get? h =
      if h ∈ slot.handles then (w.store.entries.get? h).map Store.Entry.detached else w.store.entries.get? h)
    (hreleases : w'.store.releases = w.store.releases) : w'.SoundStore where
  entries := hsound
  handles_nodup {id' slot'} hs := by
    rw [hslots] at hs
    obtain ⟨_, rfl⟩ | ⟨_, hs'⟩ := getElem?_modify_cases hslot hs
    · have hold := hw.handles_nodup hslot
      exact hold
    · exact hw.handles_nodup hs'
  entry_of_mem_handles {id' slot' h} hs hmem := by
    rw [hslots] at hs
    obtain ⟨rfl, rfl⟩ | ⟨hid, hs'⟩ := getElem?_modify_cases hslot hs
    -- the slot and its components have changed together
    · have hmem' : h ∈ slot.handles := hmem
      obtain ⟨l, c, hl, hentry⟩ := hw.entry_of_mem_handles hslot hmem'
      exact ⟨.pending, c, rfl, by rw [hget, if_pos hmem', hentry]; rfl⟩
    · rw [hget, if_neg fun hmem' => hid (hw.id_eq hs' hslot hmem hmem')]
      exact hw.entry_of_mem_handles hs' hmem
  releases_nodup := hreleases ▸ hw.releases_nodup
  entry_of_mem_releases {h} hmem := by
    rw [hreleases] at hmem
    rw [hget, if_neg (hw.not_mem_handles hmem hslot)]
    exact hw.entry_of_mem_releases hmem
  not_mem_handles {id' slot' h} hrelease hs := by
    rw [hreleases] at hrelease
    rw [hslots] at hs
    obtain ⟨rfl, rfl⟩ | ⟨_, hs'⟩ := getElem?_modify_cases hslot hs
    · have hold := hw.not_mem_handles hrelease hslot
      exact hold
    · exact hw.not_mem_handles hrelease hs'
  placed {h entry} hentry hrelease := by
    rw [hreleases] at hrelease
    obtain ⟨old, hold, howner⟩ : ∃ old, w.store.entries.get? h = some old ∧ entry.owner = old.owner := by
      rw [hget] at hentry
      split at hentry
      · obtain ⟨old, hold, rfl⟩ := Option.map_eq_some_iff.mp hentry
        exact ⟨old, hold, rfl⟩
      · exact ⟨entry, hentry, rfl⟩
    obtain ⟨slot', hs, hmem⟩ := hw.placed hold hrelease
    rw [hslots]
    refine ⟨_, getElem?_modify_of_some (howner ▸ hs) _ _, ?_⟩
    split <;> exact hmem

theorem sound_mark {w : World} (hw : w.Sound) (e : Entity) : (w.mark e).2.Sound := by
  rw [mark_eq]
  split
  · exact hw
  · exact hw
  rename_i hlive
  obtain ⟨slot, hslot, hgeneration, hstate⟩ := state?_eq_some_iff.mp hlive
  rw [foldl_unroute]
  refine ⟨(hw.toSoundSlots.withPending hlive).congr rfl rfl rfl rfl,
    hw.toSoundStore.marked hslot rfl (sound_foldl_detach _ hw.entries) (fun h => ?_) (releases_foldl_detach ..)⟩
  dsimp only
  rw [get?_foldl_detach, handleList_of_slot hslot hgeneration hstate]
  simp [withPending, modifySlot]

theorem sound_markAll {w : World} (hw : w.Sound) (count : Nat) (es : List Entity) :
    (w.markAll count es).2.Sound := markAll_preserves (I := World.Sound) (fun _ e h => sound_mark h e) hw count es

theorem sound_clear {w : World} (hw : w.Sound) (persistentToo : Bool) : (w.clear persistentToo).2.Sound :=
  sound_markAll hw ..

/-! ### Flushing -/

/-- The id of a freed entity is free again, under a new generation. -/
theorem SoundSlots.withFreed {w : World} {e : Entity} {es : List Entity}
    (hw : { w with pending := (e :: es).toArray }.SoundSlots) :
    { w.withFreed e with pending := es.toArray }.SoundSlots := by
  have hpending : w.state? e = some .pending := (hw.mem_pending e).mp (by simp)
  obtain ⟨slot, hslot, hgeneration, hstate⟩ := state?_eq_some_iff.mp hpending
  have hnodup : (e :: es).Nodup := hw.pending_nodup
  rw [List.nodup_cons] at hnodup
  refine ⟨?_, hnodup.2, fun e' => ?_, ?_, fun id => ?_⟩
  -- the slot was not live before, so the count stands
  · have hcount := countP_modify (·.state = some .live)
      (fun slot => ({ generation := slot.generation + 1 } : Slot)) hslot
    simp only [hstate, reduceCtorEq, Option.some.injEq, decide_false, Bool.false_eq_true, if_false] at hcount
    have hlive : w.liveCount = w.slots.countP (·.state = some .live) := hw.liveCount_eq
    simp only [World.withFreed, modifySlot]
    omega
  · have hold : e' ∈ (e :: es).toArray ↔ w.state? e' = some .pending := hw.mem_pending e'
    simp only [List.mem_toArray, state?_eq_some_iff, World.withFreed, slots_modifySlot, Array.getElem?_modify] at hold ⊢
    by_cases hid : e.id = e'.id
    · -- the slot is free, so nobody of this id waits any more; `e` was the only one who did
      simp only [← hid, hslot, Option.map_some, if_true, Option.some.injEq] at hold ⊢
      constructor
      · intro hmem
        obtain ⟨_, rfl, hgeneration', _⟩ := hold.mp (.tail _ hmem)
        have hsame : e' = e := by
          cases e'
          cases e
          simp_all
        exact absurd (hsame ▸ hmem) hnodup.1
      · rintro ⟨_, rfl, _, hnone⟩
        cases hnone
    · have hne : e' ≠ e := fun heq => hid (by rw [heq])
      rw [List.mem_cons, or_iff_right hne] at hold
      simpa [hid] using hold
  -- the id was not free yet: its slot was pending
  · refine List.nodup_cons.mpr ⟨fun hfree => ?_, hw.freeIds_nodup⟩
    obtain ⟨free, hfree, hnone⟩ := (hw.mem_freeIds e.id).mp hfree
    simp_all
  · have hold : id ∈ w.freeIds ↔ ∃ slot, w.slots[id]? = some slot ∧ slot.state = none := hw.mem_freeIds id
    simp only [World.withFreed, slots_modifySlot, Array.getElem?_modify, List.mem_cons]
    by_cases hid : e.id = id
    · subst hid
      simp [hslot]
    · simpa [hid, Ne.symm hid] using hold

/-- The components of a freed entity move from its list to the queue for release. -/
theorem SoundStore.freed {w w' : World} (hw : w.SoundStore) {id : Nat} {slot : Slot} (hslot : w.slots[id]? = some slot)
    (hstate : slot.state = some .pending)
    (hslots : w'.slots = w.slots.modify id fun slot => { generation := slot.generation + 1 })
    (hentries : w'.store.entries = w.store.entries) (hreleases : w'.store.releases = w.store.releases ++ slot.handles) :
    w'.SoundStore where
  entries := hentries ▸ hw.entries
  handles_nodup {id' slot'} hs := by
    rw [hslots] at hs
    obtain ⟨_, rfl⟩ | ⟨_, hs'⟩ := getElem?_modify_cases hslot hs
    · exact List.nodup_nil
    · exact hw.handles_nodup hs'
  entry_of_mem_handles {id' slot' h} hs hmem := by
    rw [hslots] at hs
    obtain ⟨_, rfl⟩ | ⟨_, hs'⟩ := getElem?_modify_cases hslot hs
    · simp at hmem
    · rw [hentries]
      exact hw.entry_of_mem_handles hs' hmem
  releases_nodup := by
    have hdisjoint : ∀ h ∈ w.store.releases, h ∉ slot.handles := fun h hmem => hw.not_mem_handles hmem hslot
    rw [hreleases, Array.toList_append, List.nodup_append]
    refine ⟨hw.releases_nodup, hw.handles_nodup hslot, ?_⟩
    rintro a ha b hb rfl
    exact hdisjoint a (by simpa using ha) (by simpa using hb)
  entry_of_mem_releases {h} hmem := by
    rw [hreleases, Array.mem_append] at hmem
    rw [hentries]
    obtain hmem | hmem := hmem
    · exact hw.entry_of_mem_releases hmem
    · obtain ⟨l, c, hl, hentry⟩ := hw.entry_of_mem_handles hslot hmem
      rw [hstate, Option.some.injEq] at hl
      subst hl
      exact ⟨_, c, hentry⟩
  not_mem_handles {id' slot' h} hrelease hs := by
    rw [hreleases, Array.mem_append] at hrelease
    rw [hslots] at hs
    obtain ⟨_, rfl⟩ | ⟨hid, hs'⟩ := getElem?_modify_cases hslot hs
    · simp
    · obtain hrelease | hrelease := hrelease
      · exact hw.not_mem_handles hrelease hs'
      · exact fun hmem => hid (hw.id_eq hs' hslot hmem hrelease)
  placed {h entry} hentry hrelease := by
    rw [hreleases, Array.mem_append, not_or] at hrelease
    rw [hentries] at hentry
    obtain ⟨old, hold, hmem⟩ := hw.placed hentry hrelease.1
    rw [hslots]
    refine ⟨_, getElem?_modify_of_some hold _ _, ?_⟩
    split
    · rename_i hid
      rw [hid, hslot, Option.some.injEq] at hold
      exact absurd (hold ▸ hmem) hrelease.2
    · exact hmem

theorem sound_withFreed {w : World} {e : Entity} {es : List Entity}
    (hw : { w with pending := (e :: es).toArray }.Sound) :
    { w.withFreed e with pending := es.toArray }.Sound := by
  have hpending : w.state? e = some .pending := (hw.mem_pending e).mp (by simp)
  obtain ⟨slot, hslot, hgeneration, hstate⟩ := state?_eq_some_iff.mp hpending
  refine ⟨hw.toSoundSlots.withFreed, hw.toSoundStore.freed hslot hstate rfl rfl ?_⟩
  simp [withFreed, handleList_of_slot hslot hgeneration hstate]

theorem sound_foldl_free {w : World} {es : List Entity} (hw : { w with pending := es.toArray }.Sound)
    (hempty : w.pending = #[]) (count : Nat) : (es.foldl free (count, w)).2.Sound := by
  induction es generalizing w count with
  | nil => simpa [← hempty] using hw
  | cons e rest ih =>
    -- the queue names nobody who is not pending, so every step does free an entity
    have hpending : w.state? e = some .pending := (hw.mem_pending e).mp (by simp)
    rw [List.foldl_cons, free_of_pending hpending]
    exact ih (sound_withFreed hw) hempty (count + 1)

theorem sound_withReleased {w : World} (hw : w.Sound) : w.withReleased.Sound := by
  have hget : ∀ h, w.withReleased.store.entries.get? h =
      if h ∈ w.store.releases then none else w.store.entries.get? h :=
    Store.get?_entries_releaseScheduled w.store
  have hreleases : w.withReleased.store.releases = #[] := Store.releases_releaseScheduled w.store
  refine ⟨⟨hw.liveCount_eq, hw.pending_nodup, hw.mem_pending, hw.freeIds_nodup, hw.mem_freeIds⟩,
    Store.sound_releaseScheduled hw.entries, hw.handles_nodup, fun {id slot h} hs hmem => ?_, ?_, fun {h} hmem => ?_,
    fun {id slot h} hmem => ?_, fun {h entry} hentry _ => ?_⟩
  · rw [hget, if_neg fun hrelease => hw.not_mem_handles hrelease hs hmem]
    exact hw.entry_of_mem_handles hs hmem
  · simp [hreleases]
  · simp [hreleases] at hmem
  · simp [hreleases] at hmem
  · rw [hget] at hentry
    split at hentry
    · cases hentry
    · exact hw.placed hentry ‹_›

theorem sound_flush {w : World} (hw : w.Sound) : w.flush.2.Sound := by
  rw [snd_flush]
  exact sound_withReleased (sound_foldl_free (by simpa using hw) rfl 0)

end Cadence.World
