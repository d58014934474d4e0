import Cadence.Proofs.World.Deletion

/-!
Runs of changes to a world, the flush and the draining of the queue among them, with any entities and handles.
The main statement describes the worlds that come about from the empty one.
-/

namespace Cadence.World

theorem Sound.withEvents {w : World} (hw : w.Sound) (events : Array Event) : { w with events }.Sound :=
  ⟨⟨hw.liveCount_eq, hw.pending_nodup, hw.mem_pending, hw.freeIds_nodup, hw.mem_freeIds⟩,
    ⟨hw.entries, hw.handles_nodup, hw.entry_of_mem_handles, hw.releases_nodup, hw.entry_of_mem_releases,
      hw.not_mem_handles, hw.placed⟩⟩

/-- Writing to a component leaves its owner and its attachment as they are. -/
theorem Sound.withSet {w : World} (hw : w.Sound) (h : Handle) (c : Component) :
    { w with store := w.store.set h c }.Sound := by
  have hback : ∀ {h' owner a c'}, w.store.entries.get? h' = some ⟨owner, a, c'⟩ →
      ∃ c'', (w.store.set h c).entries.get? h' = some ⟨owner, a, c''⟩ := by
    intro h' owner a c' hentry
    rw [Store.get?_entries_set]
    by_cases hh : h' = h
    · subst hh
      exact ⟨c, by simp [hentry]⟩
    · exact ⟨c', by simpa [hh] using hentry⟩
  refine ⟨⟨hw.liveCount_eq, hw.pending_nodup, hw.mem_pending, hw.freeIds_nodup, hw.mem_freeIds⟩,
    hw.entries.modify _ _, hw.handles_nodup, fun {id slot h'} hs hmem => ?_, hw.releases_nodup,
    fun {h'} hmem => ?_, hw.not_mem_handles, fun {h' entry} hentry hrelease => ?_⟩
  · obtain ⟨l, _, hl, hentry⟩ := hw.entry_of_mem_handles hs hmem
    obtain ⟨c', hentry⟩ := hback hentry
    exact ⟨l, c', hl, hentry⟩
  · obtain ⟨owner, _, hentry⟩ := hw.entry_of_mem_releases hmem
    obtain ⟨c', hentry⟩ := hback hentry
    exact ⟨owner, c', hentry⟩
  · simp only [Store.get?_entries_set] at hentry
    split at hentry
    · rename_i hh
      subst hh
      obtain ⟨old, hold, rfl⟩ := Option.map_eq_some_iff.mp hentry
      have hplaced := hw.placed hold hrelease
      exact hplaced
    · exact hw.placed hentry hrelease

theorem sound_modify {w : World} (hw : w.Sound) (k : Kind) (h : Handle) (f : k.Data → k.Data) :
    (w.modify k h f).2.Sound := by
  rw [modify]
  split
  · exact hw
  · exact hw.withSet ..

theorem sound_perform {w : World} (hw : w.Sound) (edit : Edit Entity Handle) : (w.perform edit).2.Sound := by
  cases edit with
  | spawn persistent => exact sound_spawn hw persistent
  | attach e c => exact sound_attach hw e c
  | detach h => exact sound_detach hw h
  | mark e => exact sound_mark hw e
  | clear persistentToo => exact sound_clear hw persistentToo
  | flush => exact sound_flush hw
  | setPersistent e persistent => exact sound_setPersistent hw e persistent
  | drain => exact hw.withEvents #[]
  | overwrite h c => exact sound_modify hw ..
  | moveTo h x y => exact sound_modify hw ..
  | rotateTo h rotation => exact sound_modify hw ..
  | setVelocity h dx dy => exact sound_modify hw ..

/-- Does changes one after the other; those that fail leave their world too. -/
def run (w : World) (edits : List (Edit Entity Handle)) : World := edits.foldl (fun w edit => (w.perform edit).2) w

theorem run_append (w : World) (xs ys : List (Edit Entity Handle)) : w.run (xs ++ ys) = (w.run xs).run ys :=
  List.foldl_append

theorem sound_run {w : World} (hw : w.Sound) (edits : List (Edit Entity Handle)) : (w.run edits).Sound := by
  induction edits generalizing w with
  | nil => exact hw
  | cons edit rest ih => exact ih (sound_perform hw edit)

/-- `w'` comes from `w` by changes of one sort. -/
def Via (allowed : Edit Entity Handle → Prop) (w w' : World) : Prop :=
  ∃ edits, (∀ edit ∈ edits, allowed edit) ∧ w' = w.run edits

namespace Via

variable {allowed : Edit Entity Handle → Prop} {w w' w'' : World}

theorem refl (w : World) : w.Via allowed w := ⟨[], by simp, rfl⟩

theorem trans (h : w.Via allowed w') (h' : w'.Via allowed w'') : w.Via allowed w'' := by
  obtain ⟨xs, hxs, rfl⟩ := h
  obtain ⟨ys, hys, rfl⟩ := h'
  exact ⟨xs ++ ys, List.forall_mem_append.mpr ⟨hxs, hys⟩, (run_append ..).symm⟩

theorem perform (w : World) (edit : Edit Entity Handle) (hedit : allowed edit) : w.Via allowed (w.perform edit).2 :=
  ⟨[edit], by simp [hedit], rfl⟩

theorem sound (h : w.Via allowed w') (hw : w.Sound) : w'.Sound := by
  obtain ⟨edits, _, rfl⟩ := h
  exact sound_run hw edits

end Via

/-! ### Where components are -/

/-- The handle is in the list of its owner, once, and nowhere else. -/
def IsListed (w : World) (h : Handle) (owner : Entity) : Prop :=
  ∃ slot, w.slot? owner = some slot ∧ slot.handles.toList.count h = 1 ∧ h ∉ w.store.releases ∧
    ∀ (id : Nat) (slot' : Slot), w.slots[id]? = some slot' → h ∈ slot'.handles → id = owner.id

/-- The handle is in the queue for release, once, and nowhere else. -/
def IsQueued (w : World) (h : Handle) : Prop :=
  w.store.releases.toList.count h = 1 ∧
    ∀ (id : Nat) (slot : Slot), w.slots[id]? = some slot → h ∉ slot.handles

theorem SoundStore.isListed_or_isQueued {w : World} (hw : w.SoundStore) {h : Handle} {entry : Store.Entry}
    (hentry : w.store.entries.get? h = some entry) :
    w.IsListed h entry.owner ∨ (entry.attachment = .detached ∧ w.IsQueued h) := by
  by_cases hrelease : h ∈ w.store.releases
  · obtain ⟨_, _, hdetached⟩ := hw.entry_of_mem_releases hrelease
    rw [hentry] at hdetached
    cases hdetached
    refine .inr ⟨rfl, ?_, fun id slot hs => hw.not_mem_handles hrelease hs⟩
    rw [hw.releases_nodup.count, if_pos (by simpa using hrelease)]
  · obtain ⟨slot, hslot, hmem⟩ := hw.placed hentry hrelease
    obtain ⟨l, c, hl, hsame⟩ := hw.entry_of_mem_handles hslot hmem
    have howner : entry.owner = ⟨entry.owner.id, slot.generation⟩ := by
      rw [hentry, Option.some.injEq] at hsame
      rw [hsame]
    refine .inl ⟨slot, slot?_eq_some_iff.mpr ⟨hslot, ?_, by simp [hl]⟩, ?_, hrelease, fun id slot' hs hmem' => ?_⟩
    · rw [howner]
    · rw [(hw.handles_nodup hslot).count, if_pos (by simpa using hmem)]
    · exact hw.id_eq hs hslot hmem' hmem

/-- What an entity in a given state holds. -/
theorem SoundStore.handlesOf {w : World} (hw : w.SoundStore) {e : Entity} {l : Lifecycle}
    (hstate : w.state? e = some l) :
    ∃ hs, w.handlesOf e = .ok hs ∧ hs.toList.Nodup ∧
      ∀ h ∈ hs, ∃ c, w.store.entries.get? h = some ⟨e, l.attachment, c⟩ := by
  obtain ⟨slot, hs, hl⟩ := slot?_of_state? hstate
  obtain ⟨hslot, hgeneration, _⟩ := slot?_eq_some_iff.mp hs
  refine ⟨slot.handles, by simp [World.handlesOf, hs], hw.handles_nodup hslot, fun h hmem => ?_⟩
  obtain ⟨l', c, hl', hentry⟩ := hw.entry_of_mem_handles hslot hmem
  rw [hl, Option.some.injEq] at hl'
  subst hl'
  exact ⟨c, by rw [hentry, hgeneration]⟩

/-- The bookkeeping of every world that comes about from the empty one: the live entities are counted and listed in
the order of their ids, the queue holds the pending ones and the list of free ids the ids that nobody uses, each once;
a live entity holds attached components and a pending one detached components of its own; and a stored component is
in exactly one place, the list of its owner or, once detached, the queue for release. -/
theorem run_empty_bookkeeping (edits : List (Edit Entity Handle)) :
    let w := run empty edits
    (w.liveCount = w.slots.countP (·.state = some .live) ∧ w.liveCount = w.liveEntities.length ∧
      w.liveEntities.Pairwise (·.id < ·.id) ∧ ∀ e, e ∈ w.liveEntities ↔ w.state? e = some .live) ∧
    (w.pending.toList.Nodup ∧ ∀ e, e ∈ w.pending ↔ w.state? e = some .pending) ∧
    (w.freeIds.Nodup ∧ ∀ id, id ∈ w.freeIds ↔ ∃ slot, w.slots[id]? = some slot ∧ slot.state = none) ∧
    (∀ e, w.state? e = some .live → ∃ hs, w.handlesOf e = .ok hs ∧ hs.toList.Nodup ∧
      ∀ h ∈ hs, ∃ c, w.store.entries.get? h = some ⟨e, .attached, c⟩) ∧
    (∀ e, w.state? e = some .pending → ∃ hs, w.handlesOf e = .ok hs ∧ hs.toList.Nodup ∧
      ∀ h ∈ hs, ∃ c, w.store.entries.get? h = some ⟨e, .detached, c⟩) ∧
    (∀ (id : Nat) (slot : Slot), w.slots[id]? = some slot → slot.state = none → slot.handles = #[]) ∧
    (∀ h entry, w.store.entries.get? h = some entry →
      w.IsListed h entry.owner ∨ (entry.attachment = .detached ∧ w.IsQueued h)) ∧
    ∀ h ∈ w.store.releases, ∃ owner c, w.store.entries.get? h = some ⟨owner, .detached, c⟩ := by
  intro w
  have hw : w.Sound := sound_run sound_empty edits
  refine ⟨⟨hw.liveCount_eq, ?_, pairwise_liveEntities w, fun _ => mem_liveEntities⟩,
    ⟨hw.pending_nodup, hw.mem_pending⟩, ⟨hw.freeIds_nodup, hw.mem_freeIds⟩, fun e he => hw.handlesOf he,
    fun e he => hw.handlesOf he, fun _ _ => hw.handles_of_state, fun _ _ => hw.isListed_or_isQueued,
    fun _ => hw.entry_of_mem_releases⟩
  rw [length_liveEntities]
  exact hw.liveCount_eq

end Cadence.World
