import Cadence.Proofs.World.Run

/-!
The flush, read off slot by slot and handle by handle. Pending entities and detached components go, and nothing else
changes.
-/

namespace Cadence.World

/-- A slot after a flush. -/
def Slot.flushed (slot : Slot) : Slot :=
  if slot.state = some .pending then { generation := slot.generation + 1 } else slot

theorem Slot.flushed_eq_self {slot : Slot} (h : slot.state ≠ some .pending) : slot.flushed = slot := if_neg h

theorem foldl_free_frame (es : List Entity) (count : Nat) (w : World) :
    (es.foldl free (count, w)).2.store.entries = w.store.entries ∧ (es.foldl free (count, w)).2.events = w.events := by
  induction es generalizing count w with
  | nil => exact ⟨rfl, rfl⟩
  | cons e rest ih =>
    rw [List.foldl_cons]
    have hone : (free (count, w) e).2.store.entries = w.store.entries ∧ (free (count, w) e).2.events = w.events := by
      rw [free]
      dsimp only
      split
      · exact ⟨rfl, rfl⟩
      · split
        · exact ⟨rfl, rfl⟩
        · simp [Store.foldl_scheduleRelease, modifySlot]
    obtain ⟨hentries, hevents⟩ := ih (free (count, w) e).1 (free (count, w) e).2
    exact ⟨hentries.trans hone.1, hevents.trans hone.2⟩

/-- The world of a flush between its two halves: the entities are freed, and their components wait for release. -/
def freed (w : World) : World := (w.pending.toList.foldl free (0, { w with pending := #[] })).2

theorem flush_eq_withReleased (w : World) : w.flush.2 = w.freed.withReleased := rfl

theorem sound_freed {w : World} (hw : w.Sound) : w.freed.Sound := sound_foldl_free (by simpa using hw) rfl 0

theorem entries_freed (w : World) : w.freed.store.entries = w.store.entries := (foldl_free_frame ..).1

theorem events_freed (w : World) : w.freed.events = w.events := (foldl_free_frame ..).2

theorem pending_foldl_free (es : List Entity) (count : Nat) (w : World) :
    (es.foldl free (count, w)).2.pending = w.pending := by
  induction es generalizing count w with
  | nil => rfl
  | cons e rest ih =>
    rw [List.foldl_cons]
    refine (ih (free (count, w) e).1 (free (count, w) e).2).trans ?_
    rw [free]
    dsimp only
    split
    · rfl
    · split <;> rfl

/-- Nobody is pending any more once the entities have been freed. -/
theorem state?_freed_ne_pending {w : World} (hw : w.Sound) (e : Entity) : w.freed.state? e ≠ some .pending := by
  have hpending : w.freed.pending = #[] := pending_foldl_free ..
  rw [ne_eq, ← (sound_freed hw).mem_pending, hpending]
  simp

/-! ### Slots -/

theorem getElem?_slots_foldl_free {w : World} {es : List Entity} (hw : { w with pending := es.toArray }.Sound)
    (count id : Nat) : (es.foldl free (count, w)).2.slots[id]? = (w.slots[id]?).map Slot.flushed := by
  induction es generalizing w count with
  | nil =>
    cases hslot : w.slots[id]? with
    | none => simp [hslot]
    | some slot =>
      -- whoever is pending is in the queue, and the queue is empty
      have hnot : slot.state ≠ some .pending := by
        intro hstate
        have hmem := (hw.mem_pending ⟨id, slot.generation⟩).mpr (state?_eq_some_iff.mpr ⟨slot, hslot, rfl, hstate⟩)
        simp at hmem
      simp [hslot, Slot.flushed_eq_self hnot]
  | cons e rest ih =>
    have hpending : w.state? e = some .pending := (hw.mem_pending e).mp (by simp)
    obtain ⟨slot, hslot, _, hstate⟩ := state?_eq_some_iff.mp hpending
    rw [List.foldl_cons, free_of_pending hpending, ih (sound_withFreed hw)]
    simp only [withFreed, slots_modifySlot, Array.getElem?_modify]
    by_cases hid : e.id = id
    · subst hid
      simp [hslot, Slot.flushed, hstate]
    · simp [hid]

theorem getElem?_slots_flush {w : World} (hw : w.Sound) (id : Nat) :
    w.flush.2.slots[id]? = (w.slots[id]?).map Slot.flushed :=
  getElem?_slots_foldl_free (w := { w with pending := #[] }) (by simpa using hw) 0 id

/-- Those who are live stay as they are, with all that their slots hold. -/
theorem slot?_flush_of_live {w : World} (hw : w.Sound) {e : Entity} (h : w.state? e = some .live) :
    w.flush.2.slot? e = w.slot? e := by
  obtain ⟨slot, hslot, hstate⟩ := slot?_of_state? h
  obtain ⟨hget, hgeneration, hsome⟩ := slot?_eq_some_iff.mp hslot
  rw [hslot, slot?_eq_some_iff, getElem?_slots_flush hw, hget]
  exact ⟨congrArg some (Slot.flushed_eq_self (by simp [hstate])), hgeneration, hsome⟩

theorem state?_flush {w : World} (hw : w.Sound) (e : Entity) :
    w.flush.2.state? e = (w.state? e).filter (· = .live) := by
  cases hstate : w.state? e with
  | none =>
    rw [Option.filter_none, Option.eq_none_iff_forall_ne_some]
    intro l hl
    obtain ⟨slot', hslot', hgeneration, hl⟩ := state?_eq_some_iff.mp hl
    obtain ⟨slot, hslot, rfl⟩ := Option.map_eq_some_iff.mp ((getElem?_slots_flush hw e.id).symm.trans hslot')
    by_cases hpending : slot.state = some .pending
    · simp [Slot.flushed, hpending] at hl
    · rw [Slot.flushed_eq_self hpending] at hgeneration hl
      simp [state?_eq_some_iff.mpr ⟨slot, hslot, hgeneration, hl⟩] at hstate
  | some l =>
    cases l with
    | live => simpa [state?, slot?_flush_of_live hw hstate, Option.filter_some] using hstate
    | pending =>
      obtain ⟨slot, hslot, hgeneration, hpending⟩ := state?_eq_some_iff.mp hstate
      have hflushed := getElem?_slots_flush hw e.id
      rw [hslot] at hflushed
      simp [state?, slot?, hflushed, Slot.flushed, hpending, Option.filter_some]

/-! ### Components -/

/-- A component is released exactly if it was detached. -/
theorem get?_entries_flush {w : World} (hw : w.Sound) (h : Handle) :
    w.flush.2.store.entries.get? h = (w.store.entries.get? h).filter (·.attachment = .attached) := by
  have hfreed := sound_freed hw
  have hget : w.flush.2.store.entries.get? h =
      if h ∈ w.freed.store.releases then none else w.freed.store.entries.get? h :=
    Store.get?_entries_releaseScheduled w.freed.store h
  rw [hget, ← entries_freed w]
  split
  · rename_i hrelease
    obtain ⟨owner, c, hentry⟩ := hfreed.entry_of_mem_releases hrelease
    simp [hentry, Option.filter_some]
  rename_i hrelease
  cases hentry : w.freed.store.entries.get? h with
  | none => simp
  | some entry =>
    -- what is not released is in the list of somebody, and nobody is pending any more
    obtain ⟨slot, hslot, hmem⟩ := hfreed.placed hentry hrelease
    obtain ⟨l, c, hl, hsame⟩ := hfreed.entry_of_mem_handles hslot hmem
    have hlive : l = .live := by
      cases l with
      | live => rfl
      | pending =>
        have hpending := state?_eq_some_iff (e := ⟨entry.owner.id, slot.generation⟩).mpr ⟨slot, hslot, rfl, hl⟩
        exact absurd hpending (state?_freed_ne_pending hw _)
    rw [hentry, Option.some.injEq] at hsame
    have hattached : entry.attachment = .attached := by
      rw [hsame, hlive]
      rfl
    simp [Option.filter_some, hattached]

/-- The entries of a flushed world are those of before, some of them removed. -/
theorem exists_releases_flush (w : World) :
    ∃ hs : List Handle, w.flush.2.store.entries = hs.foldl (fun entries h => (entries.remove h).2) w.store.entries := by
  refine ⟨w.freed.store.releases.toList, ?_⟩
  rw [flush_eq_withReleased, withReleased, Store.releaseScheduled_snd, entries_freed]

/-! ### Events -/

theorem events_flush_eq_filter (w : World) :
    w.flush.2.events = w.events.filter fun event => w.store.attachment? event.handle == some .attached := by
  rw [flush_eq_withReleased, withReleased]
  simp only [events_freed, Store.attachment?, entries_freed]

/-! ### What goes and what stays -/

/-- `w'` lacks the pending entities and the detached components of `w`; the live entities are as they were, with their
components, and so is every other component. -/
structure DropsDeleted (w w' : World) : Prop where
  entities : ∀ e, w.contains e ∧ ¬ w'.contains e ↔ w.state? e = some .pending
  components : ∀ h, w.store.contains h ∧ ¬ w'.store.contains h ↔ w.store.attachment? h = some .detached
  live : ∀ e, w.state? e = some .live →
    w'.state? e = some .live ∧ w'.isPersistent e = w.isPersistent e ∧ w'.handlesOf e = w.handlesOf e ∧
      ∀ hs, w.handlesOf e = .ok hs → ∀ h ∈ hs, w'.store.get? h = w.store.get? h
  attached : ∀ h, w.store.attachment? h = some .attached →
    w'.store.get? h = w.store.get? h ∧ w'.store.owner? h = w.store.owner? h ∧ w'.store.attachment? h = some .attached
  nothingNew : (∀ e, w'.contains e → w.contains e) ∧ ∀ h, w'.store.contains h → w.store.contains h

theorem entry_flush_of_attached {w : World} (hw : w.Sound) {h : Handle}
    (hattached : w.store.attachment? h = some .attached) :
    w.flush.2.store.entries.get? h = w.store.entries.get? h := by
  obtain ⟨entry, hentry, hsame⟩ := Option.map_eq_some_iff.mp hattached
  rw [get?_entries_flush hw, hentry]
  simp [Option.filter_some, hsame]

theorem dropsDeleted_flush {w : World} (hw : w.Sound) : w.DropsDeleted w.flush.2 where
  entities e := by
    rw [contains, contains, state?_flush hw]
    rcases w.state? e with _ | _ | _ <;> simp [Option.filter_some]
  components h := by
    rw [Store.contains, Store.contains, Arena.contains, Arena.contains, get?_entries_flush hw, Store.attachment?]
    rcases w.store.entries.get? h with _ | ⟨_, _ | _, _⟩ <;> simp [Option.filter_some]
  live e hlive := by
    have hslot := slot?_flush_of_live hw hlive
    refine ⟨by rw [state?, hslot]; exact hlive, by rw [isPersistent, hslot]; rfl, by rw [World.handlesOf, hslot]; rfl,
      fun hs hhs h hmem => ?_⟩
    obtain ⟨hs', hhs', _, hentries⟩ := hw.handlesOf hlive
    rw [hhs', Except.ok.injEq] at hhs
    subst hhs
    obtain ⟨c, hentry⟩ := hentries h hmem
    have hattached : w.store.attachment? h = some .attached := by simp [Store.attachment?, hentry, Lifecycle.attachment]
    rw [Store.get?, entry_flush_of_attached hw hattached]
    rfl
  attached h hattached := by
    have hentry := entry_flush_of_attached hw hattached
    rw [Store.get?, Store.owner?, Store.attachment?, hentry]
    exact ⟨rfl, rfl, hattached⟩
  nothingNew := by
    constructor
    · intro e
      rw [contains, contains, state?_flush hw]
      rcases w.state? e with _ | _ | _ <;> simp [Option.filter_some]
    · intro h
      rw [Store.contains, Store.contains, Arena.contains, Arena.contains, get?_entries_flush hw]
      rcases w.store.entries.get? h with _ | _ <;> simp

end Cadence.World
