import Cadence.Proofs.Store
import Cadence.World.Edit

/-!
The operations of a world, each as one equation that says when it fails and which world it leaves. The worlds left
by the operations that succeed are named here, with what can be read in them.
-/

namespace Cadence.World

/-! ### Slots and states -/

theorem slot?_eq_some_iff {w : World} {e : Entity} {slot : Slot} :
    w.slot? e = some slot ↔
      w.slots[e.id]? = some slot ∧ slot.generation = e.generation ∧ slot.state.isSome := by
  simp [slot?, Option.filter_eq_some_iff]

theorem state?_eq_some_iff {w : World} {e : Entity} {l : Lifecycle} :
    w.state? e = some l ↔
      ∃ slot, w.slots[e.id]? = some slot ∧ slot.generation = e.generation ∧ slot.state = some l := by
  simp only [state?, Option.bind_eq_some_iff, slot?_eq_some_iff]
  constructor
  · rintro ⟨slot, ⟨hslot, hgeneration, _⟩, hstate⟩
    exact ⟨slot, hslot, hgeneration, hstate⟩
  · rintro ⟨slot, hslot, hgeneration, hstate⟩
    exact ⟨slot, ⟨hslot, hgeneration, by simp [hstate]⟩, hstate⟩

theorem slot?_of_state? {w : World} {e : Entity} {l : Lifecycle} (h : w.state? e = some l) :
    ∃ slot, w.slot? e = some slot ∧ slot.state = some l := by
  simpa [state?, Option.bind_eq_some_iff] using h

theorem slot?_eq_none_iff {w : World} {e : Entity} : w.slot? e = none ↔ w.state? e = none := by
  rw [state?]
  cases hslot : w.slot? e with
  | none => simp
  | some slot =>
    have := (slot?_eq_some_iff.mp hslot).2.2
    cases hstate : slot.state <;> simp_all

theorem isLive_iff {w : World} {e : Entity} : w.isLive e ↔ w.state? e = some .live := by
  simp [isLive]

@[simp] theorem slots_modifySlot (w : World) (id : Nat) (f : Slot → Slot) :
    (w.modifySlot id f).slots = w.slots.modify id f := rfl

/-! ### The live entities -/

theorem mem_liveEntities {w : World} {e : Entity} : e ∈ w.liveEntities ↔ w.state? e = some .live := by
  obtain ⟨id, generation⟩ := e
  simp only [liveEntities, List.mem_filterMap, Prod.exists, List.mem_zipIdx_iff_getElem?, Array.getElem?_toList,
    state?_eq_some_iff]
  constructor
  · rintro ⟨slot, i, hslot, heq⟩
    split at heq
    · cases heq
      exact ⟨slot, hslot, rfl, ‹_›⟩
    · cases heq
  · rintro ⟨slot, hslot, rfl, hstate⟩
    exact ⟨slot, id, hslot, by simp [hstate]⟩

theorem pairwise_liveEntities (w : World) : w.liveEntities.Pairwise (·.id < ·.id) := by
  have hsub : (w.liveEntities.map (·.id)).Sublist (w.slots.toList.zipIdx.map (·.2)) := by
    rw [liveEntities, List.map_filterMap]
    generalize w.slots.toList.zipIdx = l
    induction l with
    | nil => simp
    | cons p rest ih =>
      obtain ⟨slot, i⟩ := p
      by_cases hslot : slot.state = some .live
      · simpa [hslot] using ih.cons_cons i
      · simpa [hslot] using ih.cons i
  rw [List.zipIdx_map_snd] at hsub
  exact List.pairwise_map.mp ((List.pairwise_lt_range' ..).sublist hsub)

theorem length_liveEntities (w : World) :
    w.liveEntities.length = w.slots.countP (·.state = some .live) := by
  rw [liveEntities, ← Array.countP_toList]
  generalize 0 = start
  generalize w.slots.toList = l
  induction l generalizing start with
  | nil => rfl
  | cons slot rest ih =>
    by_cases hslot : slot.state = some .live <;> simp [List.zipIdx_cons, hslot, ih]

/-! ### Spawning -/

theorem spawn_of_nil {w : World} (h : w.freeIds = []) (persistent : Bool) :
    w.spawn persistent =
      (⟨w.slots.size, 0⟩,
        { w with
          slots := w.slots.push { state := some .live, persistent }
          liveCount := w.liveCount + 1 }) := by
  simp [spawn, h]

theorem spawn_of_cons {w : World} {id : Nat} {rest : List Nat} {slot : Slot} (h : w.freeIds = id :: rest)
    (hslot : w.slots[id]? = some slot) (persistent : Bool) :
    w.spawn persistent =
      (⟨id, slot.generation⟩,
        { w with
          slots := w.slots.modify id ({ · with state := some .live, persistent })
          freeIds := rest
          liveCount := w.liveCount + 1 }) := by
  simp [spawn, h, hslot, modifySlot]

/-! ### Attaching -/

/-- The world after a component has been attached. -/
def withAttached (w : World) (e : Entity) (c : Component) : World :=
  { w.modifySlot e.id fun slot => { slot with handles := slot.handles.push (w.store.insert e c).1 } with
    store := (w.store.insert e c).2
    events := w.events.push (.attached (w.store.insert e c).1 e) }

theorem attach_eq (w : World) (e : Entity) (c : Component) :
    w.attach e c =
      match w.state? e with
      | none => (.error (.staleEntity e), w)
      | some .pending => (.error (.entityNotLive e), w)
      | some .live => (.ok (w.store.insert e c).1, w.withAttached e c) := by
  rw [attach]
  cases hslot : w.slot? e with
  | none => simp [slot?_eq_none_iff.mp hslot]
  | some slot =>
    have hagain : { w with store := (w.store.insert e c).2 }.slot? e = some slot := hslot
    have hstate : w.state? e = slot.state := by simp [state?, hslot]
    have hsome := (slot?_eq_some_iff.mp hslot).2.2
    rw [hstate]
    cases hl : slot.state with
    | none => simp [hl] at hsome
    | some l =>
      cases l
      · simp [hl, hagain, withAttached, modifySlot]
      · simp [hl]

/-! ### Detaching -/

/-- The world after a component has been detached from its owner. -/
def withDetached (w : World) (owner : Entity) (h : Handle) : World :=
  let drop (slot : Slot) : Slot := { slot with handles := slot.handles.filter (· ≠ h) }
  { w with
    slots := if w.contains owner then w.slots.modify owner.id drop else w.slots
    store := (w.store.detach h).2.scheduleRelease h
    events := w.events.push (.detached h owner) }

theorem detach_eq (w : World) (h : Handle) :
    w.detach h =
      match w.store.entries.get? h with
      | none => (.error (.unknownComponent h), w)
      | some ⟨owner, .attached, _⟩ => (.ok true, w.withDetached owner h)
      | some ⟨_, .detached, _⟩ => (.ok false, w) := by
  rw [detach]
  cases hentry : w.store.entries.get? h with
  | none => simp [Store.owner?, hentry]
  | some entry =>
    obtain ⟨owner, a, c⟩ := entry
    have howner : w.store.owner? h = some owner := by simp [Store.owner?, hentry]
    have hattachment : w.store.attachment? h = some a := by simp [Store.attachment?, hentry]
    cases a with
    | detached => simp [howner, Store.detach, hattachment]
    | attached =>
      have hslot : ∀ store, { w with store }.slot? owner = w.slot? owner := fun _ => rfl
      simp only [howner, Store.detach, hattachment, hslot, withDetached, contains]
      cases hs : w.slot? owner with
      | none => simp [slot?_eq_none_iff.mp hs]
      | some slot =>
        have : w.state? owner ≠ none := fun hn => by simp [slot?_eq_none_iff.mpr hn] at hs
        simp [Option.isSome_iff_ne_none.mpr this, modifySlot]

/-! ### Marking -/

/-- The handles of an entity, none if it is gone. -/
def handleList (w : World) (e : Entity) : List Handle := (w.slot? e).elim [] (·.handles.toList)

theorem handleList_of_slot {w : World} {e : Entity} {slot : Slot} {l : Lifecycle} (hslot : w.slots[e.id]? = some slot)
    (hgeneration : slot.generation = e.generation) (hstate : slot.state = some l) :
    w.handleList e = slot.handles.toList := by
  rw [handleList, slot?_eq_some_iff.mpr ⟨hslot, hgeneration, by simp [hstate]⟩]
  rfl

/-- The world after a live entity has been marked, before its components are detached. -/
def withPending (w : World) (e : Entity) : World :=
  { w.modifySlot e.id ({ · with state := some .pending }) with
    liveCount := w.liveCount - 1
    pending := w.pending.push e }

theorem mark_eq (w : World) (e : Entity) :
    w.mark e =
      match w.state? e with
      | none => (.error (.staleEntity e), w)
      | some .pending => (.ok false, w)
      | some .live => (.ok true, (w.handleList e).foldl (unroute e) (w.withPending e)) := by
  rw [mark]
  cases hslot : w.slot? e with
  | none => simp [slot?_eq_none_iff.mp hslot]
  | some slot =>
    have hstate : w.state? e = slot.state := by simp [state?, hslot]
    have hsome := (slot?_eq_some_iff.mp hslot).2.2
    rw [hstate]
    cases hl : slot.state with
    | none => simp [hl] at hsome
    | some l => cases l <;> simp [hl, handleList, hslot, withPending, modifySlot]

/-- What marking one entity preserves, marking several does, be it that it stops at an error. -/
theorem markAll_preserves {I : World → Prop} (hmark : ∀ w e, I w → I (w.mark e).2) {w : World} (h : I w) (count : Nat)
    (es : List Entity) : I (w.markAll count es).2 := by
  induction es generalizing w count with
  | nil => exact h
  | cons e rest ih =>
    have hfirst := hmark w e h
    rw [markAll]
    rcases hresult : w.mark e with ⟨_ | marked, w'⟩ <;> rw [hresult] at hfirst
    · exact hfirst
    · exact ih hfirst _

theorem unroute_eq (e : Entity) (w : World) (h : Handle) :
    unroute e w h =
      { w with
        store := (w.store.detach h).2
        events := if (w.store.detach h).1 then w.events.push (.detached h e) else w.events } := by
  rw [unroute]
  cases hdetach : w.store.detach h with
  | mk detached store =>
    cases detached with
    | true => rfl
    | false =>
      rw [Store.detach] at hdetach
      split at hdetach
      · cases hdetach
      · cases hdetach
        rfl

/-- Detaching the components of an entity changes nothing but the store and the queue of events. -/
theorem foldl_unroute (e : Entity) (hs : List Handle) (w : World) :
    hs.foldl (unroute e) w =
      { w with
        store := hs.foldl (fun store h => (store.detach h).2) w.store
        events := (hs.foldl (unroute e) w).events } := by
  induction hs generalizing w with
  | nil => rfl
  | cons h rest ih =>
    rw [List.foldl_cons, ih, unroute_eq]
    rfl

theorem get?_foldl_detach (hs : List Handle) (s : Store) (h : Handle) :
    (hs.foldl (fun store h => (store.detach h).2) s).entries.get? h =
      if h ∈ hs then (s.entries.get? h).map Store.Entry.detached else s.entries.get? h := by
  induction hs generalizing s with
  | nil => simp
  | cons h' rest ih =>
    rw [List.foldl_cons, ih, Store.get?_entries_detach]
    by_cases hh : h = h'
    · subst hh
      cases s.entries.get? h <;> simp [Store.Entry.detached]
    · simp [hh]

theorem releases_foldl_detach (hs : List Handle) (s : Store) :
    (hs.foldl (fun store h => (store.detach h).2) s).releases = s.releases := by
  induction hs generalizing s with
  | nil => rfl
  | cons h rest ih => rw [List.foldl_cons, ih, Store.releases_detach]

theorem sound_foldl_detach {s : Store} (hs : List Handle) (h : s.entries.Sound) :
    (hs.foldl (fun store h => (store.detach h).2) s).entries.Sound := by
  induction hs generalizing s with
  | nil => exact h
  | cons h' rest ih => exact ih (Store.sound_detach h h')

/-! ### Flushing -/

/-- The world after a pending entity has been freed. -/
def withFreed (w : World) (e : Entity) : World :=
  { w.modifySlot e.id fun slot => { generation := slot.generation + 1 } with
    store := { w.store with releases := w.store.releases ++ (w.handleList e).toArray }
    freeIds := e.id :: w.freeIds }

theorem free_of_pending {w : World} {e : Entity} (h : w.state? e = some .pending) (count : Nat) :
    free (count, w) e = (count + 1, w.withFreed e) := by
  obtain ⟨slot, hslot, hgeneration, hstate⟩ := state?_eq_some_iff.mp h
  have hs : w.slot? e = some slot := slot?_eq_some_iff.mpr ⟨hslot, hgeneration, by simp [hstate]⟩
  simp [free, hslot, hgeneration, hstate, withFreed, handleList, hs, Store.foldl_scheduleRelease, modifySlot]

/-- The world at the end of a flush, once its entities have been freed. -/
def withReleased (w : World) : World :=
  { w with
    store := w.store.releaseScheduled.2
    events := w.events.filter fun event => w.store.attachment? event.handle == some .attached }

theorem snd_flush (w : World) :
    w.flush.2 = (w.pending.toList.foldl free (0, { w with pending := #[] })).2.withReleased := rfl

end Cadence.World
