import Cadence.Proofs.World.Operations

/-!
The invariant of a world. Its slots agree with the count of the live entities, with the queue of the pending ones and
with the list of free ids; and every stored component is in exactly one place, in the list of its owner or in the
queue of handles to be released. Every operation keeps it, whatever entities and handles it is given.
-/

namespace Cadence

/-- How the components of an entity are attached in each state of the entity. -/
def Lifecycle.attachment : Lifecycle → Attachment
  | live => .attached
  | pending => .detached

namespace World

/-- What the entities of a slot depend on. -/
def Slot.life (slot : Slot) : UInt32 × Option Lifecycle := (slot.generation, slot.state)

/-- The slots agree with the count, the queue and the list of free ids. -/
structure SoundSlots (w : World) : Prop where
  liveCount_eq : w.liveCount = w.slots.countP (·.state = some .live)
  pending_nodup : w.pending.toList.Nodup
  mem_pending : ∀ e, e ∈ w.pending ↔ w.state? e = some .pending
  freeIds_nodup : w.freeIds.Nodup
  mem_freeIds : ∀ id, id ∈ w.freeIds ↔ ∃ slot, w.slots[id]? = some slot ∧ slot.state = none

/-- Every stored component is in one place: in the list of its owner, or in the queue for release. -/
structure SoundStore (w : World) : Prop where
  entries : w.store.entries.Sound
  handles_nodup : ∀ {id : Nat} {slot : Slot}, w.slots[id]? = some slot → slot.handles.toList.Nodup
  entry_of_mem_handles : ∀ {id : Nat} {slot : Slot} {h : Handle}, w.slots[id]? = some slot → h ∈ slot.handles →
    ∃ l c, slot.state = some l ∧ w.store.entries.get? h = some ⟨⟨id, slot.generation⟩, l.attachment, c⟩
  releases_nodup : w.store.releases.toList.Nodup
  entry_of_mem_releases : ∀ {h : Handle}, h ∈ w.store.releases →
    ∃ owner c, w.store.entries.get? h = some ⟨owner, .detached, c⟩
  not_mem_handles : ∀ {id : Nat} {slot : Slot} {h : Handle},
    h ∈ w.store.releases → w.slots[id]? = some slot → h ∉ slot.handles
  placed : ∀ {h : Handle} {entry : Store.Entry}, w.store.entries.get? h = some entry → h ∉ w.store.releases →
    ∃ slot, w.slots[entry.owner.id]? = some slot ∧ h ∈ slot.handles

structure Sound (w : World) : Prop extends SoundSlots w, SoundStore w

theorem sound_empty : Sound empty where
  liveCount_eq := rfl
  pending_nodup := List.nodup_nil
  mem_pending e := by simp [empty, state?_eq_some_iff]
  freeIds_nodup := List.nodup_nil
  mem_freeIds id := by simp [empty]
  entries := Arena.sound_empty
  handles_nodup h := by simp [empty] at h
  entry_of_mem_handles h := by simp [empty] at h
  releases_nodup := List.nodup_nil
  entry_of_mem_releases h := by simp [empty] at h
  not_mem_handles h := by simp [empty] at h
  placed h := by
    have : (empty.store.entries : Arena Store.Entry) = Arena.empty := rfl
    simp [this] at h

theorem nodup_push {α : Type} {xs : Array α} {a : α} (h : xs.toList.Nodup) (hnot : a ∉ xs) :
    (xs.push a).toList.Nodup := by
  rw [Array.toList_push, List.nodup_append]
  refine ⟨h, by simp, fun b hb c hc hbc => hnot ?_⟩
  rw [List.mem_singleton] at hc
  rw [← hc, ← hbc]
  simpa using hb

/-! ### One slot changed -/

/-- A slot read after one slot has been changed is that slot, or was there before. -/
theorem getElem?_modify_cases {slots : Array Slot} {id : Nat} {slot : Slot} (hslot : slots[id]? = some slot)
    {f : Slot → Slot} {j : Nat} {slot' : Slot} (h : (slots.modify id f)[j]? = some slot') :
    (j = id ∧ slot' = f slot) ∨ (j ≠ id ∧ slots[j]? = some slot') := by
  rw [Array.getElem?_modify] at h
  split at h
  · rename_i hid
    subst hid
    rw [hslot] at h
    cases h
    exact .inl ⟨rfl, rfl⟩
  · exact .inr ⟨Ne.symm ‹_›, h⟩

theorem getElem?_modify_of_some {slots : Array Slot} {j : Nat} {slot : Slot} (h : slots[j]? = some slot) (id : Nat)
    (f : Slot → Slot) : (slots.modify id f)[j]? = some (if j = id then f slot else slot) := by
  rw [Array.getElem?_modify, h]
  by_cases hid : id = j
  · simp [hid]
  · simp [hid, Ne.symm hid]

/-! ### Changes that do not touch the life of any slot -/

theorem map_life_modify (slots : Array Slot) (id : Nat) (f : Slot → Slot) (hf : ∀ slot, (f slot).life = slot.life) :
    (slots.modify id f).map Slot.life = slots.map Slot.life := by
  apply Array.ext_getElem?
  intro i
  simp only [Array.getElem?_map, Array.getElem?_modify]
  split <;> simp [Function.comp_def, hf]

theorem state?_eq_of_life {w w' : World} (h : w'.slots.map Slot.life = w.slots.map Slot.life) (e : Entity) :
    w'.state? e = w.state? e := by
  have hlife : (w'.slots[e.id]?).map Slot.life = (w.slots[e.id]?).map Slot.life := by
    rw [← Array.getElem?_map, ← Array.getElem?_map, h]
  unfold state? slot?
  cases hslot : w.slots[e.id]? with
  | none => simp_all
  | some slot =>
    obtain ⟨slot', hslot', heq⟩ : ∃ slot', w'.slots[e.id]? = some slot' ∧ slot'.life = slot.life := by
      simpa [hslot] using hlife
    simp only [Slot.life, Prod.mk.injEq] at heq
    simp only [hslot', Option.filter_some, heq]
    split <;> simp [heq]

theorem SoundSlots.congr {w w' : World} (hw : w.SoundSlots) (hlife : w'.slots.map Slot.life = w.slots.map Slot.life)
    (hcount : w'.liveCount = w.liveCount) (hpending : w'.pending = w.pending) (hfree : w'.freeIds = w.freeIds) :
    w'.SoundSlots where
  liveCount_eq := by
    have hlive : ∀ slots : Array Slot,
        slots.countP (·.state = some .live) = (slots.map Slot.life).countP (·.2 = some .live) := by
      intro slots
      rw [Array.countP_map]
      rfl
    rw [hcount, hw.liveCount_eq, hlive, hlive, hlife]
  pending_nodup := by
    rw [hpending]
    exact hw.pending_nodup
  mem_pending e := by
    rw [hpending, hw.mem_pending, state?_eq_of_life hlife]
  freeIds_nodup := by
    rw [hfree]
    exact hw.freeIds_nodup
  mem_freeIds id := by
    have : (w'.slots[id]?).map Slot.life = (w.slots[id]?).map Slot.life := by
      rw [← Array.getElem?_map, ← Array.getElem?_map, hlife]
    rw [hfree, hw.mem_freeIds]
    cases hslot : w.slots[id]? <;> cases hslot' : w'.slots[id]? <;> simp_all [Slot.life]

/-- Slots may come and go as long as they hold no components. -/
theorem SoundStore.congr {w w' : World} (hw : w.SoundStore) (hstore : w'.store = w.store)
    (hback : ∀ (id : Nat) (slot' : Slot), w'.slots[id]? = some slot' → slot'.handles = #[] ∨
      ∃ slot, w.slots[id]? = some slot ∧ slot'.handles = slot.handles ∧ slot'.life = slot.life)
    (hforth : ∀ (id : Nat) (slot : Slot), w.slots[id]? = some slot → slot.handles ≠ #[] →
      ∃ slot', w'.slots[id]? = some slot' ∧ slot'.handles = slot.handles) : w'.SoundStore where
  entries := by
    rw [hstore]
    exact hw.entries
  handles_nodup {id slot'} h := by
    obtain hnone | ⟨slot, hslot, hhandles, _⟩ := hback id slot' h
    · simp [hnone]
    · rw [hhandles]
      exact hw.handles_nodup hslot
  entry_of_mem_handles {id slot' h} hslot' hmem := by
    obtain hnone | ⟨slot, hslot, hhandles, hlife⟩ := hback id slot' hslot'
    · simp [hnone] at hmem
    · rw [Slot.life, Slot.life, Prod.mk.injEq] at hlife
      rw [hstore, hlife.1, hlife.2]
      exact hw.entry_of_mem_handles hslot (hhandles ▸ hmem)
  releases_nodup := by
    rw [hstore]
    exact hw.releases_nodup
  entry_of_mem_releases {h} hmem := by
    rw [hstore] at hmem ⊢
    exact hw.entry_of_mem_releases hmem
  not_mem_handles {id slot' h} hrelease hslot' := by
    obtain hnone | ⟨slot, hslot, hhandles, _⟩ := hback id slot' hslot'
    · simp [hnone]
    · rw [hhandles]
      exact hw.not_mem_handles (hstore ▸ hrelease) hslot
  placed {h entry} hentry hrelease := by
    obtain ⟨slot, hslot, hmem⟩ := hw.placed (hstore ▸ hentry) (hstore ▸ hrelease)
    obtain ⟨slot', hslot', hhandles⟩ := hforth _ slot hslot (by rintro hnone; simp [hnone] at hmem)
    exact ⟨slot', hslot', hhandles ▸ hmem⟩

/-- The slot of an id that is free holds no components. -/
theorem SoundStore.handles_of_state {w : World} (hw : w.SoundStore) {id : Nat} {slot : Slot}
    (hslot : w.slots[id]? = some slot) (hstate : slot.state = none) : slot.handles = #[] := by
  rw [Array.eq_empty_iff_forall_not_mem]
  intro h hmem
  obtain ⟨l, c, hl, _⟩ := hw.entry_of_mem_handles hslot hmem
  rw [hstate] at hl
  cases hl

/-! ### Spawning -/

theorem countP_modify {α : Type} (p : α → Bool) {xs : Array α} {i : Nat} {x : α} (f : α → α) (h : xs[i]? = some x) :
    (xs.modify i f).countP p + (if p x then 1 else 0) = xs.countP p + (if p (f x) then 1 else 0) := by
  obtain ⟨hi, hx⟩ := Array.getElem?_eq_some_iff.mp h
  have hset : xs.modify i f = xs.set i (f x) := by
    apply Array.ext_getElem?
    intro j
    rw [Array.getElem?_modify, Array.getElem?_set]
    by_cases hj : i = j
    · subst hj
      simp [h]
    · simp [hj]
  have hle := Array.boole_getElem_le_countP (p := p) hi
  rw [hset, Array.countP_set, hx]
  rw [hx] at hle
  omega

/-- A slot is added, under a new id. -/
theorem sound_spawn_of_nil {w : World} (hw : w.Sound) (hfree : w.freeIds = []) (persistent : Bool) :
    (w.spawn persistent).2.Sound := by
  have hslot : ∀ id : Nat, (w.slots.push { state := some .live, persistent })[id]? =
      if id = w.slots.size then some { state := some .live, persistent } else w.slots[id]? :=
    fun id => Array.getElem?_push
  rw [spawn_of_nil hfree]
  dsimp only
  refine ⟨⟨?_, hw.pending_nodup, fun e => ?_, hw.freeIds_nodup, fun id => ?_⟩, ?_⟩
  · simp [hw.liveCount_eq]
  · rw [hw.mem_pending, state?_eq_some_iff, state?_eq_some_iff]
    simp only [hslot]
    by_cases hid : e.id = w.slots.size
    · simp [hid]
    · simp [hid]
  · have := hw.mem_freeIds id
    simp only [hslot]
    by_cases hid : id = w.slots.size
    · simp [hid, hfree]
    · simpa [hid, hfree] using this
  · refine hw.toSoundStore.congr rfl (fun id slot' h => ?_) fun id slot h _ => ⟨slot, ?_, rfl⟩
    · rw [hslot] at h
      split at h
      · cases h
        exact .inl rfl
      · exact .inr ⟨slot', h, rfl, rfl⟩
    · have hlt := (Array.getElem?_eq_some_iff.mp h).1
      rw [hslot, if_neg (by omega)]
      exact h

/-- A slot is taken again that nobody uses; it holds no components any more. -/
theorem sound_spawn_of_cons {w : World} (hw : w.Sound) {id : Nat} {rest : List Nat} (hfree : w.freeIds = id :: rest)
    (persistent : Bool) : (w.spawn persistent).2.Sound := by
  have hnodup := hw.freeIds_nodup
  rw [hfree, List.nodup_cons] at hnodup
  obtain ⟨old, hold, hstate⟩ := (hw.mem_freeIds id).mp (by simp [hfree])
  have hslot : ∀ j : Nat, (w.slots.modify id ({ · with state := some .live, persistent }))[j]? =
      if id = j then some { old with state := some .live, persistent } else w.slots[j]? := by
    intro j
    rw [Array.getElem?_modify]
    by_cases hj : id = j
    · subst hj
      simp [hold]
    · simp [hj]
  rw [spawn_of_cons hfree hold]
  dsimp only
  refine ⟨⟨?_, hw.pending_nodup, fun e => ?_, hnodup.2, fun j => ?_⟩, ?_⟩
  · have := countP_modify (·.state = some .live) ({ · with state := some .live, persistent }) hold
    simp only [hstate, reduceCtorEq, decide_false, Bool.false_eq_true, if_false, decide_true, if_true] at this
    simp only [hw.liveCount_eq]
    omega
  -- the slot was free and is live now, so that nobody waits there before or after
  · rw [hw.mem_pending, state?_eq_some_iff, state?_eq_some_iff]
    simp only [hslot]
    by_cases hj : id = e.id
    · subst hj
      simp [hold, hstate]
    · simp [hj]
  · have := hw.mem_freeIds j
    simp only [hslot]
    by_cases hj : id = j
    · subst hj
      simp [hnodup.1]
    · simpa [hj, hfree, Ne.symm hj] using this
  · have hnone : old.handles = #[] := hw.handles_of_state hold hstate
    refine hw.toSoundStore.congr rfl (fun j slot' h => ?_) fun j slot h hne => ⟨slot, ?_, rfl⟩
    · rw [hslot] at h
      split at h
      · cases h
        exact .inl hnone
      · exact .inr ⟨slot', h, rfl, rfl⟩
    · rw [hslot, if_neg]
      · exact h
      · rintro rfl
        rw [hold] at h
        cases h
        exact hne hnone

theorem sound_spawn {w : World} (hw : w.Sound) (persistent : Bool) : (w.spawn persistent).2.Sound := by
  cases hfree : w.freeIds with
  | nil => exact sound_spawn_of_nil hw hfree persistent
  | cons id rest => exact sound_spawn_of_cons hw hfree persistent

theorem sound_setPersistent {w : World} (hw : w.Sound) (e : Entity) (persistent : Bool) :
    (w.setPersistent e persistent).2.Sound := by
  rw [setPersistent]
  cases w.slot? e with
  | none => exact hw
  | some _ =>
    have hlife := map_life_modify w.slots e.id ({ · with persistent }) fun _ => rfl
    dsimp only
    refine ⟨hw.toSoundSlots.congr hlife rfl rfl rfl,
      hw.toSoundStore.congr rfl (fun id slot' h => .inr ?_) fun id slot h _ => ?_⟩
    · rw [slots_modifySlot, Array.getElem?_modify] at h
      split at h
      · obtain ⟨slot, hslot, rfl⟩ := Option.map_eq_some_iff.mp h
        exact ⟨slot, hslot, rfl, rfl⟩
      · exact ⟨slot', h, rfl, rfl⟩
    · rw [slots_modifySlot, Array.getElem?_modify, h]
      split <;> exact ⟨_, rfl, rfl⟩

/-! ### Attaching and detaching -/

theorem SoundStore.ne_of_mem_handles {w : World} (hw : w.SoundStore) {new : Handle}
    (hfresh : w.store.entries.get? new = none) {id : Nat} {slot : Slot} {h : Handle} (hslot : w.slots[id]? = some slot)
    (hmem : h ∈ slot.handles) : h ≠ new := by
  rintro rfl
  obtain ⟨l, c, _, hentry⟩ := hw.entry_of_mem_handles hslot hmem
  rw [hfresh] at hentry
  cases hentry

theorem SoundStore.ne_of_mem_releases {w : World} (hw : w.SoundStore) {new : Handle}
    (hfresh : w.store.entries.get? new = none) {h : Handle} (hmem : h ∈ w.store.releases) : h ≠ new := by
  rintro rfl
  obtain ⟨owner, c, hentry⟩ := hw.entry_of_mem_releases hmem
  rw [hfresh] at hentry
  cases hentry

/-- A new component stands in the list of its owner, and nowhere else: its handle has found nothing before. -/
theorem SoundStore.attached {w w' : World} (hw : w.SoundStore) {id : Nat} {slot : Slot} {new : Handle} {c : Component}
    (hslot : w.slots[id]? = some slot) (hstate : slot.state = some .live) (hfresh : w.store.entries.get? new = none)
    (hslots : w'.slots = w.slots.modify id fun slot => { slot with handles := slot.handles.push new })
    (hsound : w'.store.entries.Sound)
    (hget : ∀ h, w'.store.entries.get? h =
      if h = new then some ⟨⟨id, slot.generation⟩, .attached, c⟩ else w.store.entries.get? h)
    (hreleases : w'.store.releases = w.store.releases) : w'.SoundStore where
  entries := hsound
  handles_nodup {id' slot'} hs := by
    rw [hslots] at hs
    obtain ⟨_, rfl⟩ | ⟨_, hs⟩ := getElem?_modify_cases hslot hs
    · exact nodup_push (hw.handles_nodup hslot) fun hmem => hw.ne_of_mem_handles hfresh hslot hmem rfl
    · exact hw.handles_nodup hs
  entry_of_mem_handles {id' slot' h} hs hmem := by
    rw [hslots] at hs
    obtain ⟨rfl, rfl⟩ | ⟨_, hs⟩ := getElem?_modify_cases hslot hs
    · rw [hget]
      obtain hmem | rfl := Array.mem_push.mp hmem
      · have hold := hw.entry_of_mem_handles hslot hmem
        rwa [if_neg (hw.ne_of_mem_handles hfresh hslot hmem)]
      · rw [if_pos rfl]
        exact ⟨.live, c, hstate, rfl⟩
    · rw [hget, if_neg (hw.ne_of_mem_handles hfresh hs hmem)]
      exact hw.entry_of_mem_handles hs hmem
  releases_nodup := hreleases ▸ hw.releases_nodup
  entry_of_mem_releases {h} hmem := by
    rw [hreleases] at hmem
    rw [hget, if_neg (hw.ne_of_mem_releases hfresh hmem)]
    exact hw.entry_of_mem_releases hmem
  not_mem_handles {id' slot' h} hmem hs := by
    rw [hreleases] at hmem
    rw [hslots] at hs
    obtain ⟨rfl, rfl⟩ | ⟨_, hs⟩ := getElem?_modify_cases hslot hs
    · rw [Array.mem_push, not_or]
      exact ⟨hw.not_mem_handles hmem hslot, hw.ne_of_mem_releases hfresh hmem⟩
    · exact hw.not_mem_handles hmem hs
  placed {h entry} hentry hrelease := by
    rw [hget] at hentry
    rw [hreleases] at hrelease
    rw [hslots]
    split at hentry
    · rename_i heq
      subst heq
      cases hentry
      exact ⟨_, getElem?_modify_of_some hslot _ _, by simp⟩
    · obtain ⟨old, hold, hmem⟩ := hw.placed hentry hrelease
      refine ⟨_, getElem?_modify_of_some hold _ _, ?_⟩
      split
      · exact Array.mem_push_of_mem _ hmem
      · exact hmem

theorem sound_attach {w : World} (hw : w.Sound) (e : Entity) (c : Component) : (w.attach e c).2.Sound := by
  rw [attach_eq]
  split
  · exact hw
  · exact hw
  rename_i hlive
  obtain ⟨slot, hslot, hgeneration, hstate⟩ := state?_eq_some_iff.mp hlive
  have hlife := map_life_modify w.slots e.id
    (fun slot => { slot with handles := slot.handles.push (w.store.insert e c).1 }) fun _ => rfl
  have hfresh := Arena.get?_insert_self_eq_none hw.entries ⟨e, .attached, c⟩
  rw [← Store.fst_insert] at hfresh
  have hget : ∀ h, (w.withAttached e c).store.entries.get? h =
      if h = (w.store.insert e c).1 then some ⟨⟨e.id, slot.generation⟩, .attached, c⟩ else w.store.entries.get? h := by
    intro h
    rw [hgeneration]
    exact Arena.get?_insert hw.entries _ h
  exact ⟨hw.toSoundSlots.congr hlife rfl rfl rfl,
    hw.toSoundStore.attached hslot hstate hfresh rfl (hw.entries.insert _) hget rfl⟩

end World

end Cadence
