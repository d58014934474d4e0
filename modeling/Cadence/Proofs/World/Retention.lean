import Cadence.Proofs.World.Extension
import Cadence.Proofs.World.Flush

/-!
What lasts in a world. Short of a flush every change leaves in place who exists and what is stored; only a write to a
component changes its data.
-/

namespace Cadence.World

/-! ### Ids -/

/-- The generation under which an id is used, or will be used next. -/
def generation (w : World) (id : Nat) : UInt32 := (w.slots[id]?.map (·.generation)).getD 0

/-- Somebody has the id, live or pending. -/
def inUse (w : World) (id : Nat) : Bool := w.slots[id]?.any (·.state.isSome)

theorem inUse_iff {w : World} {id : Nat} : w.inUse id ↔ ∃ slot, w.slots[id]? = some slot ∧ slot.state.isSome := by
  unfold inUse
  cases w.slots[id]? <;> simp

theorem generation_of_slot {w : World} {id : Nat} {slot : Slot} (h : w.slots[id]? = some slot) :
    w.generation id = slot.generation := by
  simp [generation, h]

theorem contains_iff {w : World} {e : Entity} : w.contains e ↔ w.inUse e.id ∧ w.generation e.id = e.generation := by
  rw [contains, Option.isSome_iff_exists, inUse_iff]
  simp only [state?_eq_some_iff]
  constructor
  · rintro ⟨l, slot, hslot, hgeneration, hstate⟩
    exact ⟨⟨slot, hslot, by simp [hstate]⟩, (generation_of_slot hslot).trans hgeneration⟩
  · rintro ⟨⟨slot, hslot, hsome⟩, hgeneration⟩
    obtain ⟨l, hl⟩ := Option.isSome_iff_exists.mp hsome
    exact ⟨l, slot, hslot, (generation_of_slot hslot).symm.trans hgeneration, hl⟩

/-- No id has become free, and every id keeps its generation. -/
structure KeepsIds (w w' : World) : Prop where
  generation : ∀ id, w'.generation id = w.generation id
  inUse : ∀ id, w.inUse id → w'.inUse id

variable {w w' w'' : World}

theorem KeepsIds.of_slots (hslots : w'.slots = w.slots) : w.KeepsIds w' where
  generation id := by rw [World.generation, World.generation, hslots]
  inUse id huse := by rwa [World.inUse, hslots]

theorem KeepsIds.contains (h : w.KeepsIds w') {e : Entity} (he : w.contains e) : w'.contains e := by
  obtain ⟨huse, hgeneration⟩ := contains_iff.mp he
  exact contains_iff.mpr ⟨h.inUse _ huse, (h.generation _).trans hgeneration⟩

theorem KeepsIds.of_modify (id : Nat) (f : Slot → Slot) (hslots : w'.slots = w.slots.modify id f)
    (hgeneration : ∀ slot, (f slot).generation = slot.generation)
    (huse : ∀ slot, slot.state.isSome → (f slot).state.isSome) : w.KeepsIds w' where
  generation j := by
    rw [World.generation, World.generation, hslots, Array.getElem?_modify]
    split <;> simp [Function.comp_def, hgeneration]
  inUse j hold := by
    obtain ⟨slot, hslot, hsome⟩ := inUse_iff.mp hold
    refine inUse_iff.mpr ⟨_, hslots ▸ getElem?_modify_of_some hslot id f, ?_⟩
    split
    · exact huse slot hsome
    · exact hsome

/-! ### Worlds that retain another -/

/-- Who existed in `w` exists in `w'`, and what was stored in `w` is stored in `w'`, with the data it had unless it has
been written to. -/
structure Retains (written : List Handle) (w w' : World) : Prop extends KeepsIds w w' where
  stored : ∀ {h : Handle} {entry : Store.Entry}, w.store.entries.get? h = some entry →
    ∃ entry', w'.store.entries.get? h = some entry' ∧ entry'.owner = entry.owner ∧
      entry'.component.kind = entry.component.kind ∧ (h ∉ written → entry'.component = entry.component)

theorem Retains.trans {written written' : List Handle} (h : w.Retains written w') (h' : w'.Retains written' w'') :
    w.Retains (written ++ written') w'' where
  generation id := (h'.generation id).trans (h.generation id)
  inUse id huse := h'.inUse id (h.inUse id huse)
  stored {handle entry} hentry := by
    obtain ⟨entry', hentry', howner, hkind, hsame⟩ := h.stored hentry
    obtain ⟨entry'', hentry'', howner', hkind', hsame'⟩ := h'.stored hentry'
    refine ⟨entry'', hentry'', howner'.trans howner, hkind'.trans hkind, fun hmem => ?_⟩
    rw [List.mem_append, not_or] at hmem
    exact (hsame' hmem.2).trans (hsame hmem.1)

theorem Retains.keeps {written : List Handle} (h : w.Retains written w') : w.Keeps w' := by
  intro handle kind hkind
  rw [kind?_eq_map, Store.get?, Option.map_map] at hkind ⊢
  obtain ⟨entry, hentry, rfl⟩ := Option.map_eq_some_iff.mp hkind
  obtain ⟨entry', hentry', _, hsame, _⟩ := h.stored hentry
  rw [hentry']
  exact congrArg some hsame

theorem Retains.of_entries {written : List Handle} (hids : w.KeepsIds w')
    (hentries : w'.store.entries = w.store.entries) : w.Retains written w' where
  toKeepsIds := hids
  stored {_ entry} hentry := ⟨entry, hentries ▸ hentry, rfl, rfl, fun _ => rfl⟩

theorem Retains.refl (w : World) (written : List Handle) : w.Retains written w := .of_entries (.of_slots rfl) rfl

/-- Entries that may have been detached since, and nothing else. -/
theorem Retains.of_detached (hids : w.KeepsIds w') (hs : Handle → Prop) [DecidablePred hs]
    (hget : ∀ h, w'.store.entries.get? h =
      if hs h then (w.store.entries.get? h).map Store.Entry.detached else w.store.entries.get? h) :
    w.Retains [] w' where
  toKeepsIds := hids
  stored {h entry} hentry := by
    rw [hget, hentry]
    split <;> exact ⟨_, rfl, rfl, rfl, fun _ => rfl⟩

/-! ### Each change -/

theorem retains_spawn (hw : w.Sound) (persistent : Bool) : w.Retains [] (w.spawn persistent).2 := by
  cases hfree : w.freeIds with
  | nil =>
    rw [spawn_of_nil hfree]
    have hslot : ∀ id : Nat, (w.slots.push { state := some .live, persistent })[id]? =
        if id = w.slots.size then some { state := some .live, persistent } else w.slots[id]? :=
      fun id => Array.getElem?_push
    refine .of_entries ⟨fun id => ?_, fun id huse => ?_⟩ rfl
    · simp only [World.generation, hslot]
      split
      · subst id
        simp
      · rfl
    · obtain ⟨slot, hs, hsome⟩ := inUse_iff.mp huse
      have hlt := (Array.getElem?_eq_some_iff.mp hs).1
      refine inUse_iff.mpr ⟨slot, ?_, hsome⟩
      rw [hslot, if_neg (by omega)]
      exact hs
  | cons id rest =>
    obtain ⟨slot, hslot, _⟩ := (hw.mem_freeIds id).mp (by simp [hfree])
    rw [spawn_of_cons hfree hslot]
    exact .of_entries (.of_modify id ({ · with state := some .live, persistent }) rfl (fun _ => rfl) fun _ _ => rfl) rfl

theorem retains_setPersistent (w : World) (e : Entity) (persistent : Bool) :
    w.Retains [] (w.setPersistent e persistent).2 := by
  rw [setPersistent]
  split
  · exact .refl w []
  · exact .of_entries (.of_modify e.id ({ · with persistent }) rfl (fun _ => rfl) fun _ h => h) rfl

theorem retains_attach (hw : w.Sound) (e : Entity) (c : Component) : w.Retains [] (w.attach e c).2 := by
  rw [attach_eq]
  split
  · exact .refl w []
  · exact .refl w []
  refine ⟨.of_modify e.id (fun slot => { slot with handles := slot.handles.push (w.store.insert e c).1 }) rfl
    (fun _ => rfl) fun _ h => h, fun {h entry} hentry => ?_⟩
  have hget : (w.withAttached e c).store.entries.get? h =
      if h = (w.store.insert e c).1 then some ⟨e, .attached, c⟩ else w.store.entries.get? h :=
    Arena.get?_insert hw.entries _ h
  have hne : h ≠ (w.store.insert e c).1 := by
    rintro rfl
    rw [Store.fst_insert, Arena.get?_insert_self_eq_none hw.entries] at hentry
    cases hentry
  exact ⟨entry, by rw [hget, if_neg hne, hentry], rfl, rfl, fun _ => rfl⟩

theorem retains_detach (w : World) (h : Handle) : w.Retains [] (w.detach h).2 := by
  rw [detach_eq]
  split
  · exact .refl w []
  · rename_i owner c hentry
    have hids : w.KeepsIds (w.withDetached owner h) := by
      by_cases howner : w.contains owner
      · exact .of_modify owner.id (fun slot => { slot with handles := slot.handles.filter (· ≠ h) }) (if_pos howner)
          (fun _ => rfl) fun _ h => h
      · exact .of_slots (if_neg howner)
    refine .of_detached hids (· = h) fun h' => (Store.get?_entries_detach w.store h h').trans ?_
    split
    · rw [‹h' = h›]
    · rfl
  · exact .refl w []

theorem retains_mark (w : World) (e : Entity) : w.Retains [] (w.mark e).2 := by
  rw [mark_eq]
  split
  · exact .refl w []
  · exact .refl w []
  rw [foldl_unroute]
  exact .of_detached (.of_modify e.id ({ · with state := some .pending }) rfl (fun _ => rfl) fun _ _ => rfl)
    (· ∈ w.handleList e) fun h => get?_foldl_detach ..

theorem retains_markAll (w : World) (count : Nat) (es : List Entity) : w.Retains [] (w.markAll count es).2 :=
  markAll_preserves (I := (w.Retains [] ·)) (fun w' e h => h.trans (retains_mark w' e)) (.refl w []) count es

/-- A write keeps the kind of the component it writes to, and all other components. -/
theorem retains_modify (w : World) (k : Kind) (h : Handle) (f : k.Data → k.Data) :
    w.Retains [h] (w.modify k h f).2 := by
  rw [modify]
  split
  · exact .refl w [h]
  rename_i data hdata
  refine ⟨.of_slots rfl, fun {h' entry} hentry => ?_⟩
  dsimp only
  rw [Store.get?_entries_set]
  by_cases hh : h' = h
  · subst hh
    have hkind : entry.component.kind = k := by
      rw [component, Store.get?, hentry] at hdata
      dsimp only [Option.map_some] at hdata
      split at hdata
      · cases hdata
      · rename_i hold
        rw [Component.as_eq_some_iff.mp hold]
    rw [if_pos rfl, hentry]
    exact ⟨_, rfl, rfl, hkind.symm, fun hnot => absurd (List.mem_singleton_self _) hnot⟩
  · rw [if_neg hh]
    exact ⟨entry, hentry, rfl, rfl, fun _ => rfl⟩

/-! ### All changes -/

/-- The component that a change writes to. -/
def Edit.target? {ε η : Type} : Edit ε η → Option η
  | overwrite h _ | moveTo h _ _ | rotateTo h _ | setVelocity h _ _ => some h
  | _ => none

theorem retains_perform (hw : w.Sound) {edit : Edit Entity Handle} (hedit : edit ≠ .flush) :
    w.Retains edit.target?.toList (w.perform edit).2 := by
  cases edit with
  | spawn persistent => exact retains_spawn hw persistent
  | attach e c => exact retains_attach hw e c
  | detach h => exact retains_detach w h
  | mark e => exact retains_mark w e
  | clear persistentToo => exact retains_markAll w ..
  | flush => exact absurd rfl hedit
  | setPersistent e persistent => exact retains_setPersistent w e persistent
  | drain => exact .of_entries (.of_slots rfl) rfl
  | overwrite h c => exact retains_modify w ..
  | moveTo h x y => exact retains_modify w ..
  | rotateTo h rotation => exact retains_modify w ..
  | setVelocity h dx dy => exact retains_modify w ..

/-! ### Runs without a flush -/

/-- `w'` comes from `w` by changes that are no flush. -/
def Unflushed (w w' : World) : Prop := w.Via (· ≠ .flush) w'

theorem Unflushed.retains {w w' : World} (h : w.Unflushed w') (hw : w.Sound) : ∃ written, w.Retains written w' := by
  obtain ⟨edits, hedits, rfl⟩ := h
  induction edits generalizing w with
  | nil => exact ⟨[], .refl w []⟩
  | cons edit rest ih =>
    obtain ⟨hedit, hrest⟩ := List.forall_mem_cons.mp hedits
    obtain ⟨written, hretains⟩ := ih (sound_perform hw edit) hrest
    exact ⟨edit.target?.toList ++ written, (retains_perform hw hedit).trans hretains⟩

theorem Unflushed.keeps {w w' : World} (h : w.Unflushed w') (hw : w.Sound) : w.Keeps w' := by
  obtain ⟨_, hretains⟩ := h.retains hw
  exact hretains.keeps

/-! ### What can be dereferenced -/

/-- Every entity of `w` exists in `w'`, and every component of `w` can be read there, with its owner, its kind and,
unless it is one of those `written` to, its data. -/
structure Resolves (written : Handle → Prop) (w w' : World) : Prop where
  entities : ∀ e, w.contains e → w'.contains e
  components : ∀ h c, w.store.get? h = some c → ∃ c', w'.store.get? h = some c' ∧
    w'.store.owner? h = w.store.owner? h ∧ c'.kind = c.kind ∧ (¬ written h → c' = c)

theorem Retains.resolves {written : List Handle} (h : w.Retains written w') : w.Resolves (· ∈ written) w' where
  entities _ he := h.contains he
  components handle c hget := by
    obtain ⟨entry, hentry, rfl⟩ := Option.map_eq_some_iff.mp hget
    obtain ⟨entry', hentry', howner, hkind, hsame⟩ := h.stored hentry
    have hget' : w'.store.get? handle = some entry'.component := by simp [Store.get?, hentry']
    exact ⟨entry'.component, hget', by simp [Store.owner?, hentry, hentry', howner], hkind, hsame⟩

theorem Resolves.mono {written written' : Handle → Prop} (h : w.Resolves written w')
    (hsub : ∀ h, written h → written' h) : w.Resolves written' w' where
  entities := h.entities
  components handle c hget := by
    obtain ⟨c', hget', howner, hkind, hsame⟩ := h.components handle c hget
    exact ⟨c', hget', howner, hkind, fun hnot => hsame fun hwritten => hnot (hsub handle hwritten)⟩

end Cadence.World
