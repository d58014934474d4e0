import Mathlib.Data.List.Basic
import Cadence.Proofs.World.Run

/-!
What one entity holds, kind by kind, and what attaching, writing and marking do to it. Each of these operations is
about one entity and stays with it: the slots of the other entities, their components and the queue for release are as
before.
-/

namespace Cadence.World

variable {w w' w'' : World} {e e' : Entity} {k : Kind} {h : Handle}

/-! ### The slot of one entity changed -/

theorem slot?_of_modify {f : Slot → Slot} {slot : Slot} (hslot : w.slot? e = some slot)
    (hslots : w'.slots = w.slots.modify e.id f) (hgeneration : (f slot).generation = slot.generation)
    (hstate : (f slot).state.isSome) : w'.slot? e = some (f slot) := by
  obtain ⟨hfound, heq, _⟩ := slot?_eq_some_iff.mp hslot
  refine slot?_eq_some_iff.mpr ⟨?_, hgeneration.trans heq, hstate⟩
  rw [hslots, getElem?_modify_of_some hfound, if_pos rfl]

/-- Another entity may have the same id, but then it is of another generation and gone. -/
theorem slot?_of_modify_of_ne {f : Slot → Slot} {slot : Slot} (hslot : w.slot? e = some slot) (hne : e' ≠ e)
    (hslots : w'.slots = w.slots.modify e.id f) (hgeneration : ∀ slot, (f slot).generation = slot.generation) :
    w'.slot? e' = w.slot? e' := by
  obtain ⟨hfound, heq, _⟩ := slot?_eq_some_iff.mp hslot
  rw [slot?, slot?, hslots, Array.getElem?_modify]
  split
  · rename_i hid
    have hother : e.generation ≠ e'.generation := by
      intro hsame
      obtain ⟨_, _⟩ := e
      obtain ⟨_, _⟩ := e'
      cases hid
      cases hsame
      exact hne rfl
    rw [← hid, hfound]
    simp [Option.filter_some, hgeneration, heq, hother]
  · rfl

/-! ### The components of one kind -/

/-- The components of one kind on an entity with their handles, in the order in which they were attached. What a system
finds when it asks for the first one is the head of this list. -/
def held (w : World) (k : Kind) (e : Entity) : List (Handle × k.Data) :=
  (w.handleList e).filterMap fun h => (w.store.getAs? k h).map (h, ·)

theorem first?_eq_head?_held (w : World) (k : Kind) (e : Entity) : w.first? k e = (w.held k e).head? := by
  rw [held, List.head?_filterMap, first?, handleList]
  cases w.slot? e <;> rfl

theorem mem_held {a : k.Data} (hmem : (h, a) ∈ w.held k e) :
    h ∈ w.handleList e ∧ w.store.getAs? k h = some a := by
  obtain ⟨h', hlist, hfound⟩ := List.mem_filterMap.mp hmem
  obtain ⟨a', ha, heq⟩ := Option.map_eq_some_iff.mp hfound
  cases heq
  exact ⟨hlist, ha⟩

theorem held_congr (hlist : w'.handleList e = w.handleList e)
    (hget : ∀ h ∈ w.handleList e, w'.store.getAs? k h = w.store.getAs? k h) : w'.held k e = w.held k e := by
  rw [held, held, hlist]
  exact List.filterMap_congr fun h hmem => by rw [hget h hmem]

theorem mem_handleList : h ∈ w.handleList e ↔ ∃ slot, w.slot? e = some slot ∧ h ∈ slot.handles := by
  rw [handleList]
  cases w.slot? e <;> simp

/-- The components in the list of an entity are its own, attached as its state says. -/
theorem SoundStore.entry_of_mem_handleList (hw : w.SoundStore) (hmem : h ∈ w.handleList e) :
    ∃ l c, w.state? e = some l ∧ w.store.entries.get? h = some ⟨e, l.attachment, c⟩ := by
  obtain ⟨slot, hslot, hin⟩ := mem_handleList.mp hmem
  obtain ⟨hfound, hgeneration, _⟩ := slot?_eq_some_iff.mp hslot
  obtain ⟨l, c, hl, hentry⟩ := hw.entry_of_mem_handles hfound hin
  refine ⟨l, c, by simp [state?, hslot, hl], ?_⟩
  rw [hentry, hgeneration]

theorem mem_handleList_of_first? {a : k.Data} (hfirst : w.first? k e = some (h, a)) : h ∈ w.handleList e := by
  rw [first?_eq_head?_held] at hfirst
  exact (mem_held (List.mem_of_head? hfirst)).1

/-- A component is the first of one entity at most. -/
theorem SoundStore.eq_of_first? (hw : w.SoundStore) {a a' : k.Data} (hfirst : w.first? k e = some (h, a))
    (hfirst' : w.first? k e' = some (h, a')) : e' = e := by
  obtain ⟨_, _, _, hentry⟩ := hw.entry_of_mem_handleList (mem_handleList_of_first? hfirst)
  obtain ⟨_, _, _, hentry'⟩ := hw.entry_of_mem_handleList (mem_handleList_of_first? hfirst')
  exact congrArg Store.Entry.owner (Option.some.inj (hentry'.symm.trans hentry))

theorem SoundStore.not_mem_releases (hw : w.SoundStore) (hmem : h ∈ w.handleList e) : h ∉ w.store.releases := by
  obtain ⟨slot, hslot, hin⟩ := mem_handleList.mp hmem
  exact fun hrelease => hw.not_mem_handles hrelease (slot?_eq_some_iff.mp hslot).1 hin

theorem SoundStore.nodup_handleList (hw : w.SoundStore) (e : Entity) : (w.handleList e).Nodup := by
  rw [handleList]
  cases hslot : w.slot? e with
  | none => exact List.nodup_nil
  | some slot => exact hw.handles_nodup (slot?_eq_some_iff.mp hslot).1

theorem SoundStore.nodup_held (hw : w.SoundStore) (k : Kind) (e : Entity) : ((w.held k e).map (·.1)).Nodup := by
  have hsub : ((w.held k e).map (·.1)).Sublist (w.handleList e) := by
    rw [held, List.map_filterMap]
    induction w.handleList e with
    | nil => simp
    | cons h rest ih =>
      cases hget : w.store.getAs? k h with
      | none => simpa [hget] using ih.cons h
      | some a => simpa [hget] using ih.cons_cons h
  exact hsub.nodup (hw.nodup_handleList e)

/-! ### Confinement -/

/-- The two worlds differ in one entity at most: the others are as they were, the queue for release is, and an entry
that has changed is of a component of that entity. -/
structure Confined (e : Entity) (w w' : World) : Prop where
  slot : ∀ e' ≠ e, w'.slot? e' = w.slot? e'
  releases : w'.store.releases = w.store.releases
  entries : ∀ h, w'.store.entries.get? h = w.store.entries.get? h ∨
    h ∉ w.store.releases ∧ (∀ entry, w.store.entries.get? h = some entry → entry.owner = e) ∧
      ∀ entry, w'.store.entries.get? h = some entry → entry.owner = e

/-- An entity is as it was, and so is every component that is or has been attached to it. -/
structure Untouched (e : Entity) (w w' : World) : Prop where
  slot : w'.slot? e = w.slot? e
  entries : ∀ h entry, entry.owner = e →
    (w'.store.entries.get? h = some entry ↔ w.store.entries.get? h = some entry)

theorem Confined.refl (e : Entity) (w : World) : w.Confined e w := ⟨fun _ _ => rfl, rfl, fun _ => .inl rfl⟩

theorem Confined.untouched (hconfined : w.Confined e w') (hne : e' ≠ e) : w.Untouched e' w' where
  slot := hconfined.slot e' hne
  entries h entry howner := by
    obtain hsame | ⟨_, hbefore, hafter⟩ := hconfined.entries h
    · rw [hsame]
    · exact ⟨fun hentry => absurd (howner.symm.trans (hafter entry hentry)) hne,
        fun hentry => absurd (howner.symm.trans (hbefore entry hentry)) hne⟩

theorem Confined.queued (hconfined : w.Confined e w') (hmem : h ∈ w.store.releases) :
    w'.store.entries.get? h = w.store.entries.get? h :=
  (hconfined.entries h).resolve_right fun hchanged => hchanged.1 hmem

namespace Untouched

theorem refl (e : Entity) (w : World) : w.Untouched e w := ⟨rfl, fun _ _ _ => Iff.rfl⟩

theorem trans (huntouched : w.Untouched e w') (huntouched' : w'.Untouched e w'') : w.Untouched e w'' where
  slot := huntouched'.slot.trans huntouched.slot
  entries h entry howner := (huntouched'.entries h entry howner).trans (huntouched.entries h entry howner)

theorem state?_eq (huntouched : w.Untouched e w') : w'.state? e = w.state? e := by
  rw [state?, state?, huntouched.slot]

theorem isPersistent_eq (huntouched : w.Untouched e w') : w'.isPersistent e = w.isPersistent e := by
  rw [isPersistent, isPersistent, huntouched.slot]

theorem handleList_eq (huntouched : w.Untouched e w') : w'.handleList e = w.handleList e := by
  rw [handleList, handleList, huntouched.slot]

theorem held_eq (huntouched : w.Untouched e w') (hw : w.SoundStore) (k : Kind) : w'.held k e = w.held k e := by
  refine held_congr huntouched.handleList_eq fun h hmem => ?_
  obtain ⟨l, c, _, hentry⟩ := hw.entry_of_mem_handleList hmem
  have hentry' := (huntouched.entries h _ rfl).mpr hentry
  exact Store.getAs?_eq_of_get? (by rw [Store.get?, Store.get?, hentry, hentry']) k

end Untouched

/-- Of an entity only the components of one kind have changed, and those in its list are in it still. -/
structure Alters (k : Kind) (e : Entity) (w w' : World) : Prop where
  state : w'.state? e = w.state? e
  persistent : w'.isPersistent e = w.isPersistent e
  handles : ∃ new, w'.handleList e = w.handleList e ++ new
  others : ∀ k' ≠ k, w'.held k' e = w.held k' e

theorem Untouched.alters (h : w.Untouched e w') (hw : w.SoundStore) (k : Kind) : w.Alters k e w' where
  state := h.state?_eq
  persistent := h.isPersistent_eq
  handles := ⟨[], by rw [h.handleList_eq, List.append_nil]⟩
  others k' _ := h.held_eq hw k'

theorem Alters.trans (h : w.Alters k e w') (h' : w'.Alters k e w'') : w.Alters k e w'' where
  state := h'.state.trans h.state
  persistent := h'.persistent.trans h.persistent
  handles := by
    obtain ⟨new, hnew⟩ := h.handles
    obtain ⟨new', hnew'⟩ := h'.handles
    exact ⟨new ++ new', by rw [hnew', hnew, List.append_assoc]⟩
  others k' hne := (h'.others k' hne).trans (h.others k' hne)

/-! ### Writing -/

theorem component_of_getAs? {a : k.Data} (hget : w.store.getAs? k h = some a) : w.component k h = .ok a := by
  obtain ⟨c, hc, hdata⟩ := Option.bind_eq_some_iff.mp hget
  rw [component, hc]
  dsimp only
  rw [hdata]

theorem modify_of_getAs? {a : k.Data} (hget : w.store.getAs? k h = some a) (f : k.Data → k.Data) :
    w.modify k h f = (.ok (), { w with store := w.store.set h ⟨k, f a⟩ }) := by
  rw [modify, component_of_getAs? hget]

/-- Writing to one component leaves what is read of the others. -/
theorem component_modify_of_ne {h' : Handle} (hne : h' ≠ h) (f : k.Data → k.Data) (k' : Kind) :
    (w.modify k h f).2.component k' h' = w.component k' h' := by
  rw [modify]
  split
  · rfl
  · rw [component, component, Store.get?_set, if_neg hne]

/-- Writes to two different components may be made in either order. -/
theorem modify_comm {k' : Kind} {h' : Handle} (hne : h' ≠ h) (f : k.Data → k.Data) (g : k'.Data → k'.Data) :
    ((w.modify k h f).2.modify k' h' g).2 = ((w.modify k' h' g).2.modify k h f).2 := by
  have hfirst := component_modify_of_ne (w := w) hne f k'
  have hsecond := component_modify_of_ne (w := w) hne.symm g k
  rw [modify, hfirst]
  conv_rhs => rw [modify, hsecond]
  cases hdata : w.component k h <;> cases hdata' : w.component k' h' <;> simp only [modify, hdata, hdata']
  rw [Store.set_comm _ hne]

theorem confined_modify (hw : w.SoundStore) (hmem : h ∈ w.handleList e) (k : Kind) (f : k.Data → k.Data) :
    w.Confined e (w.modify k h f).2 := by
  obtain ⟨l, c, _, hentry⟩ := hw.entry_of_mem_handleList hmem
  rw [modify]
  split
  · exact .refl e w
  refine ⟨fun _ _ => rfl, rfl, fun h' => ?_⟩
  rw [Store.get?_entries_set]
  by_cases hh : h' = h
  · subst hh
    simp [hentry, hw.not_mem_releases hmem]
  · simp [hh]

/-- Writing to the first component of its kind leaves the others of that kind. -/
theorem held_modify_self (hw : w.SoundStore) {a : k.Data} {rest : List (Handle × k.Data)}
    (hheld : w.held k e = (h, a) :: rest) (f : k.Data → k.Data) :
    (w.modify k h f).2.held k e = (h, f a) :: rest := by
  obtain ⟨_, hget⟩ := mem_held (w := w) (e := e) (h := h) (a := a) (by simp [hheld])
  have hmap : (w.modify k h f).2.held k e = (w.held k e).map fun p => if p.1 = h then (p.1, f a) else p := by
    rw [modify_of_getAs? hget, held, held, List.map_filterMap]
    refine List.filterMap_congr fun h' _ => ?_
    rw [Store.getAs?_set_self hget]
    by_cases hh : h' = h
    · subst hh
      simp [hget]
    · cases w.store.getAs? k h' <;> simp [hh]
  have hnodup := hw.nodup_held k e
  rw [hheld, List.map_cons, List.nodup_cons] at hnodup
  have hrest : rest.map (fun p => if p.1 = h then (p.1, f a) else p) = rest := by
    refine (List.map_congr_left fun p hp => if_neg ?_).trans (List.map_id rest)
    rintro rfl
    exact hnodup.1 (List.mem_map.mpr ⟨p, hp, rfl⟩)
  rw [hmap, hheld, List.map_cons, if_pos rfl, hrest]

theorem alters_modify {a : k.Data} (hget : w.store.getAs? k h = some a) (f : k.Data → k.Data) (e : Entity) :
    w.Alters k e (w.modify k h f).2 := by
  rw [modify_of_getAs? hget]
  exact ⟨rfl, rfl, ⟨[], (List.append_nil _).symm⟩, fun k' hne =>
    held_congr rfl fun h' _ => Store.getAs?_set_of_ne hget (f a) hne h'⟩

/-! ### Attaching -/

theorem attach_of_live (hlive : w.state? e = some .live) (c : Component) :
    w.attach e c = (.ok (w.store.insert e c).1, w.withAttached e c) := by
  rw [attach_eq, hlive]

theorem get?_entries_withAttached (hw : w.SoundStore) (e : Entity) (c : Component) (h : Handle) :
    (w.withAttached e c).store.entries.get? h =
      if h = (w.store.insert e c).1 then some ⟨e, .attached, c⟩ else w.store.entries.get? h :=
  Arena.get?_insert hw.entries _ h

theorem get?_entries_fresh (hw : w.SoundStore) (e : Entity) (c : Component) :
    w.store.entries.get? (w.store.insert e c).1 = none := Arena.get?_insert_self_eq_none hw.entries _

theorem slot?_withAttached {slot : Slot} (hslot : w.slot? e = some slot) (c : Component) :
    (w.withAttached e c).slot? e = some { slot with handles := slot.handles.push (w.store.insert e c).1 } :=
  slot?_of_modify (f := fun slot => { slot with handles := slot.handles.push (w.store.insert e c).1 }) hslot rfl rfl
    (slot?_eq_some_iff.mp hslot).2.2

theorem handleList_withAttached {slot : Slot} (hslot : w.slot? e = some slot) (c : Component) :
    (w.withAttached e c).handleList e = w.handleList e ++ [(w.store.insert e c).1] := by
  simp [handleList, slot?_withAttached hslot, hslot]

theorem held_withAttached (hw : w.SoundStore) {slot : Slot} (hslot : w.slot? e = some slot) (c : Component) (k : Kind) :
    (w.withAttached e c).held k e = w.held k e ++ ((c.as k).map ((w.store.insert e c).1, ·)).toList := by
  have hget : ∀ h, (w.withAttached e c).store.get? h =
      if h = (w.store.insert e c).1 then some c else w.store.get? h := by
    intro h
    rw [Store.get?, get?_entries_withAttached hw]
    split <;> rfl
  rw [held, handleList_withAttached hslot, List.filterMap_append]
  congr 1
  · refine List.filterMap_congr fun h hmem => ?_
    have hne : h ≠ (w.store.insert e c).1 := by
      rintro rfl
      obtain ⟨_, _, _, hentry⟩ := hw.entry_of_mem_handleList hmem
      rw [get?_entries_fresh hw] at hentry
      cases hentry
    rw [Store.getAs?_eq_of_get? ((hget h).trans (if_neg hne)) k]
  · have has : (w.withAttached e c).store.getAs? k (w.store.insert e c).1 = c.as k := by
      rw [Store.getAs?, hget, if_pos rfl]
      rfl
    cases hc : c.as k <;> simp [has, hc]

theorem alters_withAttached (hw : w.SoundStore) {slot : Slot} (hslot : w.slot? e = some slot) (c : Component) :
    w.Alters c.kind e (w.withAttached e c) where
  state := by rw [state?, state?, slot?_withAttached hslot, hslot]; rfl
  persistent := by rw [isPersistent, isPersistent, slot?_withAttached hslot, hslot]
  handles := ⟨_, handleList_withAttached hslot c⟩
  others k' hne := by simp [held_withAttached hw hslot, Component.as_eq_none_iff.mpr hne.symm]

theorem confined_withAttached (hw : w.SoundStore) {slot : Slot} (hslot : w.slot? e = some slot) (c : Component) :
    w.Confined e (w.withAttached e c) where
  slot e' hne := slot?_of_modify_of_ne
    (f := fun slot => { slot with handles := slot.handles.push (w.store.insert e c).1 }) hslot hne rfl fun _ => rfl
  releases := rfl
  entries h := by
    rw [get?_entries_withAttached hw]
    by_cases hh : h = (w.store.insert e c).1
    · have hfresh := get?_entries_fresh hw e c
      exact .inr ⟨fun hmem => hw.ne_of_mem_releases hfresh hmem hh, by simp [hh, hfresh], by simp [hh]⟩
    · exact .inl (if_neg hh)

/-! ### Marking -/

theorem mark_of_live (hlive : w.state? e = some .live) :
    w.mark e = (.ok true, (w.handleList e).foldl (unroute e) (w.withPending e)) := by
  rw [mark_eq, hlive]

theorem get?_entries_mark (hlive : w.state? e = some .live) (h : Handle) :
    (w.mark e).2.store.entries.get? h =
      if h ∈ w.handleList e then (w.store.entries.get? h).map Store.Entry.detached else w.store.entries.get? h := by
  rw [mark_of_live hlive, foldl_unroute]
  exact get?_foldl_detach ..

theorem slots_mark (hlive : w.state? e = some .live) :
    (w.mark e).2.slots = w.slots.modify e.id ({ · with state := some .pending }) := by
  rw [mark_of_live hlive, foldl_unroute]
  rfl

theorem slot?_mark (hlive : w.state? e = some .live) {slot : Slot} (hslot : w.slot? e = some slot) :
    (w.mark e).2.slot? e = some { slot with state := some .pending } :=
  slot?_of_modify (f := ({ · with state := some .pending })) hslot (slots_mark hlive) rfl rfl

theorem handleList_mark (hlive : w.state? e = some .live) : (w.mark e).2.handleList e = w.handleList e := by
  obtain ⟨slot, hslot, _⟩ := slot?_of_state? hlive
  rw [handleList, slot?_mark hlive hslot, handleList, hslot]
  rfl

theorem held_mark (hlive : w.state? e = some .live) (k : Kind) : (w.mark e).2.held k e = w.held k e := by
  refine held_congr (handleList_mark hlive) fun h hmem => Store.getAs?_eq_of_get? ?_ k
  rw [Store.get?, get?_entries_mark hlive, if_pos hmem, Option.map_map]
  rfl

theorem confined_mark (hw : w.SoundStore) (hlive : w.state? e = some .live) : w.Confined e (w.mark e).2 where
  slot e' hne := by
    obtain ⟨slot, hslot, _⟩ := slot?_of_state? hlive
    exact slot?_of_modify_of_ne hslot hne (slots_mark hlive) fun _ => rfl
  releases := by
    rw [mark_of_live hlive, foldl_unroute]
    exact releases_foldl_detach ..
  entries h := by
    rw [get?_entries_mark hlive]
    split
    · rename_i hmem
      obtain ⟨l, c, _, hentry⟩ := hw.entry_of_mem_handleList hmem
      exact .inr ⟨hw.not_mem_releases hmem, by simp [hentry], by simp [hentry, Store.Entry.detached]⟩
    · exact .inl rfl

end Cadence.World
