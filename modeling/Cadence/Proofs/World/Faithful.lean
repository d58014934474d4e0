import Cadence.Proofs.World.Departure
import Cadence.Proofs.World.Log

/-!
The log is a faithful history of the components. Every change keeps it so, the draining and the flush at any moment
among them, as long as no cell of the arena is used so often that its handles come up again.
-/

namespace Cadence.World

variable {w w' : World} {complete : Prop} {issued : List (Handle × Entity)} {drained : List Event}

/-! ### The lists in the slots -/

theorem handlesAt_of_modify (id : Nat) (f : Slot → Slot) (new : List Handle) (hslots : w'.slots = w.slots.modify id f)
    (hf : ∀ slot, (f slot).handles.toList.Sublist (slot.handles.toList ++ new)) (j : Nat) :
    (w'.handlesAt j).Sublist (w.handlesAt j ++ new) := by
  cases hslot : w.slots[j]? with
  | none =>
    have hnone : w'.slots[j]? = none := by
      rw [hslots, Array.getElem?_modify, hslot]
      split <;> rfl
    simp [handlesAt, hnone]
  | some slot =>
    have hmodified := getElem?_modify_of_some hslot id f
    rw [← hslots] at hmodified
    rw [handlesAt_of_slot hmodified, handlesAt_of_slot hslot]
    split
    · exact hf slot
    · exact List.sublist_append_left ..

theorem handlesAt_of_same (id : Nat) (f : Slot → Slot) (hslots : w'.slots = w.slots.modify id f)
    (hf : ∀ slot, (f slot).handles.toList.Sublist slot.handles.toList) (j : Nat) :
    (w'.handlesAt j).Sublist (w.handlesAt j) := by
  simpa using handlesAt_of_modify id f [] hslots (by simpa using hf) j

theorem handlesAt_of_slots (hslots : w'.slots = w.slots) (j : Nat) : (w'.handlesAt j).Sublist (w.handlesAt j) := by
  rw [handlesAt, handlesAt, hslots]

/-! ### Each change -/

theorem Faithful.spawn (h : Faithful complete issued drained w) (hw : w.Sound) (persistent : Bool) :
    Faithful complete issued drained (w.spawn persistent).2 := by
  cases hfree : w.freeIds with
  | nil =>
    rw [spawn_of_nil hfree]
    refine h.same (fun hcounts => hcounts) (label?_congr rfl) rfl fun id => ?_
    have hslot : (w.slots.push { state := some .live, persistent })[id]? =
        if id = w.slots.size then some { state := some .live, persistent } else w.slots[id]? := Array.getElem?_push
    simp only [handlesAt, hslot]
    split
    · simp
    · exact .refl _
  | cons id rest =>
    obtain ⟨slot, hslot, _⟩ := (hw.mem_freeIds id).mp (by simp [hfree])
    rw [spawn_of_cons hfree hslot]
    exact h.same (fun hcounts => hcounts) (label?_congr rfl) rfl
      (handlesAt_of_same id ({ · with state := some .live, persistent }) rfl fun _ => .refl _)

theorem Faithful.setPersistent (h : Faithful complete issued drained w) (e : Entity) (persistent : Bool) :
    Faithful complete issued drained (w.setPersistent e persistent).2 := by
  rw [World.setPersistent]
  split
  · exact h
  · exact h.same (fun hcounts => hcounts) (label?_congr rfl) rfl
      (handlesAt_of_same e.id ({ · with persistent }) rfl fun _ => .refl _)

theorem Faithful.modify (h : Faithful complete issued drained w) (k : Kind) (handle : Handle) (f : k.Data → k.Data) :
    Faithful complete issued drained (w.modify k handle f).2 := by
  have hlabel := label?_modify w k handle f
  rw [World.modify] at hlabel ⊢
  split at hlabel
  · exact h
  · exact h.same (fun hcounts => hcounts.modify _ _) hlabel rfl (handlesAt_of_slots rfl)

theorem Faithful.attach (h : Faithful complete issued drained w) (hw : w.Sound) (e : Entity) (c : Component)
    (hbound : ∀ i, fills (issued ++ attachedBy (.attach e c) (w.perform (.attach e c)).1) i ≤ 2 ^ 31) :
    Faithful complete (issued ++ attachedBy (.attach e c) (w.perform (.attach e c)).1) drained (w.attach e c).2 := by
  rw [perform, answered, attach_eq] at hbound ⊢
  cases hstate : w.state? e with
  | none => simpa [hstate, attachedBy, Except.map] using h
  | some l =>
    cases l with
    | pending => simpa [hstate, attachedBy, Except.map] using h
    | live =>
      rw [hstate] at hbound
      obtain ⟨hnew, hissued⟩ := h.toIssued.attach hw.entries e c hbound
      refine h.attached hnew hissued (label?_withAttached hw.entries e c) rfl ?_
      exact handlesAt_of_modify e.id (fun slot => { slot with handles := slot.handles.push (w.store.insert e c).1 }) _
        rfl fun slot => by simp

theorem counts_detach {fills : Nat → Nat} {s : Store} (hs : s.entries.Counts fills) (h : Handle) :
    (s.detach h).2.entries.Counts fills := by
  rw [Store.detach]
  split
  · exact hs.modify _ _
  · exact hs

theorem Faithful.detach (h : Faithful complete issued drained w) (handle : Handle) :
    Faithful complete issued drained (w.detach handle).2 := by
  rw [detach_eq]
  split
  · exact h
  · rename_i owner c hentry
    have hattached := label?_eq_of_entry hentry
    refine h.detached (fun hcounts => counts_detach hcounts handle) hattached (label?_of_detach hattached rfl) rfl ?_
    by_cases howner : w.contains owner
    · refine handlesAt_of_same owner.id (fun slot => { slot with handles := slot.handles.filter (· ≠ handle) })
        (if_pos howner) fun slot => ?_
      rw [Array.toList_filter]
      exact List.filter_sublist
    · exact handlesAt_of_slots (if_neg howner)
  · exact h

theorem Faithful.unroute (h : Faithful complete issued drained w) {e : Entity} {hs : List Handle} (hnodup : hs.Nodup)
    (hattached : ∀ h ∈ hs, ∃ kind, w.label? h = some (e, .attached, kind)) :
    Faithful complete issued drained (hs.foldl (unroute e) w) := by
  induction hs generalizing w with
  | nil => exact h
  | cons handle rest ih =>
    rw [List.nodup_cons] at hnodup
    obtain ⟨kind, hkind⟩ := hattached handle (by simp)
    obtain ⟨hextends, hlabel⟩ := extends_unroute hkind
    have hevents : (World.unroute e w handle).events = w.events.push (.detached handle e) :=
      Array.ext' (by simpa using hextends.events)
    have hcounts {fills : Nat → Nat} (hcounts : w.store.entries.Counts fills) :
        (World.unroute e w handle).store.entries.Counts fills := by
      rw [unroute_eq]
      exact counts_detach hcounts handle
    refine ih (h.detached hcounts hkind hlabel hevents (handlesAt_of_slots (by rw [unroute_eq]))) hnodup.2
      fun handle' hmem => ?_
    rw [hlabel, if_neg (by rintro rfl; exact hnodup.1 hmem)]
    exact hattached handle' (by simp [hmem])

theorem Faithful.mark (h : Faithful complete issued drained w) (hw : w.Sound) (e : Entity) :
    Faithful complete issued drained (w.mark e).2 := by
  rw [mark_eq]
  split
  · exact h
  · exact h
  obtain ⟨hnodup, hattached⟩ := attached_handleList hw ‹_›
  have hpending : Faithful complete issued drained (w.withPending e) :=
    h.same (fun hcounts => hcounts) (label?_congr rfl) rfl
      (handlesAt_of_same e.id ({ · with state := some .pending }) rfl fun _ => .refl _)
  exact hpending.unroute hnodup hattached

theorem Faithful.markAll (h : Faithful complete issued drained w) (hw : w.Sound) (count : Nat) (es : List Entity) :
    Faithful complete issued drained (w.markAll count es).2 :=
  (markAll_preserves (I := fun w => w.Sound ∧ Faithful complete issued drained w)
    (fun _ e h => ⟨sound_mark h.1 e, h.2.mark h.1 e⟩) ⟨hw, h⟩ count es).2

/-! ### All changes -/

/-- The events that a change has handed out. -/
def drainedBy : Except WorldError Answer → List Event
  | .ok (.events events) => events.toList
  | _ => []

/-- The events that the changes hand out. -/
def drainedIn (w : World) : List (Edit Entity Handle) → List Event
  | [] => []
  | edit :: rest => drainedBy (w.perform edit).1 ++ drainedIn (w.perform edit).2 rest

theorem drainedBy_answered {α : Type} (f : α → Answer) (r : Except WorldError α × World)
    (hf : ∀ a, drainedBy (.ok (f a)) = []) : drainedBy (answered f r).1 = [] := by
  obtain ⟨_ | a, w⟩ := r
  · rfl
  · exact hf a

theorem drainedBy_perform (w : World) {edit : Edit Entity Handle} (hedit : edit ≠ .drain) :
    drainedBy (w.perform edit).1 = [] := by
  cases edit with
  | spawn | flush => rfl
  | drain => exact absurd rfl hedit
  | attach | detach | mark | clear | setPersistent | overwrite | moveTo | rotateTo | setVelocity =>
    exact drainedBy_answered _ _ fun _ => rfl

theorem faithful_perform (h : Faithful complete issued drained w) (hw : w.Sound) (edit : Edit Entity Handle)
    (hbound : ∀ i, fills (issued ++ attachedBy edit (w.perform edit).1) i ≤ 2 ^ 31)
    (hempty : complete → edit = .flush → w.events = #[]) :
    Faithful complete (issued ++ attachedBy edit (w.perform edit).1) (drained ++ drainedBy (w.perform edit).1)
      (w.perform edit).2 := by
  have hquiet (hattached : attachedBy edit (w.perform edit).1 = []) (hdrained : drainedBy (w.perform edit).1 = [])
      (h' : Faithful complete issued drained (w.perform edit).2) :
      Faithful complete (issued ++ attachedBy edit (w.perform edit).1) (drained ++ drainedBy (w.perform edit).1)
        (w.perform edit).2 := by
    rwa [hattached, hdrained, List.append_nil, List.append_nil]
  cases edit with
  | spawn persistent => exact hquiet rfl rfl (h.spawn hw persistent)
  | attach e c =>
    rw [drainedBy_perform w (by simp), List.append_nil]
    exact h.attach hw e c hbound
  | detach handle => exact hquiet rfl (drainedBy_perform w (by simp)) (h.detach handle)
  | mark e => exact hquiet rfl (drainedBy_perform w (by simp)) (h.mark hw e)
  | clear persistentToo => exact hquiet rfl (drainedBy_perform w (by simp)) (h.markAll hw ..)
  | flush => exact hquiet rfl rfl (h.flush hw fun hcomplete => hempty hcomplete rfl)
  | setPersistent e persistent =>
    exact hquiet rfl (drainedBy_perform w (by simp)) (h.setPersistent e persistent)
  | drain =>
    have hattached : attachedBy .drain (w.perform .drain).1 = [] := rfl
    rw [hattached, List.append_nil]
    refine h.same (fun hcounts => hcounts) (label?_congr rfl) ?_ (handlesAt_of_slots rfl)
    simp [perform, World.drain, drainedBy]
  | overwrite handle c => exact hquiet rfl (drainedBy_perform w (by simp)) (h.modify ..)
  | moveTo handle x y => exact hquiet rfl (drainedBy_perform w (by simp)) (h.modify ..)
  | rotateTo handle rotation => exact hquiet rfl (drainedBy_perform w (by simp)) (h.modify ..)
  | setVelocity handle dx dy => exact hquiet rfl (drainedBy_perform w (by simp)) (h.modify ..)

/-- Every flush finds the queue empty. -/
def FlushesIdle (w : World) : List (Edit Entity Handle) → Prop
  | [] => True
  | edit :: rest => (edit = .flush → w.events = #[]) ∧ FlushesIdle (w.perform edit).2 rest

theorem faithful_run (h : Faithful complete issued drained w) (hw : w.Sound) (edits : List (Edit Entity Handle))
    (hbound : ∀ i, fills (issued ++ w.attachments edits) i ≤ 2 ^ 31) (hidle : complete → w.FlushesIdle edits) :
    Faithful complete (issued ++ w.attachments edits) (drained ++ w.drainedIn edits) (w.run edits) := by
  induction edits generalizing w issued drained with
  | nil => simpa [attachments, drainedIn, run] using h
  | cons edit rest ih =>
    rw [attachments, ← List.append_assoc] at hbound
    have hfirst := fills_le_of_append hbound
    have hstep := faithful_perform h hw edit hfirst fun hcomplete => (hidle hcomplete).1
    rw [attachments, drainedIn, ← List.append_assoc, ← List.append_assoc]
    exact ih hstep (sound_perform hw edit) hbound fun hcomplete => (hidle hcomplete).2

/-! ### What the log tells -/

/-- As long as flushes find the queue empty, the log only grows. -/
theorem prefix_log_run (hw : w.Sound) {edits : List (Edit Entity Handle)} (hidle : w.FlushesIdle edits)
    (drained : List Event) :
    drained ++ w.events.toList <+: drained ++ w.drainedIn edits ++ (w.run edits).events.toList := by
  induction edits generalizing w drained with
  | nil => simp [drainedIn, run]
  | cons edit rest ih =>
    obtain ⟨hempty, hrest⟩ := hidle
    have hlater := ih (sound_perform hw edit) hrest (drained ++ drainedBy (w.perform edit).1)
    rw [drainedIn, ← List.append_assoc]
    refine List.IsPrefix.trans ?_ hlater
    by_cases hflush : edit = .flush
    · subst hflush
      rw [hempty rfl]
      simp [List.append_assoc]
    by_cases hdrain : edit = .drain
    · subst hdrain
      simp [perform, World.drain, drainedBy]
    have hrouted : edit.IsRouted := by
      cases edit <;> simp_all [Edit.IsRouted]
    obtain ⟨news, hextends⟩ := extends_perform hw hrouted
    rw [drainedBy_perform w hdrain, hextends.events]
    simp

theorem mem_iff_mem_about {h : Handle} {event : Event} (hevent : event.handle = h) (log : List Event) :
    event ∈ log ↔ event ∈ about h log := by
  simp [about, hevent]

theorem label?_of_attaches {h : Handle} {owner : Entity} (hattached : w.Attaches h owner) :
    ∃ kind, w.label? h = some (owner, .attached, kind) := by
  obtain ⟨c, hentry⟩ := hattached
  exact ⟨c.kind, label?_eq_of_entry hentry⟩

theorem attaches_of_label? {h : Handle} {owner : Entity} {kind : Kind}
    (hlabel : w.label? h = some (owner, .attached, kind)) : w.Attaches h owner := by
  obtain ⟨⟨owner', a, c⟩, hentry, heq⟩ := Option.map_eq_some_iff.mp hlabel
  cases heq
  exact ⟨c, hentry⟩

/-- With a complete log, everything has been told of a component that is not attached any more. -/
theorem Faithful.told_of_not_attaches (h : Faithful True issued drained w) {handle : Handle} {owner : Entity}
    (hmem : (handle, owner) ∈ issued) (hnot : ¬ w.Attaches handle owner) :
    about handle (drained ++ w.events.toList) = [.attached handle owner, .detached handle owner] :=
  (h.told_of_not_attached hmem fun _ hlabel => hnot (attaches_of_label? hlabel)).2 trivial

theorem Faithful.told_of_attaches (h : Faithful complete issued drained w) {handle : Handle} {owner : Entity}
    (hattached : w.Attaches handle owner) :
    about handle (drained ++ w.events.toList) = [.attached handle owner] := by
  obtain ⟨kind, hlabel⟩ := label?_of_attaches hattached
  exact (h.stored hlabel).2

theorem Faithful.detached_mem_iff (h : Faithful True issued drained w) (hw : w.Sound) {handle : Handle} {owner : Entity}
    (hattached : w.Attaches handle owner) (edits : List (Edit Entity Handle))
    (hbound : ∀ i, fills (issued ++ w.attachments edits) i ≤ 2 ^ 31) (hidle : w.FlushesIdle edits) :
    .detached handle owner ∈ drained ++ w.drainedIn edits ++ (w.run edits).events.toList ↔
      Departs handle owner w edits := by
  induction edits generalizing w issued drained with
  | nil =>
    have htold := h.told_of_attaches hattached
    rw [mem_iff_mem_about (h := handle) rfl]
    simp [drainedIn, run, htold, Departs]
  | cons edit rest ih =>
    obtain ⟨kind, hlabel⟩ := label?_of_attaches hattached
    rw [attachments, ← List.append_assoc] at hbound
    have hfirst := fills_le_of_append hbound
    have hstep := faithful_perform h hw edit hfirst fun _ => hidle.1
    have hsound := sound_perform hw edit
    rw [drainedIn, ← List.append_assoc, Departs]
    by_cases htakes : Takes handle owner w edit
    -- from here on the log holds both events
    · have hmem : (handle, owner) ∈ issued ++ attachedBy edit (w.perform edit).1 :=
        List.mem_append_left _ (h.stored hlabel).1
      have htold := hstep.told_of_not_attaches hmem (not_attaches_of_takes hw hattached htakes)
      have hnow : .detached handle owner ∈
          drained ++ drainedBy (w.perform edit).1 ++ (w.perform edit).2.events.toList := by
        rw [mem_iff_mem_about (h := handle) rfl, htold]
        simp
      exact iff_of_true ((prefix_log_run hsound hidle.2 _).subset hnow) (.inl htakes)
    · rw [or_iff_right htakes]
      exact ih hstep hsound (attaches_of_not_takes hw hattached htakes) hbound hidle.2

/-! ### The lists of the live entities -/

/-- The component that an event tells of as attached to an entity, if it still is. -/
def stillAttached? (w : World) (e : Entity) : Event → Option Handle
  | .attached h owner => if owner = e ∧ w.store.attachment? h = some .attached then some h else none
  | .detached .. => none

theorem stillAttached?_eq_some_iff {e : Entity} {event : Event} {h : Handle} :
    w.stillAttached? e event = some h ↔ event = .attached h e ∧ w.store.attachment? h = some .attached := by
  cases event with
  | attached h' owner =>
    simp only [stillAttached?, Option.ite_none_right_eq_some, Option.some.injEq, Event.attached.injEq]
    constructor
    · rintro ⟨⟨rfl, hattached⟩, rfl⟩
      exact ⟨⟨rfl, rfl⟩, hattached⟩
    · rintro ⟨⟨rfl, rfl⟩, hattached⟩
      exact ⟨⟨rfl, hattached⟩, rfl⟩
  | detached => simp [stillAttached?]

theorem attachment?_of_attaches {h : Handle} {owner : Entity} (hattached : w.Attaches h owner) :
    w.store.attachment? h = some .attached := by
  obtain ⟨c, hentry⟩ := hattached
  simp [Store.attachment?, hentry]

theorem Faithful.attached_mem_iff (h : Faithful complete issued drained w) {handle : Handle} {owner : Entity}
    (hattached : w.store.attachment? handle = some .attached) :
    .attached handle owner ∈ drained ++ w.events.toList ↔ w.Attaches handle owner := by
  obtain ⟨⟨owner', _, c⟩, hentry, rfl⟩ := Store.attachment?_eq_some_iff.mp hattached
  have htold := h.told_of_attaches ⟨c, hentry⟩
  rw [mem_iff_mem_about (h := handle) rfl, htold, List.mem_singleton, Event.attached.injEq]
  constructor
  · rintro ⟨_, rfl⟩
    exact ⟨c, hentry⟩
  · rintro ⟨c', hentry'⟩
    rw [hentry, Option.some.injEq, Store.Entry.mk.injEq] at hentry'
    exact ⟨rfl, hentry'.1.symm⟩

theorem SoundStore.mem_handlesAt_iff (hw : w.SoundStore) {e : Entity} (hlive : w.state? e = some .live) {h : Handle} :
    h ∈ w.handlesAt e.id ↔ w.Attaches h e := by
  obtain ⟨slot, hslot, hgeneration, hstate⟩ := state?_eq_some_iff.mp hlive
  rw [handlesAt_of_slot hslot, Array.mem_toList_iff]
  constructor
  · intro hmem
    obtain ⟨l, c, hl, hentry⟩ := hw.entry_of_mem_handles hslot hmem
    rw [hstate, Option.some.injEq] at hl
    subst hl
    rw [hgeneration] at hentry
    exact ⟨c, hentry⟩
  · rintro ⟨c, hentry⟩
    obtain ⟨slot', hslot', _, _, hmem⟩ := hw.owner_of_attached hentry
    rw [hslot, Option.some.injEq] at hslot'
    rwa [hslot']

/-- The components that are still attached to a live entity are those in its list. -/
theorem Faithful.filter_attachedHandle? (h : Faithful complete issued drained w) (hw : w.Sound) {e : Entity}
    (hlive : w.state? e = some .live) :
    ((drained ++ w.events.toList).filterMap Event.attachedHandle?).filter (· ∈ w.handlesAt e.id) =
      (drained ++ w.events.toList).filterMap (w.stillAttached? e) := by
  rw [List.filter_filterMap]
  refine List.filterMap_congr fun event hevent => ?_
  rw [Option.ext_iff]
  intro handle
  rw [stillAttached?_eq_some_iff, Option.filter_eq_some_iff, decide_eq_true_iff, hw.mem_handlesAt_iff hlive]
  cases event with
  | detached => simp [Event.attachedHandle?]
  | attached handle' owner =>
    simp only [Event.attachedHandle?, Option.some.injEq, Event.attached.injEq]
    constructor
    · rintro ⟨rfl, hholds⟩
      have hattached := attachment?_of_attaches hholds
      obtain ⟨_, howner⟩ := (h.attached_mem_iff hattached).mp hevent
      obtain ⟨_, hentry⟩ := hholds
      rw [hentry, Option.some.injEq, Store.Entry.mk.injEq] at howner
      exact ⟨⟨rfl, howner.1.symm⟩, hattached⟩
    · rintro ⟨⟨rfl, rfl⟩, hattached⟩
      exact ⟨rfl, (h.attached_mem_iff hattached).mp hevent⟩

/-- The log tells of a component that is attached in one event only. -/
theorem Faithful.nodup_stillAttached? (h : Faithful complete issued drained w) (e : Entity) :
    ((drained ++ w.events.toList).filterMap (w.stillAttached? e)).Nodup := by
  refine List.nodup_iff_count_le_one.mpr fun handle => ?_
  by_cases hin : handle ∈ (drained ++ w.events.toList).filterMap (w.stillAttached? e)
  · obtain ⟨event, hevent, hsome⟩ := List.mem_filterMap.mp hin
    obtain ⟨rfl, hattached⟩ := stillAttached?_eq_some_iff.mp hsome
    have htold := h.told_of_attaches ((h.attached_mem_iff hattached).mp hevent)
    calc List.count handle ((drained ++ w.events.toList).filterMap (w.stillAttached? e))
        = (drained ++ w.events.toList).countP (fun event => w.stillAttached? e event == some handle) :=
          List.count_filterMap ..
      _ ≤ (drained ++ w.events.toList).countP (·.handle = handle) := by
          refine List.countP_mono_left fun event _ hsome => ?_
          obtain ⟨rfl, _⟩ := stillAttached?_eq_some_iff.mp (beq_iff_eq.mp hsome)
          simp [Event.handle]
      _ = (about handle (drained ++ w.events.toList)).length := List.countP_eq_length_filter ..
      _ = 1 := by rw [htold]; rfl
  · rw [List.count_eq_zero.mpr hin]
    exact Nat.zero_le 1

/-- A live entity holds its attached components, in the order in which the log tells of them. -/
theorem Faithful.handlesOf_eq (h : Faithful complete issued drained w) (hw : w.Sound) {e : Entity}
    (hlive : w.state? e = some .live) :
    w.handlesOf e = .ok ((drained ++ w.events.toList).filterMap (w.stillAttached? e)).toArray := by
  obtain ⟨slot, hslot, hgeneration, hstate⟩ := state?_eq_some_iff.mp hlive
  have hs : w.slot? e = some slot := slot?_eq_some_iff.mpr ⟨hslot, hgeneration, by simp [hstate]⟩
  have hlist := handlesAt_of_slot hslot
  have hnodup : (w.handlesAt e.id).Nodup := hlist ▸ hw.handles_nodup hslot
  have hfilter := h.filter_attachedHandle? hw hlive
  have hself : (w.handlesAt e.id).filter (· ∈ w.handlesAt e.id) = w.handlesAt e.id :=
    List.filter_eq_self.mpr fun _ hin => by simpa using hin
  have hsub := (h.ordered e.id).filter (· ∈ w.handlesAt e.id)
  rw [hself, hfilter] at hsub
  have hback : ∀ handle ∈ (drained ++ w.events.toList).filterMap (w.stillAttached? e), handle ∈ w.handlesAt e.id := by
    intro handle hin
    rw [← hfilter, List.mem_filter] at hin
    simpa using hin.2
  have hperm := (List.perm_ext_iff_of_nodup hnodup (h.nodup_stillAttached? e)).mpr fun handle =>
    ⟨fun hin => hsub.subset hin, hback handle⟩
  have heq := hsub.eq_of_length hperm.length_eq
  rw [← heq, hlist]
  simp [handlesOf, hs]

/-! ### The main statement -/

theorem drainedIn_append (w : World) (xs ys : List (Edit Entity Handle)) :
    w.drainedIn (xs ++ ys) = w.drainedIn xs ++ (w.run xs).drainedIn ys := by
  induction xs generalizing w with
  | nil => rfl
  | cons edit rest ih =>
    simp only [List.cons_append, drainedIn, ih, List.append_assoc]
    rfl

theorem flushesIdle_append (w : World) (xs ys : List (Edit Entity Handle)) :
    w.FlushesIdle (xs ++ ys) ↔ w.FlushesIdle xs ∧ (w.run xs).FlushesIdle ys := by
  induction xs generalizing w with
  | nil => simp [FlushesIdle, run]
  | cons edit rest ih =>
    simp only [List.cons_append, FlushesIdle, ih, and_assoc]
    rfl

theorem attaches_of_attach (hw : w.Sound) {owner : Entity} {c : Component} {h : Handle}
    (hanswer : (w.attach owner c).1 = .ok h) : (w.attach owner c).2.Attaches h owner := by
  rw [attach_eq] at hanswer ⊢
  cases hstate : w.state? owner with
  | none => simp [hstate] at hanswer
  | some l =>
    cases l with
    | pending => simp [hstate] at hanswer
    | live =>
      rw [hstate] at hanswer
      cases hanswer
      exact ⟨c, (Arena.get?_insert hw.entries _ _).trans (if_pos rfl)⟩

/-- The log of a run from the empty world. -/
def log (edits : List (Edit Entity Handle)) : List Event :=
  empty.drainedIn edits ++ (run empty edits).events.toList

theorem faithful_log (complete : Prop) {edits : List (Edit Entity Handle)}
    (hfills : ∀ i, fills (empty.attachments edits) i ≤ 2 ^ 31)
    (hidle : complete → empty.FlushesIdle edits) :
    Faithful complete (empty.attachments edits) (empty.drainedIn edits) (run empty edits) :=
  faithful_run (faithful_empty complete) sound_empty edits hfills hidle

theorem Faithful.about_prefix (h : Faithful complete issued drained w) {handle : Handle} {owner : Entity}
    (hmem : (handle, owner) ∈ issued) :
    about handle (drained ++ w.events.toList) <+: [.attached handle owner, .detached handle owner] := by
  by_cases hattached : w.Attaches handle owner
  · rw [h.told_of_attaches hattached]
    exact ⟨[.detached handle owner], rfl⟩
  · exact (h.told_of_not_attached hmem fun _ hlabel => hattached (attaches_of_label? hlabel)).1

theorem Faithful.attached_iff (h : Faithful True issued drained w) {handle : Handle} {owner : Entity}
    (hmem : (handle, owner) ∈ issued) :
    w.store.attachment? handle = some .attached ↔
      about handle (drained ++ w.events.toList) = [.attached handle owner] := by
  constructor
  · intro hattached
    obtain ⟨⟨owner', _, c⟩, hentry, rfl⟩ := Store.attachment?_eq_some_iff.mp hattached
    obtain ⟨hmem', htold⟩ := h.stored (label?_eq_of_entry hentry)
    cases h.owner_eq hmem hmem'
    exact htold
  · intro htold
    by_contra hnot
    rw [h.told_of_not_attaches hmem fun hattached => hnot (attachment?_of_attaches hattached)] at htold
    cases htold

/-- The log is a faithful history as long as no cell of the arena is filled more than 2³¹ times. No handle is given out
twice, and what the log tells of a component is the beginning of its life: its attachment, then that it was detached.
If every flush finds the queue empty the log is complete: a component is attached exactly if only its attachment has
been told, it has been told to be detached exactly if it was or if its owner was marked, and a live entity holds its
attached components in the order of their attachment. -/
theorem log_is_faithful (edits : List (Edit Entity Handle)) (hfills : ∀ i, fills (empty.attachments edits) i ≤ 2 ^ 31) :
    let w := run empty edits
    ((empty.attachments edits).map (·.1)).Nodup ∧
    (∀ h owner, (h, owner) ∈ empty.attachments edits →
      about h (log edits) <+: [.attached h owner, .detached h owner]) ∧
    (∀ h, h ∉ (empty.attachments edits).map (·.1) → about h (log edits) = []) ∧
    (empty.FlushesIdle edits →
      (∀ h owner, (h, owner) ∈ empty.attachments edits →
        (w.store.attachment? h = some .attached ↔ about h (log edits) = [.attached h owner])) ∧
      (∀ before owner c after h, edits = before ++ .attach owner c :: after →
        ((run empty before).attach owner c).1 = .ok h →
        (.detached h owner ∈ log edits ↔ Departs h owner (run empty (before ++ [.attach owner c])) after)) ∧
      ∀ e, w.state? e = some .live →
        w.handlesOf e = .ok ((log edits).filterMap (w.stillAttached? e)).toArray) := by
  intro w
  have hfaithful := faithful_log False hfills False.elim
  refine ⟨hfaithful.distinct, fun h owner hmem => hfaithful.about_prefix hmem, fun h hnot => hfaithful.unissued hnot,
    fun hidle => ?_⟩
  have hcomplete := faithful_log True hfills fun _ => hidle
  refine ⟨fun h owner hmem => hcomplete.attached_iff hmem, ?_,
    fun e hlive => hcomplete.handlesOf_eq (sound_run sound_empty edits) hlive⟩
  rintro before owner c after h rfl hanswer
  have hsplit : before ++ .attach owner c :: after = before ++ [.attach owner c] ++ after := by simp
  rw [hsplit] at hfills hidle ⊢
  rw [attachments_append] at hfills
  rw [flushesIdle_append] at hidle
  have hattached : (run empty (before ++ [.attach owner c])).Attaches h owner := by
    rw [run_append]
    exact attaches_of_attach (sound_run sound_empty before) hanswer
  have hnow := faithful_log True (fills_le_of_append hfills) fun _ => hidle.1
  have hiff := hnow.detached_mem_iff (sound_run sound_empty _) hattached after hfills hidle.2
  rwa [← drainedIn_append, ← run_append] at hiff

/-- Two scripts of one entity, the first of which is detached and released. -/
def twoScripts : List (Edit Entity Handle) :=
  [.spawn false, .attach ⟨0, 0⟩ ⟨.script, {}⟩, .attach ⟨0, 0⟩ ⟨.script, {}⟩, .detach ⟨1, 1⟩, .drain, .flush]

theorem log_of_two_scripts :
    (∀ i, fills (empty.attachments twoScripts) i ≤ 2 ^ 31) ∧ empty.FlushesIdle twoScripts ∧
    about ⟨1, 1⟩ (log twoScripts) <+: [.attached ⟨1, 1⟩ ⟨0, 0⟩, .detached ⟨1, 1⟩ ⟨0, 0⟩] ∧
    Event.detached ⟨1, 1⟩ ⟨0, 0⟩ ∈ log twoScripts ∧
    about ⟨2, 1⟩ (log twoScripts) = [.attached ⟨2, 1⟩ ⟨0, 0⟩] ∧
    ((log twoScripts).filterMap ((run empty twoScripts).stillAttached? ⟨0, 0⟩)).toArray = #[⟨2, 1⟩] := by
  have hattachments : empty.attachments twoScripts = [(⟨1, 1⟩, ⟨0, 0⟩), (⟨2, 1⟩, ⟨0, 0⟩)] := rfl
  have hfills : ∀ i, fills (empty.attachments twoScripts) i ≤ 2 ^ 31 := by
    intro i
    rw [hattachments]
    exact Nat.le_trans List.countP_le_length (by decide)
  have hidle : empty.FlushesIdle twoScripts := by
    refine ⟨?_, ?_, ?_, ?_, ?_, fun _ => rfl, trivial⟩ <;> rintro ⟨⟩
  obtain ⟨_, hprefix, _, hcomplete⟩ := log_is_faithful twoScripts hfills
  obtain ⟨hattached, hdetached, hhandles⟩ := hcomplete hidle
  refine ⟨hfills, hidle, hprefix _ _ (by simp [hattachments]), ?_, ?_, ?_⟩
  · refine (hdetached [.spawn false] ⟨0, 0⟩ ⟨.script, {}⟩ _ ⟨1, 1⟩ rfl rfl).mpr ?_
    exact .inr (.inl (.inl ⟨rfl, rfl⟩))
  · exact (hattached ⟨2, 1⟩ ⟨0, 0⟩ (by simp [hattachments])).mp rfl
  · have hlive := hhandles ⟨0, 0⟩ rfl
    cases hlive
    rfl

end Cadence.World
