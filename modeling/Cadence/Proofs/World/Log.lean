import Mathlib.Data.List.Nodup
import Cadence.Proofs.World.Extension
import Cadence.Proofs.World.Issue

/-!
The log of a run: the events that have been drained and, behind them, those still in the queue. It tells of every
component when it was attached and when it was detached, each once and in this order.
-/

namespace Cadence

/-- The component that an event tells of as attached. -/
def Event.attachedHandle? : Event → Option Handle
  | attached h _ => some h
  | detached .. => none

/-- All that there is to tell of a component, up to its attachment. -/
def Attachment.told (h : Handle) (owner : Entity) : Attachment → List Event
  | attached => [.attached h owner]
  | detached => [.attached h owner, .detached h owner]

namespace World

variable {w w' : World}

/-- The events about a handle. -/
def about (h : Handle) (log : List Event) : List Event := log.filter (·.handle = h)

theorem about_append (h : Handle) (xs ys : List Event) : about h (xs ++ ys) = about h xs ++ about h ys :=
  List.filter_append ..

theorem about_concat_self {h : Handle} {event : Event} (heq : event.handle = h) (log : List Event) :
    about h (log ++ [event]) = about h log ++ [event] := by
  simp [about, heq]

theorem about_concat_of_ne {h : Handle} {event : Event} (hne : event.handle ≠ h) (log : List Event) :
    about h (log ++ [event]) = about h log := by
  simp [about, hne]

/-- The handles in the slot of an id. -/
def handlesAt (w : World) (id : Nat) : List Handle := (w.slots[id]?.elim #[] (·.handles)).toList

theorem handlesAt_of_slot {id : Nat} {slot : Slot} (h : w.slots[id]? = some slot) :
    w.handlesAt id = slot.handles.toList := by
  simp [handlesAt, h]

/-- What the log tells agrees with the world: everything of what is stored, and of what is gone a first part, or
everything if no event has been discarded. The handles in the slots are in the order of the log. -/
structure Faithful (complete : Prop) (issued : List (Handle × Entity)) (drained : List Event) (w : World) : Prop
    extends Issued issued w where
  distinct : (issued.map (·.1)).Nodup
  stored : ∀ {h owner a kind}, w.label? h = some (owner, a, kind) →
    (h, owner) ∈ issued ∧ about h (drained ++ w.events.toList) = a.told h owner
  gone : ∀ {h owner}, (h, owner) ∈ issued → w.label? h = none →
    about h (drained ++ w.events.toList) <+: Attachment.detached.told h owner ∧
      (complete → about h (drained ++ w.events.toList) = Attachment.detached.told h owner)
  unissued : ∀ {h}, h ∉ issued.map (·.1) → about h (drained ++ w.events.toList) = []
  ordered : ∀ id, (w.handlesAt id).Sublist ((drained ++ w.events.toList).filterMap Event.attachedHandle?)

variable {complete : Prop} {issued : List (Handle × Entity)} {drained : List Event}

theorem faithful_empty (complete : Prop) : Faithful complete [] [] empty where
  toIssued := issued_empty
  distinct := List.nodup_nil
  stored {h owner a kind} hlabel := by
    have hnone : empty.store.entries.get? h = none := Arena.get?_empty h
    simp [label?, hnone] at hlabel
  gone hmem := by cases hmem
  unissued _ := rfl
  ordered id := by simp [handlesAt, empty]

theorem Faithful.owner_eq (h : Faithful complete issued drained w) {handle : Handle} {owner owner' : Entity}
    (hmem : (handle, owner) ∈ issued) (hmem' : (handle, owner') ∈ issued) : owner = owner' := by
  have hsame := List.inj_on_of_nodup_map h.distinct hmem hmem' rfl
  exact congrArg Prod.snd hsame

/-- Of a component that is not attached any more, a first part has been told, and all of it if no event is missing. -/
theorem Faithful.told_of_not_attached (h : Faithful complete issued drained w) {handle : Handle} {owner : Entity}
    (hmem : (handle, owner) ∈ issued) (hnot : ∀ kind, w.label? handle ≠ some (owner, .attached, kind)) :
    about handle (drained ++ w.events.toList) <+: Attachment.detached.told handle owner ∧
      (complete → about handle (drained ++ w.events.toList) = Attachment.detached.told handle owner) := by
  cases hlabel : w.label? handle with
  | none => exact h.gone hmem hlabel
  | some label =>
    obtain ⟨owner', a, kind⟩ := label
    obtain ⟨hmem', htold⟩ := h.stored hlabel
    cases h.owner_eq hmem hmem'
    cases a with
    | attached => exact absurd hlabel (hnot kind)
    | detached => exact ⟨htold ▸ List.prefix_rfl, fun _ => htold⟩

/-! ### Changes, one component at a time -/

/-- A change that concerns no attachment; the queue may be drained. -/
theorem Faithful.same {drained' : List Event} (h : Faithful complete issued drained w)
    (hcounts : ∀ {fills}, w.store.entries.Counts fills → w'.store.entries.Counts fills)
    (hlabel : ∀ h, w'.label? h = w.label? h) (hlog : drained' ++ w'.events.toList = drained ++ w.events.toList)
    (hhandles : ∀ id, (w'.handlesAt id).Sublist (w.handlesAt id)) : Faithful complete issued drained' w' where
  toIssued := h.toIssued.of_counts hcounts
  distinct := h.distinct
  stored {handle owner a kind} hold := by
    rw [hlabel] at hold
    rw [hlog]
    exact h.stored hold
  gone hmem hnone := by
    rw [hlabel] at hnone
    rw [hlog]
    exact h.gone hmem hnone
  unissued hnot := hlog ▸ h.unissued hnot
  ordered id := hlog ▸ (hhandles id).trans (h.ordered id)

theorem Faithful.attached (h : Faithful complete issued drained w) {new : Handle} {e : Entity} {kind : Kind}
    (hnew : new ∉ issued.map (·.1)) (hissued : Issued (issued ++ [(new, e)]) w')
    (hlabel : ∀ h, w'.label? h = if h = new then some (e, .attached, kind) else w.label? h)
    (hevents : w'.events = w.events.push (.attached new e))
    (hhandles : ∀ id, (w'.handlesAt id).Sublist (w.handlesAt id ++ [new])) :
    Faithful complete (issued ++ [(new, e)]) drained w' := by
  have hlog : drained ++ w'.events.toList = drained ++ w.events.toList ++ [.attached new e] := by simp [hevents]
  have hother {handle : Handle} (hne : handle ≠ new) :
      about handle (drained ++ w'.events.toList) = about handle (drained ++ w.events.toList) := by
    rw [hlog, about_concat_of_ne (Ne.symm hne)]
  refine ⟨hissued, ?_, fun {handle owner a kind'} hold => ?_, fun {handle owner} hmem hnone => ?_,
    fun {handle} hnot => ?_, fun id => ?_⟩
  · simpa [List.nodup_append, h.distinct] using fun a b hab => fun heq => hnew (List.mem_map.mpr ⟨_, hab, heq⟩)
  · rw [hlabel] at hold
    split at hold
    · subst handle
      cases hold
      refine ⟨by simp, ?_⟩
      rw [hlog, about_concat_self (h := new) rfl, h.unissued hnew]
      rfl
    · rw [hother ‹_›]
      exact ⟨List.mem_append_left _ (h.stored hold).1, (h.stored hold).2⟩
  · rw [hlabel] at hnone
    split at hnone
    · cases hnone
    · rename_i hne
      obtain hmem | hmem := List.mem_append.mp hmem
      · rw [hother hne]
        exact h.gone hmem hnone
      · rw [List.mem_singleton, Prod.mk.injEq] at hmem
        exact absurd hmem.1 hne
  · rw [List.map_append, List.mem_append, not_or] at hnot
    rw [hother (by simpa using hnot.2)]
    exact h.unissued hnot.1
  · rw [hlog, List.filterMap_append]
    exact (hhandles id).trans ((h.ordered id).append (List.Sublist.refl [new]))

theorem Faithful.detached (h : Faithful complete issued drained w) {handle : Handle} {e : Entity} {kind : Kind}
    (hcounts : ∀ {fills}, w.store.entries.Counts fills → w'.store.entries.Counts fills)
    (hattached : w.label? handle = some (e, .attached, kind))
    (hlabel : ∀ h, w'.label? h = if h = handle then some (e, .detached, kind) else w.label? h)
    (hevents : w'.events = w.events.push (.detached handle e))
    (hhandles : ∀ id, (w'.handlesAt id).Sublist (w.handlesAt id)) : Faithful complete issued drained w' := by
  obtain ⟨hmem, habout⟩ := h.stored hattached
  have hlog : drained ++ w'.events.toList = drained ++ w.events.toList ++ [.detached handle e] := by simp [hevents]
  have hother {handle' : Handle} (hne : handle' ≠ handle) :
      about handle' (drained ++ w'.events.toList) = about handle' (drained ++ w.events.toList) := by
    rw [hlog, about_concat_of_ne (Ne.symm hne)]
  refine ⟨h.toIssued.of_counts hcounts, h.distinct, fun {handle' owner a kind'} hold => ?_,
    fun {handle' owner} hmem' hnone => ?_, fun {handle'} hnot => ?_, fun id => ?_⟩
  · rw [hlabel] at hold
    split at hold
    · subst handle'
      cases hold
      refine ⟨hmem, ?_⟩
      rw [hlog, about_concat_self (h := handle) rfl, habout]
      rfl
    · rw [hother ‹_›]
      exact h.stored hold
  · rw [hlabel] at hnone
    split at hnone
    · cases hnone
    · rw [hother ‹_›]
      exact h.gone hmem' hnone
  · rw [hother fun heq => hnot (List.mem_map.mpr ⟨_, hmem, heq.symm⟩)]
    exact h.unissued hnot
  · rw [hlog, List.filterMap_append]
    exact (hhandles id).trans ((h.ordered id).trans (List.sublist_append_left ..))

/-! ### The flush -/

theorem label?_flush (hw : w.Sound) (h : Handle) :
    w.flush.2.label? h = (w.label? h).filter fun label => label.2.1 = .attached := by
  rw [label?, label?, get?_entries_flush hw, Option.filter_map]
  rfl

theorem attachment?_eq_map_label? (w : World) (h : Handle) : w.store.attachment? h = (w.label? h).map (·.2.1) := by
  simp [Store.attachment?, label?, Function.comp_def]

theorem about_filter_attached (w : World) (h : Handle) :
    about h (w.events.toList.filter fun event => w.store.attachment? event.handle == some .attached) =
      if w.store.attachment? h = some .attached then about h w.events.toList else [] := by
  rw [about, List.filter_filter]
  split
  · refine List.filter_congr fun event _ => ?_
    by_cases heq : event.handle = h <;> simp [*]
  · refine List.filter_eq_nil_iff.mpr fun event _ => ?_
    by_cases heq : event.handle = h <;> simp [*]

theorem handlesAt_flush (hw : w.Sound) (id : Nat) :
    (w.flush.2.handlesAt id).Sublist (w.handlesAt id) ∧
      ∀ h ∈ w.flush.2.handlesAt id, w.store.attachment? h = some .attached := by
  have hget := getElem?_slots_flush hw id
  cases hslot : w.slots[id]? with
  | none => simp [handlesAt, hget, hslot]
  | some slot =>
    rw [hslot] at hget
    rw [handlesAt_of_slot hget, handlesAt_of_slot hslot]
    by_cases hpending : slot.state = some .pending
    · simp [Slot.flushed, hpending]
    · rw [Slot.flushed_eq_self hpending]
      refine ⟨.refl _, fun h hmem => ?_⟩
      obtain ⟨l, c, hl, hentry⟩ := hw.entry_of_mem_handles hslot (Array.mem_toList_iff.mp hmem)
      cases l with
      | live => simp [Store.attachment?, hentry, Lifecycle.attachment]
      | pending => exact absurd hl hpending

theorem counts_flush {fills : Nat → Nat} (hcounts : w.store.entries.Counts fills) :
    w.flush.2.store.entries.Counts fills := by
  obtain ⟨hs, hentries⟩ := exists_releases_flush w
  rw [hentries]
  clear hentries
  revert hcounts
  generalize w.store.entries = entries
  induction hs generalizing entries with
  | nil => exact id
  | cons handle rest ih => exact fun hcounts => ih _ (hcounts.remove handle)

theorem events_toList_flush (w : World) : w.flush.2.events.toList =
    w.events.toList.filter fun event => w.store.attachment? event.handle == some .attached := by
  rw [events_flush_eq_filter, Array.toList_filter]

theorem about_log_flush (w : World) (drained : List Event) (h : Handle) :
    about h (drained ++ w.flush.2.events.toList) =
      about h drained ++ if w.store.attachment? h = some .attached then about h w.events.toList else [] := by
  rw [about_append, events_toList_flush, about_filter_attached]

theorem prefix_about_log_flush (w : World) (drained : List Event) (h : Handle) :
    about h (drained ++ w.flush.2.events.toList) <+: about h (drained ++ w.events.toList) := by
  rw [about_log_flush, about_append]
  split
  · exact List.prefix_rfl
  · simp

/-- The components that stay in a slot are still told of in their order. -/
theorem Faithful.ordered_flush (h : Faithful complete issued drained w) (hw : w.Sound) (id : Nat) :
    (w.flush.2.handlesAt id).Sublist ((drained ++ w.flush.2.events.toList).filterMap Event.attachedHandle?) := by
  obtain ⟨hsublist, hattached⟩ := handlesAt_flush hw id
  let attached (handle : Handle) : Bool := w.store.attachment? handle == some .attached
  have hkept : ((w.events.toList.filterMap Event.attachedHandle?).filter attached) =
      w.flush.2.events.toList.filterMap Event.attachedHandle? := by
    rw [events_toList_flush, List.filter_filterMap, List.filterMap_filter]
    refine List.filterMap_congr fun event _ => ?_
    cases event <;> simp [Event.attachedHandle?, Event.handle, Option.filter_some, attached]
  have hself : (w.flush.2.handlesAt id).filter attached = w.flush.2.handlesAt id :=
    List.filter_eq_self.mpr fun handle hmem => by simpa [attached] using hattached handle hmem
  have hfilter := (hsublist.trans (h.ordered id)).filter attached
  rw [hself, List.filterMap_append, List.filter_append, hkept] at hfilter
  rw [List.filterMap_append]
  exact hfilter.trans (List.filter_sublist.append (.refl _))

/-- Events are discarded about components that are released, and those only. -/
theorem Faithful.flush (h : Faithful complete issued drained w) (hw : w.Sound)
    (hempty : complete → w.events = #[]) : Faithful complete issued drained w.flush.2 := by
  have hall (hcomplete : complete) : w.flush.2.events = w.events := by
    have hnone := hempty hcomplete
    rw [events_flush_eq_filter, hnone]
    rfl
  refine ⟨h.toIssued.of_counts counts_flush, h.distinct, fun {handle owner a kind} hold => ?_,
    fun {handle owner} hmem hnone => ?_, fun {handle} hnot => ?_, h.ordered_flush hw⟩
  · rw [label?_flush hw, Option.filter_eq_some_iff] at hold
    obtain ⟨hold, hattached⟩ := hold
    obtain ⟨hmem, htold⟩ := h.stored hold
    refine ⟨hmem, ?_⟩
    rw [about_log_flush, if_pos (by simpa [attachment?_eq_map_label?, hold] using hattached), ← about_append, htold]
  · rw [label?_flush hw] at hnone
    obtain ⟨hpart, htold⟩ := h.told_of_not_attached hmem fun kind hold => by simp [hold, Option.filter_some] at hnone
    exact ⟨(prefix_about_log_flush w drained handle).trans hpart, fun hcomplete => hall hcomplete ▸ htold hcomplete⟩
  · have hprefix := prefix_about_log_flush w drained handle
    rw [h.unissued hnot] at hprefix
    exact List.prefix_nil.mp hprefix

end World

end Cadence
