import Cadence.Proofs.World.Routing

/-!
What every change does that neither flushes nor takes the queue away: what is stored stays and keeps its kind, and
the events added to the queue say exactly how the attached components have changed.
-/

namespace Cadence

namespace Catalog

/-! ### The owners after one event -/

theorem owner?_note_attached {k : Catalog} (hk : k.index.Sound) (h h' : Handle) (owner : Entity) (kind : Kind) :
    (k.note (.attached h owner) kind).index.owner? h' =
      if k.accepts kind ∧ h' = h then (k.index.owner? h).or (some owner) else k.index.owner? h' := by
  rw [note]
  by_cases haccepts : k.accepts kind
  · rw [if_pos haccepts]
    simpa [haccepts] using Index.owner?_insert hk h h' owner
  · simp [haccepts]

theorem owner?_note_detached {k : Catalog} (hk : k.index.Sound) (h h' : Handle) (owner : Entity) (kind : Kind) :
    (k.note (.detached h owner) kind).index.owner? h' =
      if k.accepts kind ∧ h' = h then none else k.index.owner? h' := by
  rw [note]
  by_cases haccepts : k.accepts kind
  · rw [if_pos haccepts]
    simpa [haccepts] using Index.owner?_remove hk h h'
  · simp [haccepts]

/-! ### Events that are news -/

/-- The components that the events call attached are not in the index yet when their turn comes. -/
def Unheard (w : World) (k : Catalog) : List Event → Prop
  | [] => True
  | event :: rest =>
    (∀ h owner, event = .attached h owner → k.index.owner? h = none) ∧ Unheard w (k.hear w event) rest

theorem unheard_append {w : World} {k : Catalog} {xs ys : List Event} :
    k.Unheard w (xs ++ ys) ↔ k.Unheard w xs ∧ (k.replay w xs).Unheard w ys := by
  induction xs generalizing k with
  | nil => simp [Unheard]
  | cons event rest ih =>
    rw [List.cons_append, Unheard, Unheard, ih, and_assoc]
    rfl

/-- What is news depends on nothing but the kinds of the components that the events are about. -/
theorem unheard_congr {w w' : World} {events : List Event}
    (h : ∀ event ∈ events, w'.kind? event.handle = w.kind? event.handle) {k : Catalog} (hk : k.Unheard w events) :
    k.Unheard w' events := by
  induction events generalizing k with
  | nil => trivial
  | cons event rest ih =>
    have hhead : hear w' k event = hear w k event := by simp only [hear, h event (by simp)]
    refine ⟨hk.1, ?_⟩
    rw [hhead]
    exact ih (fun event hmem => h event (by simp [hmem])) hk.2

end Catalog

namespace World

/-- Every handle finds a component of the same kind as before. -/
def Keeps (w w' : World) : Prop := ∀ h kind, w.kind? h = some kind → w'.kind? h = some kind

theorem Keeps.refl (w : World) : w.Keeps w := fun _ _ h => h

theorem Keeps.trans {w w' w'' : World} (h : w.Keeps w') (h' : w'.Keeps w'') : w.Keeps w'' :=
  fun handle kind hkind => h' handle kind (h handle kind hkind)

theorem Keeps.kind?_eq {w w' : World} (h : w.Keeps w') {handle : Handle} (hsome : (w.kind? handle).isSome) :
    w'.kind? handle = w.kind? handle := by
  obtain ⟨kind, hkind⟩ := Option.isSome_iff_exists.mp hsome
  rw [hkind]
  exact h handle kind hkind

/-- `w'` comes from `w` by changes that have added `news` to the queue. -/
structure Extends (w w' : World) (news : List Event) : Prop where
  keeps : w.Keeps w'
  events : w'.events.toList = w.events.toList ++ news
  stored : ∀ event ∈ news, (w'.kind? event.handle).isSome
  unheard : ∀ {k : Catalog}, k.Lists w → k.Unheard w' news
  settled : ∀ {k : Catalog}, k.Lists w → (k.replay w' news).Lists w'

theorem Extends.refl (w : World) : w.Extends w [] where
  keeps := Keeps.refl w
  events := by simp
  stored event hmem := by cases hmem
  unheard _ := trivial
  settled h := h

theorem Extends.trans {w w' w'' : World} {xs ys : List Event} (h : w.Extends w' xs) (h' : w'.Extends w'' ys) :
    w.Extends w'' (xs ++ ys) where
  keeps := h.keeps.trans h'.keeps
  events := by rw [h'.events, h.events, List.append_assoc]
  stored event hmem := by
    obtain hmem | hmem := List.mem_append.mp hmem
    · rw [h'.keeps.kind?_eq (h.stored event hmem)]
      exact h.stored event hmem
    · exact h'.stored event hmem
  unheard {k} hk := by
    have hkinds : ∀ event ∈ xs, w''.kind? event.handle = w'.kind? event.handle := fun event hmem =>
      h'.keeps.kind?_eq (h.stored event hmem)
    rw [Catalog.unheard_append, Catalog.replay_congr hkinds]
    exact ⟨Catalog.unheard_congr hkinds (h.unheard hk), h'.unheard (h.settled hk)⟩
  settled {k} hk := by
    have hsame : k.replay w'' xs = k.replay w' xs :=
      Catalog.replay_congr (fun event hmem => h'.keeps.kind?_eq (h.stored event hmem)) k
    rw [Catalog.replay_append, hsame]
    exact h'.settled (h.settled hk)

/-- A change that leaves the labels of all components alone adds nothing to the queue. -/
theorem Extends.of_label? {w w' : World} (hlabel : ∀ h, w'.label? h = w.label? h) (hevents : w'.events = w.events) :
    w.Extends w' [] where
  keeps h kind hkind := by
    rw [kind?, hlabel]
    exact hkind
  events := by simp [hevents]
  stored event hmem := by cases hmem
  unheard _ := trivial
  settled {k} hk := by
    refine ⟨hk.sound, fun h => ?_⟩
    rw [Catalog.replay_nil, hk.owner?_eq]
    simp only [attachedOwner?, hlabel]

theorem label?_congr {w w' : World} (hstore : w'.store = w.store) (h : Handle) : w'.label? h = w.label? h := by
  rw [label?, label?, hstore]

/-! ### Attaching -/

theorem label?_withAttached {w : World} (hw : w.store.entries.Sound) (e : Entity) (c : Component) (h : Handle) :
    (w.withAttached e c).label? h =
      if h = (w.store.insert e c).1 then some (e, .attached, c.kind) else w.label? h := by
  have hget : (w.withAttached e c).store.entries.get? h =
      if h = (w.store.insert e c).1 then some ⟨e, .attached, c⟩ else w.store.entries.get? h :=
    Arena.get?_insert hw _ h
  rw [label?, hget]
  split <;> rfl

theorem label?_insert_self {w : World} (hw : w.store.entries.Sound) (e : Entity) (c : Component) :
    w.label? (w.store.insert e c).1 = none := by
  have hfresh := Arena.get?_insert_self_eq_none hw ⟨e, .attached, c⟩
  rw [label?, Store.fst_insert, hfresh]
  rfl

theorem extends_withAttached {w : World} (hw : w.store.entries.Sound) (e : Entity) (c : Component) :
    w.Extends (w.withAttached e c) [.attached (w.store.insert e c).1 e] := by
  have hlabel := label?_withAttached hw e c
  have hfresh := label?_insert_self hw e c
  have hevents : (w.withAttached e c).events = w.events.push (.attached (w.store.insert e c).1 e) := rfl
  revert hlabel hfresh hevents
  generalize w.withAttached e c = w'
  generalize (w.store.insert e c).1 = new
  intro hlabel hfresh hevents
  refine ⟨fun h kind hkind => ?_, by simp [hevents], fun event hmem => ?_, fun {k} hk => ?_, fun {k} hk => ?_⟩
  · have hne : h ≠ new := by
      rintro rfl
      simp [kind?, hfresh] at hkind
    rw [kind?, hlabel, if_neg hne]
    exact hkind
  · rw [List.mem_singleton] at hmem
    simp [hmem, Event.handle, kind?, hlabel]
  · refine ⟨?_, trivial⟩
    rintro h owner ⟨⟩
    rw [hk.owner?_eq, attachedOwner?, hfresh]
    rfl
  · have hkind : w'.kind? new = some c.kind := by simp [kind?, hlabel]
    have hheard : k.replay w' [.attached new e] = k.note (.attached new e) c.kind := by
      simp [Catalog.replay, Catalog.hear, Event.handle, hkind]
    rw [hheard]
    refine ⟨Catalog.sound_note hk.sound _ _, fun h => ?_⟩
    have hnone : w.attachedOwner? k.accepts new = none := by simp [attachedOwner?, hfresh]
    rw [Catalog.accepts_note, Catalog.owner?_note_attached hk.sound, hk.owner?_eq, hk.owner?_eq, hnone]
    simp only [attachedOwner?, hlabel]
    by_cases hh : h = new
    · subst hh
      by_cases haccepts : k.accepts c.kind <;> simp [haccepts, hfresh]
    · simp [hh]

/-! ### Detaching -/

theorem extends_of_detached {w w' : World} {h : Handle} {owner : Entity} {kind : Kind}
    (hattached : w.label? h = some (owner, .attached, kind))
    (hlabel : ∀ h', w'.label? h' = if h' = h then some (owner, .detached, kind) else w.label? h')
    (hevents : w'.events = w.events.push (.detached h owner)) : w.Extends w' [.detached h owner] := by
  refine ⟨fun h' kind' hkind => ?_, by simp [hevents], fun event hmem => ?_, fun _ => ⟨by rintro _ _ ⟨⟩, trivial⟩,
    fun {k} hk => ?_⟩
  · by_cases hh : h' = h
    · subst hh
      simpa [kind?, hlabel, hattached] using hkind
    · rw [kind?, hlabel, if_neg hh]
      exact hkind
  · rw [List.mem_singleton] at hmem
    simp [hmem, Event.handle, kind?, hlabel]
  · have hkind : w'.kind? h = some kind := by simp [kind?, hlabel]
    have hheard : k.replay w' [.detached h owner] = k.note (.detached h owner) kind := by
      simp [Catalog.replay, Catalog.hear, Event.handle, hkind]
    rw [hheard]
    refine ⟨Catalog.sound_note hk.sound _ _, fun h' => ?_⟩
    rw [Catalog.accepts_note, Catalog.owner?_note_detached hk.sound, hk.owner?_eq]
    simp only [attachedOwner?, hlabel]
    by_cases hh : h' = h
    · subst hh
      by_cases haccepts : k.accepts kind <;> simp [haccepts, hattached]
    · simp [hh]

theorem label?_eq_of_entry {w : World} {h : Handle} {owner : Entity} {a : Attachment} {c : Component}
    (hentry : w.store.entries.get? h = some ⟨owner, a, c⟩) : w.label? h = some (owner, a, c.kind) := by
  rw [label?, hentry]
  rfl

/-- The labels after a component has been detached in the store. -/
theorem label?_of_detach {w w' : World} {h : Handle} {owner : Entity} {a : Attachment} {kind : Kind}
    (hattached : w.label? h = some (owner, a, kind)) (hentries : w'.store.entries = (w.store.detach h).2.entries)
    (h' : Handle) : w'.label? h' = if h' = h then some (owner, .detached, kind) else w.label? h' := by
  obtain ⟨entry, hentry, heq⟩ := Option.map_eq_some_iff.mp hattached
  rw [label?, hentries, Store.get?_entries_detach]
  by_cases hh : h' = h
  · subst hh
    simp only [Prod.mk.injEq] at heq
    simp [hentry, Store.Entry.detached, heq]
  · simp [hh, label?]

theorem extends_detach (w : World) (h : Handle) : ∃ news, w.Extends (w.detach h).2 news := by
  rw [detach_eq]
  split
  · exact ⟨[], Extends.refl w⟩
  · rename_i owner c hentry
    have hattached := label?_eq_of_entry hentry
    exact ⟨_, extends_of_detached hattached (label?_of_detach hattached rfl) rfl⟩
  · exact ⟨[], Extends.refl w⟩

/-! ### Marking -/

theorem extends_unroute {w : World} {e : Entity} {h : Handle} {kind : Kind}
    (hattached : w.label? h = some (e, .attached, kind)) :
    w.Extends (unroute e w h) [.detached h e] ∧
      ∀ h', (unroute e w h).label? h' = if h' = h then some (e, .detached, kind) else w.label? h' := by
  have hlabel : ∀ h', (unroute e w h).label? h' = if h' = h then some (e, .detached, kind) else w.label? h' := by
    refine label?_of_detach hattached ?_
    rw [unroute_eq]
  have hdetach : (w.store.detach h).1 = true := by
    obtain ⟨entry, hentry, heq⟩ := Option.map_eq_some_iff.mp hattached
    simp only [Prod.mk.injEq] at heq
    simp [Store.fst_detach, Store.attachment?, hentry, heq]
  refine ⟨extends_of_detached hattached hlabel ?_, hlabel⟩
  rw [unroute_eq]
  simp [hdetach]

/-- The components of one entity are detached one after the other; each of them is attached until it is its turn. -/
theorem extends_foldl_unroute {w : World} {e : Entity} {hs : List Handle} (hnodup : hs.Nodup)
    (hattached : ∀ h ∈ hs, ∃ kind, w.label? h = some (e, .attached, kind)) :
    w.Extends (hs.foldl (unroute e) w) (hs.map (.detached · e)) := by
  induction hs generalizing w with
  | nil => exact Extends.refl w
  | cons h rest ih =>
    rw [List.nodup_cons] at hnodup
    obtain ⟨kind, hkind⟩ := hattached h (by simp)
    -- the handles that are left differ from `h`, so that their labels have not changed
    obtain ⟨hfirst, hlabel⟩ := extends_unroute hkind
    refine hfirst.trans (ih hnodup.2 fun h' hmem => ?_)
    have hne : h' ≠ h := by
      rintro rfl
      exact hnodup.1 hmem
    rw [hlabel, if_neg hne]
    exact hattached h' (by simp [hmem])

/-- The components of a live entity are attached to it, and each is in its list once. -/
theorem attached_handleList {w : World} (hw : w.Sound) {e : Entity} (hlive : w.state? e = some .live) :
    (w.handleList e).Nodup ∧ ∀ h ∈ w.handleList e, ∃ kind, w.label? h = some (e, .attached, kind) := by
  obtain ⟨slot, hslot, hgeneration, hstate⟩ := state?_eq_some_iff.mp hlive
  rw [handleList_of_slot hslot hgeneration hstate]
  refine ⟨hw.handles_nodup hslot, fun h hmem => ?_⟩
  obtain ⟨l, c, hl, hentry⟩ := hw.entry_of_mem_handles hslot (Array.mem_toList_iff.mp hmem)
  rw [hstate, Option.some.injEq] at hl
  subst hl
  rw [hgeneration] at hentry
  exact ⟨c.kind, label?_eq_of_entry hentry⟩

theorem extends_mark {w : World} (hw : w.Sound) (e : Entity) : ∃ news, w.Extends (w.mark e).2 news := by
  rw [mark_eq]
  split
  · exact ⟨[], Extends.refl w⟩
  · exact ⟨[], Extends.refl w⟩
  obtain ⟨hnodup, hattached⟩ := attached_handleList hw ‹_›
  have hpending : w.Extends (w.withPending e) [] := Extends.of_label? (label?_congr rfl) rfl
  exact ⟨_, hpending.trans (extends_foldl_unroute hnodup hattached)⟩

theorem extends_markAll {w : World} (hw : w.Sound) (count : Nat) (es : List Entity) :
    ∃ news, w.Extends (w.markAll count es).2 news := by
  have hstep (w' : World) (e : Entity) (h : w'.Sound ∧ ∃ news, w.Extends w' news) :
      (w'.mark e).2.Sound ∧ ∃ news, w.Extends (w'.mark e).2 news := by
    obtain ⟨hsound, xs, hxs⟩ := h
    obtain ⟨ys, hys⟩ := extends_mark hsound e
    exact ⟨sound_mark hsound e, xs ++ ys, hxs.trans hys⟩
  exact (markAll_preserves hstep ⟨hw, [], Extends.refl w⟩ count es).2

/-! ### All changes -/

/-- A change that releases no component and leaves the queue to the systems. -/
def Edit.IsRouted {ε η : Type} : Edit ε η → Prop
  | flush => False
  | drain => False
  | _ => True

theorem label?_modify (w : World) (k : Kind) (h : Handle) (f : k.Data → k.Data) (h' : Handle) :
    (w.modify k h f).2.label? h' = w.label? h' := by
  rw [modify]
  split
  · rfl
  rename_i data hdata
  -- a component of kind `k` is there, and `k` it remains
  have hkind : w.kind? h = some k := by
    rw [kind?_eq_map]
    rw [component] at hdata
    split at hdata
    · cases hdata
    · rename_i c hc
      split at hdata
      · cases hdata
      · rename_i old hold
        rw [Component.as_eq_some_iff.mp hold] at hc
        simp [hc]
  obtain ⟨⟨owner, attachment, kind⟩, hlabel, heq⟩ := Option.map_eq_some_iff.mp hkind
  obtain ⟨entry, hentry, hentry'⟩ := Option.map_eq_some_iff.mp hlabel
  rw [label?, label?, Store.get?_entries_set]
  by_cases hh : h' = h
  · subst hh
    simp_all
  · simp [hh]

theorem extends_modify (w : World) (k : Kind) (h : Handle) (f : k.Data → k.Data) : w.Extends (w.modify k h f).2 [] := by
  refine Extends.of_label? (label?_modify w k h f) ?_
  rw [modify]
  split <;> rfl

theorem extends_perform {w : World} (hw : w.Sound) {edit : Edit Entity Handle} (hedit : edit.IsRouted) :
    ∃ news, w.Extends (w.perform edit).2 news := by
  cases edit with
  | spawn persistent =>
    refine ⟨[], Extends.of_label? (label?_congr ?_) ?_⟩ <;> simp only [perform, spawn] <;> split <;> rfl
  | attach e c =>
    show ∃ news, w.Extends (w.attach e c).2 news
    rw [attach_eq]
    split
    · exact ⟨[], Extends.refl w⟩
    · exact ⟨[], Extends.refl w⟩
    · exact ⟨_, extends_withAttached hw.entries e c⟩
  | detach h => exact extends_detach w h
  | mark e => exact extends_mark hw e
  | clear persistentToo => exact extends_markAll hw ..
  | flush => cases hedit
  | setPersistent e persistent =>
    refine ⟨[], Extends.of_label? (label?_congr ?_) ?_⟩ <;>
      simp only [perform, answered, setPersistent] <;> split <;> rfl
  | drain => cases hedit
  | overwrite h c => exact ⟨[], extends_modify w ..⟩
  | moveTo h x y => exact ⟨[], extends_modify w ..⟩
  | rotateTo h rotation => exact ⟨[], extends_modify w ..⟩
  | setVelocity h dx dy => exact ⟨[], extends_modify w ..⟩

end World

end Cadence
