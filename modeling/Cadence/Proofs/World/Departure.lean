import Cadence.Proofs.World.Retention

/-!
How an attached component leaves its owner. It is detached, or its owner is marked; nothing else takes it away.
-/

namespace Cadence.World

variable {w : World} {h : Handle} {owner : Entity}

/-- The component is attached to its owner. -/
def Attaches (w : World) (h : Handle) (owner : Entity) : Prop :=
  ∃ c, w.store.entries.get? h = some ⟨owner, .attached, c⟩

/-- The change detaches the component, or marks its owner. -/
def Takes (h : Handle) (owner : Entity) (w : World) (edit : Edit Entity Handle) : Prop :=
  (edit = .detach h ∧ (w.perform edit).1 = .ok (.flag true)) ∨
    (w.state? owner = some .live ∧ (w.perform edit).2.state? owner = some .pending)

/-- One of the changes detaches the component, or marks its owner. -/
def Departs (h : Handle) (owner : Entity) (w : World) : List (Edit Entity Handle) → Prop
  | [] => False
  | edit :: rest => Takes h owner w edit ∨ Departs h owner (w.perform edit).2 rest

/-! ### The queue for release -/

theorem releases_mark (w : World) (e : Entity) : (w.mark e).2.store.releases = w.store.releases := by
  rw [mark_eq]
  split
  · rfl
  · rfl
  · rw [foldl_unroute]
    exact releases_foldl_detach ..

theorem releases_markAll (w : World) (count : Nat) (es : List Entity) :
    (w.markAll count es).2.store.releases = w.store.releases :=
  markAll_preserves (I := (·.store.releases = w.store.releases)) (fun w' e h => (releases_mark w' e).trans h) rfl count
    es

theorem releases_modify (w : World) (k : Kind) (h : Handle) (f : k.Data → k.Data) :
    (w.modify k h f).2.store.releases = w.store.releases := by
  rw [modify]
  split <;> rfl

/-- Short of a flush, nothing joins the queue but a component that is detached. -/
theorem releases_perform (w : World) {edit : Edit Entity Handle} (hedit : edit ≠ .flush) :
    (w.perform edit).2.store.releases = w.store.releases ∨
      ∃ h, edit = .detach h ∧ (w.perform edit).1 = .ok (.flag true) ∧
        (w.perform edit).2.store.releases = w.store.releases.push h := by
  cases edit with
  | spawn persistent =>
    refine .inl ?_
    simp only [perform, spawn]
    split <;> rfl
  | attach e c =>
    refine .inl ?_
    rw [perform, answered, attach_eq]
    split <;> rfl
  | detach h =>
    rw [perform, answered, detach_eq]
    split
    · exact .inl rfl
    · exact .inr ⟨h, rfl, rfl, by simp [withDetached]⟩
    · exact .inl rfl
  | mark e => exact .inl (releases_mark w e)
  | clear persistentToo => exact .inl (releases_markAll w ..)
  | flush => exact absurd rfl hedit
  | setPersistent e persistent =>
    refine .inl ?_
    rw [perform, answered, setPersistent]
    split <;> rfl
  | drain => exact .inl rfl
  | overwrite h c => exact .inl (releases_modify w ..)
  | moveTo h x y => exact .inl (releases_modify w ..)
  | rotateTo h rotation => exact .inl (releases_modify w ..)
  | setVelocity h dx dy => exact .inl (releases_modify w ..)

/-! ### One change -/

theorem SoundStore.live_of_attaches (hw : w.SoundStore) (h : w.Attaches h owner) : w.state? owner = some .live := by
  obtain ⟨c, hentry⟩ := h
  obtain ⟨slot, hslot, hgeneration, hstate, _⟩ := hw.owner_of_attached hentry
  exact state?_eq_some_iff.mpr ⟨slot, hslot, hgeneration, hstate⟩

/-- A detached component is queued for release, or its owner is pending. -/
theorem SoundStore.mem_releases_or_pending (hw : w.SoundStore) {c : Component}
    (hentry : w.store.entries.get? h = some ⟨owner, .detached, c⟩) :
    h ∈ w.store.releases ∨ w.state? owner = some .pending := by
  by_cases hrelease : h ∈ w.store.releases
  · exact .inl hrelease
  obtain ⟨slot, hslot, hmem⟩ := hw.placed hentry hrelease
  obtain ⟨l, _, hl, hsame⟩ := hw.entry_of_mem_handles hslot hmem
  rw [hentry, Option.some.injEq, Store.Entry.mk.injEq] at hsame
  obtain ⟨howner, hattachment, _⟩ := hsame
  cases l with
  | live => cases hattachment
  | pending => exact .inr (state?_eq_some_iff.mpr ⟨slot, hslot, (congrArg Entity.generation howner).symm, hl⟩)

theorem attaches_of_not_takes (hw : w.Sound) (hattached : w.Attaches h owner) {edit : Edit Entity Handle}
    (hnot : ¬ Takes h owner w edit) : (w.perform edit).2.Attaches h owner := by
  have hlive := hw.live_of_attaches hattached
  obtain ⟨c, hentry⟩ := hattached
  by_cases hedit : edit = .flush
  · subst hedit
    refine ⟨c, (get?_entries_flush hw h).trans ?_⟩
    simp [hentry, Option.filter_some]
  obtain ⟨⟨owner', a, c'⟩, hentry', rfl, _⟩ := (retains_perform hw hedit).stored hentry
  cases a with
  | attached => exact ⟨c', hentry'⟩
  | detached =>
    refine absurd ?_ hnot
    obtain hrelease | hpending := (sound_perform hw edit).mem_releases_or_pending hentry'
    · obtain hsame | ⟨h', rfl, hanswer, hpush⟩ := releases_perform w hedit
      · rw [hsame] at hrelease
        obtain ⟨_, _, hdetached⟩ := hw.entry_of_mem_releases hrelease
        rw [hentry] at hdetached
        cases hdetached
      · rw [hpush, Array.mem_push] at hrelease
        obtain hrelease | rfl := hrelease
        · obtain ⟨_, _, hdetached⟩ := hw.entry_of_mem_releases hrelease
          rw [hentry] at hdetached
          cases hdetached
        · exact .inl ⟨rfl, hanswer⟩
    · exact .inr ⟨hlive, hpending⟩

theorem not_attaches_of_takes (hw : w.Sound) (hattached : w.Attaches h owner) {edit : Edit Entity Handle}
    (htakes : Takes h owner w edit) : ¬ (w.perform edit).2.Attaches h owner := by
  intro hattached'
  obtain ⟨rfl, _⟩ | ⟨_, hpending⟩ := htakes
  · obtain ⟨c, hentry⟩ := hattached
    obtain ⟨c', hentry'⟩ := hattached'
    have hdetached := Store.get?_entries_detach w.store h h
    rw [if_pos rfl, hentry] at hdetached
    rw [perform, answered, detach_eq, hentry] at hentry'
    cases hentry'.symm.trans hdetached
  · rw [(sound_perform hw edit).live_of_attaches hattached'] at hpending
    cases hpending

end Cadence.World
