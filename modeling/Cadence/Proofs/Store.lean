import Cadence.Store
import Cadence.Proofs.Arena

/-!
What the operations of a store do to the entries behind its handles and to the queue of handles to be released.
-/

namespace Cadence.Store

/-- The entry after its component has been detached. -/
def Entry.detached (entry : Entry) : Entry := { entry with attachment := .detached }

theorem Entry.detached_eq_self {entry : Entry} (h : entry.attachment = .detached) : entry.detached = entry := by
  obtain ⟨_, _, _⟩ := entry
  simp_all [Entry.detached]

theorem attachment?_eq_some_iff {s : Store} {h : Handle} {a : Attachment} :
    s.attachment? h = some a ↔ ∃ entry, s.entries.get? h = some entry ∧ entry.attachment = a := by
  simp [attachment?]

/-! ### Insertion and replacement -/

theorem fst_insert (s : Store) (owner : Entity) (c : Component) :
    (s.insert owner c).1 = (s.entries.insert ⟨owner, .attached, c⟩).1 := rfl

theorem get?_entries_set (s : Store) (h h' : Handle) (c : Component) :
    (s.set h c).entries.get? h' =
      if h' = h then (s.entries.get? h).map ({ · with component := c }) else s.entries.get? h' :=
  Arena.get?_modify ..

theorem getAs?_eq_of_get? {s s' : Store} {h : Handle} (hget : s'.get? h = s.get? h) (k : Kind) :
    s'.getAs? k h = s.getAs? k h := by
  rw [getAs?, getAs?, hget]

theorem get?_set (s : Store) (h h' : Handle) (c : Component) :
    (s.set h c).get? h' = if h' = h then (s.get? h).map fun _ => c else s.get? h' := by
  rw [get?, get?_entries_set]
  split
  · simp [get?, Function.comp_def]
  · rfl

/-- Data written in place of other data of its kind. -/
theorem getAs?_set_self {s : Store} {k : Kind} {h : Handle} {a : k.Data} (hget : s.getAs? k h = some a) (d : k.Data)
    (h' : Handle) : (s.set h ⟨k, d⟩).getAs? k h' = if h' = h then some d else s.getAs? k h' := by
  obtain ⟨c, hc, _⟩ := Option.bind_eq_some_iff.mp hget
  rw [getAs?, get?_set]
  split
  · simp [hc]
  · rfl

theorem getAs?_set_of_ne {s : Store} {k k' : Kind} {h : Handle} {a : k.Data} (hget : s.getAs? k h = some a)
    (d : k.Data) (hne : k' ≠ k) (h' : Handle) : (s.set h ⟨k, d⟩).getAs? k' h' = s.getAs? k' h' := by
  obtain ⟨c, hc, hdata⟩ := Option.bind_eq_some_iff.mp hget
  obtain rfl := Component.as_eq_some_iff.mp hdata
  rw [getAs?, get?_set]
  split
  · rename_i heq
    subst heq
    have hnone : ∀ b : k.Data, (Component.mk k b).as k' = none := fun _ => Component.as_eq_none_iff.mpr hne.symm
    rw [getAs?, hc]
    simp [hnone]
  · rfl

/-- Replacements behind two different handles may be made in either order. -/
theorem set_comm (s : Store) {h h' : Handle} (hne : h' ≠ h) (c c' : Component) :
    (s.set h c).set h' c' = (s.set h' c').set h c := by
  rw [set, set, set, set, Arena.modify_comm _ hne]

/-! ### Detaching -/

theorem get?_entries_detach (s : Store) (h h' : Handle) :
    (s.detach h).2.entries.get? h' =
      if h' = h then (s.entries.get? h).map Entry.detached else s.entries.get? h' := by
  rw [detach]
  split
  · exact Arena.get?_modify ..
  · rename_i hnot
    by_cases hh : h' = h
    · subst hh
      cases hentry : s.entries.get? h' with
      | none => simp
      | some entry =>
        have : entry.attachment = .detached := by
          cases hattachment : entry.attachment with
          | attached => exact absurd (attachment?_eq_some_iff.mpr ⟨entry, hentry, hattachment⟩) hnot
          | detached => rfl
        simp [Entry.detached_eq_self this]
    · simp [hh]

@[simp] theorem releases_detach (s : Store) (h : Handle) : (s.detach h).2.releases = s.releases := by
  rw [detach]
  split <;> rfl

theorem fst_detach (s : Store) (h : Handle) : (s.detach h).1 = (s.attachment? h == some .attached) := by
  rw [detach]
  split <;> simp_all

theorem sound_detach {s : Store} (hs : s.entries.Sound) (h : Handle) : (s.detach h).2.entries.Sound := by
  rw [detach]
  split
  · exact hs.modify ..
  · exact hs

/-! ### Releasing -/

@[simp] theorem entries_scheduleRelease (s : Store) (h : Handle) : (s.scheduleRelease h).entries = s.entries := rfl

@[simp] theorem releases_scheduleRelease (s : Store) (h : Handle) :
    (s.scheduleRelease h).releases = s.releases.push h := rfl

theorem foldl_scheduleRelease (s : Store) (hs : Array Handle) :
    hs.foldl scheduleRelease s = { s with releases := s.releases ++ hs } := by
  obtain ⟨hs⟩ := hs
  rw [← Array.foldl_toList]
  induction hs generalizing s with
  | nil => simp
  | cons h rest ih =>
    rw [List.foldl_cons, ih]
    simp [scheduleRelease]

theorem releaseScheduled_snd (s : Store) :
    s.releaseScheduled.2 =
      { entries := s.releases.toList.foldl (fun entries h => (entries.remove h).2) s.entries, releases := #[] } := by
  rw [releaseScheduled]
  generalize s.releases.toList = hs
  generalize s.entries = entries
  generalize 0 = count
  induction hs generalizing entries count with
  | nil => rfl
  | cons h rest ih =>
    simp only [List.foldl_cons]
    rcases hremove : entries.remove h with ⟨_ | _, entries'⟩ <;> exact ih ..

theorem get?_foldl_remove (hs : List Handle) (entries : Arena Entry) (h : Handle) :
    (hs.foldl (fun entries h => (entries.remove h).2) entries).get? h =
      if h ∈ hs then none else entries.get? h := by
  induction hs generalizing entries with
  | nil => simp
  | cons h' rest ih =>
    rw [List.foldl_cons, ih, Arena.get?_remove]
    by_cases hh : h = h' <;> simp [hh]

theorem get?_entries_releaseScheduled (s : Store) (h : Handle) :
    s.releaseScheduled.2.entries.get? h = if h ∈ s.releases then none else s.entries.get? h := by
  rw [releaseScheduled_snd, get?_foldl_remove]
  simp

@[simp] theorem releases_releaseScheduled (s : Store) : s.releaseScheduled.2.releases = #[] := by
  rw [releaseScheduled_snd]

theorem sound_releaseScheduled {s : Store} (hs : s.entries.Sound) : s.releaseScheduled.2.entries.Sound := by
  rw [releaseScheduled_snd]
  generalize s.releases.toList = l
  revert hs
  generalize s.entries = entries
  intro hs
  induction l generalizing entries with
  | nil => exact hs
  | cons h rest ih => exact ih _ (hs.remove h)

/-! ### The attached components -/

theorem mem_attached {s : Store} {h : Handle} {owner : Entity} {c : Component} :
    (h, owner, c) ∈ s.attached ↔ s.entries.get? h = some ⟨owner, .attached, c⟩ := by
  rw [← Arena.mem_toList]
  simp only [attached, List.mem_filterMap, Prod.exists]
  constructor
  · rintro ⟨h', ⟨owner', a, c'⟩, hmem, heq⟩
    split at heq
    · simp_all
    · cases heq
  · intro hmem
    exact ⟨h, _, hmem, by simp⟩

theorem nodup_attached (s : Store) : (s.attached.map (·.1)).Nodup := by
  have hsub : (s.attached.map (·.1)).Sublist (s.entries.toList.map (·.1)) := by
    rw [attached, List.map_filterMap]
    generalize s.entries.toList = l
    induction l with
    | nil => simp
    | cons p rest ih =>
      obtain ⟨h, entry⟩ := p
      by_cases hentry : entry.attachment = .attached
      · simpa [hentry] using ih.cons_cons h
      · simpa [hentry] using ih.cons h
  exact hsub.nodup (Arena.nodup_toList _)

end Cadence.Store
