import Mathlib.Data.List.Nodup
import Cadence.Proofs.World.Holdings
import Cadence.Proofs.World.Routing

/-!
What an index of the components of one kind lists. While it is in step with the world, every entry finds a component of
that kind, attached to the owner that the index knows; and together these are the attached components of that kind,
each once, whatever the order of the index.
-/

namespace Cadence

variable {w : World} {k : Kind} {ix : Index} {e : Entity} {h : Handle}

/-- The attached components of one kind with their handles and owners, in the order of the arena. -/
def World.attachedAs (w : World) (k : Kind) : List (Handle × Entity × k.Data) :=
  w.store.attached.filterMap fun (h, owner, c) => (c.as k).map (h, owner, ·)

namespace Index

/-- The components of one kind behind the entries with their handles and owners, in the order of the index. -/
def items (ix : Index) (w : World) (k : Kind) : List (Handle × Entity × k.Data) :=
  ix.entries.toList.filterMap fun entry => (w.store.getAs? k entry.handle).map (entry.handle, entry.owner, ·)

/-- Those of one entity. -/
def itemsOf (ix : Index) (w : World) (k : Kind) (e : Entity) : List (Handle × k.Data) :=
  (ix.entries.toList.filter (·.owner = e)).filterMap fun entry =>
    (w.store.getAs? k entry.handle).map (entry.handle, ·)

theorem mem_items {a : k.Data} :
    (h, e, a) ∈ ix.items w k ↔ ⟨h, e⟩ ∈ ix.entries.toList ∧ w.store.getAs? k h = some a := by
  simp only [items, List.mem_filterMap, Option.map_eq_some_iff, Prod.mk.injEq]
  constructor
  · rintro ⟨⟨h', e'⟩, hmem, a', hget, rfl, rfl, rfl⟩
    exact ⟨hmem, hget⟩
  · rintro ⟨hmem, hget⟩
    exact ⟨⟨h, e⟩, hmem, a, hget, rfl, rfl, rfl⟩

theorem mem_itemsOf {a : k.Data} :
    (h, a) ∈ ix.itemsOf w k e ↔ ⟨h, e⟩ ∈ ix.entries.toList ∧ w.store.getAs? k h = some a := by
  simp only [itemsOf, List.mem_filterMap, List.mem_filter, decide_eq_true_eq, Option.map_eq_some_iff, Prod.mk.injEq]
  constructor
  · rintro ⟨⟨h', e'⟩, ⟨hmem, rfl⟩, a', hget, rfl, rfl⟩
    exact ⟨hmem, hget⟩
  · rintro ⟨hmem, hget⟩
    exact ⟨⟨h, e⟩, ⟨hmem, rfl⟩, a, hget, rfl, rfl⟩

/-- What is asked of the components of one entity may be asked of all of them. -/
theorem filterMap_items_of_owner {β : Type} {f : Handle × Entity × k.Data → Option β} {g : Handle × k.Data → Option β}
    (howner : ∀ h a, f (h, e, a) = g (h, a)) (hother : ∀ h e' a, e' ≠ e → f (h, e', a) = none) :
    (ix.items w k).filterMap f = (ix.itemsOf w k e).filterMap g := by
  rw [items, itemsOf, List.filterMap_filterMap, List.filterMap_filterMap, List.filterMap_filter]
  refine List.filterMap_congr fun entry _ => ?_
  by_cases he : entry.owner = e
  · subst he
    cases w.store.getAs? k entry.handle <;> simp [howner]
  · cases w.store.getAs? k entry.handle <;> simp [he, hother]

theorem nodup_itemsOf (hsound : ix.Sound) (w : World) (k : Kind) (e : Entity) : (ix.itemsOf w k e).Nodup := by
  rw [itemsOf, List.Nodup, List.pairwise_filterMap]
  have hnodup := nodup_pairs hsound
  rw [pairs, List.map_map] at hnodup
  refine ((List.pairwise_map.mp hnodup).filter _).imp ?_
  intro entry entry' hne p hp p' hp' hsame
  obtain ⟨_, _, rfl⟩ := Option.map_eq_some_iff.mp hp
  obtain ⟨_, _, rfl⟩ := Option.map_eq_some_iff.mp hp'
  exact hne (Prod.mk.inj hsame).1

end Index

namespace Catalog.Lists

theorem mem_entries_iff (hlists : Catalog.Lists ⟨(· == k), ix⟩ w) :
    ⟨h, e⟩ ∈ ix.entries.toList ↔ ∃ a, w.store.entries.get? h = some ⟨e, .attached, ⟨k, a⟩⟩ := by
  have howner : ix.owner? h = w.attachedOwner? (· == k) h := hlists.owner?_eq h
  have hsound : ix.Sound := hlists.sound
  rw [← Index.owner?_eq_some_iff hsound, howner, World.attachedOwner?_eq_some_iff]
  constructor
  · rintro ⟨⟨kind, a⟩, hentry, hkind⟩
    obtain rfl : kind = k := by simpa using hkind
    exact ⟨a, hentry⟩
  · rintro ⟨a, hentry⟩
    exact ⟨_, hentry, by simp⟩

/-- Behind every entry there is a component. -/
theorem stored (hlists : Catalog.Lists ⟨(· == k), ix⟩ w) {entry : Index.Entry} (hmem : entry ∈ ix.entries.toList) :
    ∃ a, w.store.getAs? k entry.handle = some a := by
  obtain ⟨a, hentry⟩ := hlists.mem_entries_iff.mp hmem
  exact ⟨a, by simp [Store.getAs?, Store.get?, hentry]⟩

/-- What the index names is in the list of its owner, who is live. -/
theorem live_of_mem (hlists : Catalog.Lists ⟨(· == k), ix⟩ w) (hw : w.SoundStore)
    (hmem : ⟨h, e⟩ ∈ ix.entries.toList) : w.isLive e ∧ h ∈ w.handleList e := by
  obtain ⟨a, hentry⟩ := hlists.mem_entries_iff.mp hmem
  obtain ⟨slot, hslot, hgeneration, hstate, hin⟩ := hw.owner_of_attached hentry
  refine ⟨World.isLive_iff.mpr (World.state?_eq_some_iff.mpr ⟨slot, hslot, hgeneration, hstate⟩), ?_⟩
  rw [World.handleList_of_slot hslot hgeneration hstate]
  exact Array.mem_toList_iff.mpr hin

theorem map_items (hlists : Catalog.Lists ⟨(· == k), ix⟩ w) :
    (ix.items w k).map (fun item => (item.1, item.2.1)) = ix.pairs := by
  rw [Index.items, List.map_filterMap, Index.pairs, ← List.filterMap_eq_map]
  refine List.filterMap_congr fun entry hmem => ?_
  obtain ⟨a, ha⟩ := hlists.stored hmem
  simp [ha]

theorem length_items (hlists : Catalog.Lists ⟨(· == k), ix⟩ w) : (ix.items w k).length = ix.size := by
  have hlength := congrArg List.length hlists.map_items
  simpa [Index.pairs, Index.size] using hlength

theorem perm_items (hlists : Catalog.Lists ⟨(· == k), ix⟩ w) : (ix.items w k).Perm (w.attachedAs k) := by
  let found (p : Handle × Entity) : Option (Handle × Entity × k.Data) := (w.store.getAs? k p.1).map (p.1, p.2, ·)
  have hitems : ix.items w k = ix.pairs.filterMap found := by
    rw [Index.pairs, List.filterMap_map]
    rfl
  have hattached : w.attachedAs k = (w.attachedPairs (· == k)).filterMap found := by
    rw [World.attachedPairs, List.filterMap_map, List.filterMap_filter, World.attachedAs]
    refine List.filterMap_congr ?_
    rintro ⟨h, owner, c⟩ hmem
    have hget : w.store.get? h = some c := by simp [Store.get?, Store.mem_attached.mp hmem]
    by_cases hkind : c.kind = k
    · simp [found, hkind, Store.getAs?, hget]
    · simp [hkind, Component.as_eq_none_iff.mpr hkind]
  have hperm : ix.pairs.Perm (w.attachedPairs (· == k)) := hlists.perm
  rw [hitems, hattached]
  exact hperm.filterMap found

/-- What the index lists of a live entity is what the entity holds of the kind. -/
theorem perm_itemsOf (hlists : Catalog.Lists ⟨(· == k), ix⟩ w) (hw : w.SoundStore) (hlive : w.isLive e) :
    (ix.itemsOf w k e).Perm (w.held k e) := by
  have hheld : (w.held k e).Nodup := (hw.nodup_held k e).of_map _
  refine (List.perm_ext_iff_of_nodup (Index.nodup_itemsOf hlists.sound w k e) hheld).mpr ?_
  rintro ⟨h, a⟩
  rw [Index.mem_itemsOf]
  constructor
  · rintro ⟨hmem, hget⟩
    exact List.mem_filterMap.mpr ⟨h, (hlists.live_of_mem hw hmem).2, by rw [hget]; rfl⟩
  · intro hmem
    obtain ⟨hlist, hget⟩ := World.mem_held hmem
    refine ⟨hlists.mem_entries_iff.mpr ⟨a, ?_⟩, hget⟩
    obtain ⟨l, c, hstate, hentry⟩ := hw.entry_of_mem_handleList hlist
    obtain rfl := Option.some.inj ((World.isLive_iff.mp hlive).symm.trans hstate)
    rw [Store.getAs?, Store.get?, hentry] at hget
    obtain rfl := Component.as_eq_some_iff.mp hget
    exact hentry

/-- Of an entity that is not live the index lists nothing. -/
theorem itemsOf_eq_nil (hlists : Catalog.Lists ⟨(· == k), ix⟩ w) (hw : w.SoundStore) (hlive : ¬ w.isLive e) :
    ix.itemsOf w k e = [] := by
  refine List.eq_nil_iff_forall_not_mem.mpr ?_
  rintro ⟨h, a⟩ hmem
  exact hlive (hlists.live_of_mem hw (Index.mem_itemsOf.mp hmem).1).1

end Catalog.Lists

end Cadence
