import Cadence.Proofs.Index
import Mathlib.Data.Finmap

/-!
What an index means: a finite map from handles to owners. An insertion adds a handle that the map does not have, a
removal takes one out. Whatever is done to several indexes, clones of others among them, each of them means what the
same changes make of the maps, and its table and its array stay in step.
-/

namespace Cadence

abbrev Owners := Finmap fun _ : Handle => Entity

namespace Index

/-- The finite map that an index stands for. -/
def owners (ix : Index) : Owners := (ix.pairs.map fun p => (⟨p.1, p.2⟩ : Σ _ : Handle, Entity)).toFinmap

theorem lookup_owners {ix : Index} (hx : ix.Sound) (h : Handle) : ix.owners.lookup h = ix.owner? h := by
  have hkeys : (ix.pairs.map fun p => (⟨p.1, p.2⟩ : Σ _ : Handle, Entity)).NodupKeys := by
    have hnodup := nodup_pairs hx
    rwa [List.NodupKeys, List.keys, List.map_map]
  apply Option.ext
  intro e
  rw [owners, Finmap.dlookup_list_toFinmap, ← mem_pairs hx]
  refine (List.mem_dlookup_iff hkeys).trans ?_
  simp

theorem mem_owners {ix : Index} (hx : ix.Sound) {h : Handle} : h ∈ ix.owners ↔ (ix.owner? h).isSome := by
  rw [← Finmap.lookup_isSome, lookup_owners hx]

/-! ### The map after a change -/

theorem owners_insert {ix : Index} (hx : ix.Sound) (h : Handle) (owner : Entity) :
    (ix.insert h owner).2.owners = if h ∈ ix.owners then ix.owners else ix.owners.insert h owner := by
  apply Finmap.ext_lookup
  intro h'
  rw [lookup_owners (hx.insert h owner), owner?_insert hx]
  by_cases hmem : h ∈ ix.owners
  · obtain ⟨e, he⟩ := Option.isSome_iff_exists.mp ((mem_owners hx).mp hmem)
    rw [if_pos hmem, lookup_owners hx]
    split
    · rename_i hh
      rw [hh, he]
      rfl
    · rfl
  · have hnone : ix.owner? h = none := by simpa [mem_owners hx] using hmem
    rw [if_neg hmem, hnone]
    split
    · rename_i hh
      rw [hh, Finmap.lookup_insert]
      rfl
    · rename_i hh
      rw [Finmap.lookup_insert_of_ne _ hh, lookup_owners hx]

theorem owners_remove {ix : Index} (hx : ix.Sound) (h : Handle) : (ix.remove h).2.owners = ix.owners.erase h := by
  apply Finmap.ext_lookup
  intro h'
  rw [lookup_owners (hx.remove h), owner?_remove hx]
  split
  · rename_i hh
    rw [hh, Finmap.lookup_erase]
  · rename_i hh
    rw [Finmap.lookup_erase_ne hh, lookup_owners hx]

/-! ### Table and array -/

theorem nodup_handles {ix : Index} (hx : ix.Sound) : (ix.entries.toList.map (·.handle)).Nodup := by
  have hnodup := nodup_pairs hx
  rwa [pairs, List.map_map] at hnodup

/-- The table has as many handles as the array has entries. -/
theorem size_positions {ix : Index} (hx : ix.Sound) : ix.positions.size = ix.entries.size := by
  have hkeys : ix.positions.keys.Nodup :=
    (Std.HashMap.distinct_keys (m := ix.positions)).imp fun hne heq => by simp [heq] at hne
  have hmem : ∀ h, h ∈ ix.positions.keys ↔ h ∈ ix.entries.toList.map (·.handle) := by
    intro h
    rw [Std.HashMap.mem_keys, Std.HashMap.mem_iff_isSome_getElem?, Option.isSome_iff_exists, List.mem_map]
    simp only [hx.find, List.mem_iff_getElem?, Array.getElem?_toList, Option.map_eq_some_iff]
    constructor
    · rintro ⟨i, entry, hentry, rfl⟩
      exact ⟨entry, ⟨i, hentry⟩, rfl⟩
    · rintro ⟨entry, ⟨i, hentry⟩, rfl⟩
      exact ⟨i, entry, hentry, rfl⟩
  have hperm := (List.perm_ext_iff_of_nodup hkeys (nodup_handles hx)).mpr hmem
  have hlength := hperm.length_eq
  rwa [Std.HashMap.length_keys, List.length_map, Array.length_toList] at hlength

/-- The entries that meet a condition are counted by their handles. -/
theorem card_owners {ix : Index} (hx : ix.Sound) (p : Handle → Prop) [DecidablePred p] :
    (ix.owners.keys.filter p).card = ix.entries.toList.countP fun entry => p entry.handle := by
  have hnodup := (nodup_handles hx).filter (fun h => decide (p h))
  have hsame : ix.owners.keys.filter p = ((ix.entries.toList.map (·.handle)).filter fun h => p h).toFinset := by
    ext h
    rw [Finset.mem_filter, List.mem_toFinset, List.mem_filter, Finmap.mem_keys, mem_owners hx,
      Option.isSome_iff_exists]
    simp only [owner?_eq_some_iff hx, List.mem_map, decide_eq_true_eq]
    refine and_congr_left fun _ => ⟨?_, ?_⟩
    · rintro ⟨e, hmem⟩
      exact ⟨_, hmem, rfl⟩
    · rintro ⟨⟨_, e⟩, hmem, rfl⟩
      exact ⟨e, hmem⟩
  rw [hsame, List.toFinset_card_of_nodup hnodup, ← List.countP_eq_length_filter, List.countP_map]
  rfl

/-! ### What a removal leaves -/

/-- A removal answers the entry that was there. -/
theorem fst_remove {ix : Index} (hx : ix.Sound) (h : Handle) : (ix.remove h).1 = (ix.owner? h).map (Entry.mk h) := by
  rw [Index.remove, owner?]
  cases hi : ix.positions[h]? with
  | none => rfl
  | some i =>
    obtain ⟨⟨h', e⟩, hentry, rfl⟩ := Option.map_eq_some_iff.mp ((hx.find h i).mp hi)
    simp [hentry]

/-- The last entry takes the place of the removed one, and the array is shorter by one. -/
theorem entries_remove {ix : Index} (hx : ix.Sound) {h : Handle} {i : Nat} (hi : ix.positions[h]? = some i) :
    ∃ last, ix.entries.back? = some last ∧ (ix.remove h).2.entries = (ix.entries.setIfInBounds i last).pop := by
  have hlt := hx.lt_size hi
  have hlast : ix.entries.size - 1 < ix.entries.size := by omega
  refine ⟨ix.entries[ix.entries.size - 1], by rw [Array.back?, Array.getElem?_eq_getElem hlast], ?_⟩
  rw [(getElem?_remove hx hi).1]
  apply Array.ext_getElem?
  intro j
  rw [getElem?_swap_pop hlt, Array.getElem?_pop, Array.size_setIfInBounds, Array.getElem?_setIfInBounds]
  by_cases hj : i = j
  · subst hj
    simp [hlt, hlast]
  · simp [hj, Ne.symm hj]

/-! ### Several indexes -/

/-- A change to one of several indexes, or a clone of one of them, which goes on beside the others. -/
inductive Change
  | insert (i : Nat) (h : Handle) (owner : Entity)
  | remove (i : Nat) (h : Handle)
  | clear (i : Nat)
  | clone (i : Nat)

def change (ixs : List Index) : Change → List Index
  | .insert i h owner => ixs.modify i fun ix => (ix.insert h owner).2
  | .remove i h => ixs.modify i fun ix => (ix.remove h).2
  | .clear i => ixs.modify i clear
  | .clone i => ixs ++ ixs[i]?.toList

end Index

/-- The same change to finite maps: a handle that is there keeps its owner. -/
def Owners.change (maps : List Owners) : Index.Change → List Owners
  | .insert i h owner => maps.modify i fun m => if h ∈ m then m else m.insert h owner
  | .remove i h => maps.modify i (·.erase h)
  | .clear i => maps.modify i fun _ => ∅
  | .clone i => maps ++ maps[i]?.toList

namespace Index

theorem sound_clear (ix : Index) : ix.clear.Sound := sound_empty

theorem mem_modify {α : Type} {f : α → α} {l : List α} {i : Nat} {a : α} (h : a ∈ l.modify i f) :
    a ∈ l ∨ ∃ b ∈ l, a = f b := by
  obtain ⟨j, hj⟩ := List.mem_iff_getElem?.mp h
  rw [List.getElem?_modify] at hj
  obtain ⟨b, hb, rfl⟩ := Option.map_eq_some_iff.mp hj
  split
  · exact .inr ⟨b, List.mem_of_getElem? hb, rfl⟩
  · exact .inl (List.mem_of_getElem? hb)

theorem sound_change {ixs : List Index} (hixs : ∀ ix ∈ ixs, ix.Sound) (c : Change) : ∀ ix ∈ change ixs c, ix.Sound := by
  intro ix hmem
  cases c with
  | insert i h owner =>
    obtain hold | ⟨old, hold, rfl⟩ := mem_modify hmem
    · exact hixs ix hold
    · exact (hixs old hold).insert h owner
  | remove i h =>
    obtain hold | ⟨old, hold, rfl⟩ := mem_modify hmem
    · exact hixs ix hold
    · exact (hixs old hold).remove h
  | clear i =>
    obtain hold | ⟨old, hold, rfl⟩ := mem_modify hmem
    · exact hixs ix hold
    · exact sound_clear old
  | clone i =>
    obtain hold | hnew := List.mem_append.mp hmem
    · exact hixs ix hold
    · exact hixs ix (List.mem_of_getElem? (Option.mem_toList.mp hnew))

theorem map_owners_modify {ixs : List Index} (hixs : ∀ ix ∈ ixs, ix.Sound) {f : Index → Index} {g : Owners → Owners}
    (h : ∀ {ix : Index}, ix.Sound → (f ix).owners = g ix.owners) (i : Nat) :
    (ixs.modify i f).map owners = (ixs.map owners).modify i g := by
  apply List.ext_getElem?
  intro j
  rw [List.getElem?_map, List.getElem?_modify, List.getElem?_modify, List.getElem?_map]
  cases hj : ixs[j]? with
  | none => rfl
  | some ix =>
    have hfg := h (hixs ix (List.mem_of_getElem? hj))
    by_cases hij : i = j <;> simp [hij, hfg]

theorem map_owners_change {ixs : List Index} (hixs : ∀ ix ∈ ixs, ix.Sound) (c : Change) :
    (change ixs c).map owners = Owners.change (ixs.map owners) c := by
  cases c with
  | insert i h owner => exact map_owners_modify hixs (fun hx => owners_insert hx h owner) i
  | remove i h => exact map_owners_modify hixs (fun hx => owners_remove hx h) i
  | clear i => exact map_owners_modify hixs (fun _ => rfl) i
  | clone i => cases hi : ixs[i]? <;> simp [change, Owners.change, hi]

/-- What an index answers agrees with the map it stands for, and its table with its array. -/
structure Agrees (ix : Index) : Prop where
  find : ∀ (h : Handle) (i : Nat), ix.positions[h]? = some i ↔ (ix.entries[i]?).map (·.handle) = some h
  inBounds : ∀ (h : Handle) (i : Nat), ix.positions[h]? = some i → i < ix.entries.size
  distinct : (ix.entries.toList.map (·.handle)).Nodup
  sizes : ix.positions.size = ix.entries.size
  mem_entries : ∀ h e, (⟨h, e⟩ : Entry) ∈ ix.entries.toList ↔ ix.owners.lookup h = some e
  contains : ∀ h, ix.contains h = decide (h ∈ ix.owners)
  size : ix.size = ix.owners.keys.card
  countOf : ∀ owner, ix.countOf owner = (ix.owners.keys.filter fun h => ix.owners.lookup h = some owner).card
  inserted : ∀ h owner, (ix.insert h owner).1 = decide (h ∉ ix.owners)
  removed : ∀ h, (ix.remove h).1 = (ix.owners.lookup h).map (Entry.mk h)
  filled : ∀ (h : Handle) (i : Nat), ix.positions[h]? = some i →
    ∃ last, ix.entries.back? = some last ∧ (ix.remove h).2.entries = (ix.entries.setIfInBounds i last).pop
  absent : ∀ h, h ∉ ix.owners → (ix.remove h).2 = ix

theorem contains_eq {ix : Index} (hx : ix.Sound) (h : Handle) : ix.contains h = decide (h ∈ ix.owners) := by
  rw [Bool.eq_iff_iff, decide_eq_true_iff, mem_owners hx, Index.contains, Std.HashMap.contains_eq_isSome_getElem?]
  cases hi : ix.positions[h]? with
  | none => simp [owner?, hi]
  | some i =>
    obtain ⟨entry, hentry, _⟩ := Option.map_eq_some_iff.mp ((hx.find h i).mp hi)
    simp [owner?, hi, hentry]

theorem countOf_eq {ix : Index} (hx : ix.Sound) (owner : Entity) :
    ix.countOf owner = (ix.owners.keys.filter fun h => ix.owners.lookup h = some owner).card := by
  rw [card_owners hx, Index.countOf, ← Array.countP_toList]
  refine List.countP_congr fun entry hmem => ?_
  have howner := (owner?_eq_some_iff hx).mpr hmem
  simp [lookup_owners hx, howner]

theorem Sound.agrees {ix : Index} (hx : ix.Sound) : ix.Agrees where
  find := hx.find
  inBounds _ _ := hx.lt_size
  distinct := nodup_handles hx
  sizes := size_positions hx
  mem_entries h e := by rw [lookup_owners hx, owner?_eq_some_iff hx]
  contains := contains_eq hx
  size := by
    have hcard := card_owners hx fun _ => True
    simpa [Index.size, eq_comm] using hcard
  countOf := countOf_eq hx
  inserted h owner := by
    have hcontains := contains_eq hx h
    rw [Index.contains] at hcontains
    rw [Index.insert, hcontains]
    by_cases hmem : h ∈ ix.owners <;> simp [hmem]
  removed h := by rw [fst_remove hx, lookup_owners hx]
  filled _ _ := entries_remove hx
  absent h hnot := by
    have hnone : ix.owner? h = none := by simpa [mem_owners hx] using hnot
    exact remove_eq_self hx (by rw [fst_remove hx, hnone]; rfl)

/-- Changes to indexes are the same changes to the maps that they stand for. -/
theorem owners_foldl_change {ixs : List Index} (hixs : ∀ ix ∈ ixs, ix.Sound) (changes : List Change) :
    (changes.foldl change ixs).map owners = changes.foldl Owners.change (ixs.map owners) ∧
      ∀ ix ∈ changes.foldl change ixs, ix.Sound := by
  induction changes generalizing ixs with
  | nil => exact ⟨rfl, hixs⟩
  | cons c rest ih =>
    rw [List.foldl_cons, List.foldl_cons, ← map_owners_change hixs]
    exact ih (sound_change hixs c)

/-- Indexes are finite maps. After any changes to indexes and their clones, the first of which was empty, each index
stands for the map that the same changes make of the empty one; what it answers agrees with that map, and its table with
its array, which a removal closes with its last entry. -/
theorem indexes_are_finite_maps (changes : List Change) :
    (changes.foldl change [{}]).map owners = changes.foldl Owners.change [∅] ∧
      ∀ ix ∈ changes.foldl change [{}], ix.Agrees := by
  have hempty : ∀ ix ∈ [({} : Index)], ix.Sound := by simpa using sound_empty
  obtain ⟨hmaps, hsound⟩ := owners_foldl_change hempty changes
  exact ⟨hmaps, fun ix hmem => (hsound ix hmem).agrees⟩

end Index

end Cadence
