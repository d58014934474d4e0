import Cadence.Index

/-!
An index is a finite map from handles to owners. Its table and its array agree, a removal moves one entry and keeps
all the others, and the array names every handle once.
-/

namespace Cadence.Index

/-- The table finds a handle exactly where the array has it. -/
structure Sound (ix : Index) : Prop where
  find : ∀ (h : Handle) (i : Nat), ix.positions[h]? = some i ↔ (ix.entries[i]?).map (·.handle) = some h

/-- The owner that the index knows for a handle. -/
def owner? (ix : Index) (h : Handle) : Option Entity :=
  (ix.positions[h]?).bind fun i => (ix.entries[i]?).map (·.owner)

/-- The entries as pairs, in the order of the array. -/
def pairs (ix : Index) : List (Handle × Entity) := ix.entries.toList.map fun entry => (entry.handle, entry.owner)

theorem sound_empty : ({} : Index).Sound := by
  constructor
  intro h i
  simp

@[simp] theorem owner?_empty (h : Handle) : ({} : Index).owner? h = none := by
  simp [owner?]

/-! ### Reading the array -/

theorem owner?_eq_some_iff {ix : Index} (hx : ix.Sound) {h : Handle} {e : Entity} :
    ix.owner? h = some e ↔ (⟨h, e⟩ : Entry) ∈ ix.entries.toList := by
  rw [List.mem_iff_getElem?]
  simp only [owner?, Option.bind_eq_some_iff, Option.map_eq_some_iff, Array.getElem?_toList]
  constructor
  · rintro ⟨i, hi, ⟨h', e'⟩, hentry, rfl⟩
    have hhandle := (hx.find h i).mp hi
    rw [hentry, Option.map_some, Option.some.injEq] at hhandle
    dsimp only at hhandle
    exact ⟨i, hhandle ▸ hentry⟩
  · rintro ⟨i, hentry⟩
    exact ⟨i, (hx.find h i).mpr (by simp [hentry]), _, hentry, rfl⟩

theorem mem_pairs {ix : Index} (hx : ix.Sound) {h : Handle} {e : Entity} :
    (h, e) ∈ ix.pairs ↔ ix.owner? h = some e := by
  rw [owner?_eq_some_iff hx]
  simp only [pairs, List.mem_map, Prod.mk.injEq]
  constructor
  · rintro ⟨⟨h', e'⟩, hmem, rfl, rfl⟩
    exact hmem
  · intro hmem
    exact ⟨_, hmem, rfl, rfl⟩

/-- A position that the array does not have holds nothing. -/
theorem Sound.lt_size {ix : Index} (hx : ix.Sound) {h : Handle} {i : Nat} (hi : ix.positions[h]? = some i) :
    i < ix.entries.size := by
  obtain ⟨entry, hentry, _⟩ := Option.map_eq_some_iff.mp ((hx.find h i).mp hi)
  exact (Array.getElem?_eq_some_iff.mp hentry).1

theorem nodup_pairs {ix : Index} (hx : ix.Sound) : (ix.pairs.map (·.1)).Nodup := by
  rw [List.Nodup, List.pairwise_iff_getElem]
  intro i j hi hj hij
  simp only [pairs, List.length_map, Array.length_toList] at hi hj
  simp only [pairs, List.getElem_map, Array.getElem_toList]
  intro heq
  have hfirst := (hx.find (ix.entries[i]).handle i).mpr (by simp [hi])
  have hsecond := (hx.find (ix.entries[j]).handle j).mpr (by simp [hj])
  rw [heq, hsecond, Option.some.injEq] at hfirst
  omega

theorem perm_pairs_iff {ix : Index} (hx : ix.Sound) {l : List (Handle × Entity)} (hl : (l.map (·.1)).Nodup) :
    ix.pairs.Perm l ↔ ∀ h e, ix.owner? h = some e ↔ (h, e) ∈ l := by
  have hnodup : ∀ {l : List (Handle × Entity)}, (l.map (·.1)).Nodup → l.Nodup := by
    intro l hl
    refine (List.pairwise_map.mp hl).imp ?_
    rintro p q hne rfl
    exact hne rfl
  rw [List.perm_ext_iff_of_nodup (hnodup (nodup_pairs hx)) (hnodup hl), Prod.forall]
  simp only [mem_pairs hx]

/-! ### Insertion -/

theorem contains_eq_false_iff {ix : Index} {h : Handle} :
    ¬ ix.positions.contains h = true ↔ ix.positions[h]? = none := by
  rw [Std.HashMap.contains_eq_isSome_getElem?, Bool.not_eq_true, Option.isSome_eq_false_iff, Option.isNone_iff_eq_none]

theorem Sound.insert {ix : Index} (hx : ix.Sound) (h : Handle) (owner : Entity) : (ix.insert h owner).2.Sound := by
  rw [Index.insert]
  split
  · exact hx
  rename_i hnew
  have hnone := contains_eq_false_iff.mp hnew
  constructor
  intro h' i
  simp only [Std.HashMap.getElem?_insert, Array.getElem?_push, beq_iff_eq]
  by_cases hi : i = ix.entries.size
  · subst hi
    have hold : ix.positions[h']? ≠ some ix.entries.size := fun hsome => absurd (hx.lt_size hsome) (Nat.lt_irrefl _)
    by_cases hh : h = h'
    · simp [hh]
    · simp [hh, hold]
  · rw [if_neg hi, ← hx.find h' i]
    by_cases hh : h = h'
    · subst hh
      simp [hnone, Ne.symm hi]
    · simp [hh]

theorem owner?_insert {ix : Index} (hx : ix.Sound) (h h' : Handle) (owner : Entity) :
    (ix.insert h owner).2.owner? h' = if h' = h then (ix.owner? h).or (some owner) else ix.owner? h' := by
  rw [Index.insert]
  split
  · rename_i hold
    split
    · rename_i hh
      subst hh
      rw [Std.HashMap.contains_eq_isSome_getElem?, Option.isSome_iff_exists] at hold
      obtain ⟨i, hi⟩ := hold
      obtain ⟨entry, hentry, _⟩ := Option.map_eq_some_iff.mp ((hx.find h' i).mp hi)
      simp [owner?, hi, hentry]
    · rfl
  · rename_i hnew
    have hnone := contains_eq_false_iff.mp hnew
    simp only [owner?, Std.HashMap.getElem?_insert, beq_iff_eq, eq_comm (a := h)]
    split
    · simp [hnone]
    · cases hi : ix.positions[h']? with
      | none => rfl
      | some i =>
        have hlt := hx.lt_size hi
        simp [Array.getElem?_push, Nat.ne_of_lt hlt]

/-- A new handle makes for one pair more. -/
theorem pairs_insert {ix : Index} (hx : ix.Sound) {h : Handle} (hnone : ix.owner? h = none) (owner : Entity) :
    (ix.insert h owner).2.pairs.Perm ((h, owner) :: ix.pairs) := by
  have hnot : h ∉ ix.pairs.map (·.1) := by
    intro hmem
    obtain ⟨⟨_, e⟩, hpair, rfl⟩ := List.mem_map.mp hmem
    rw [(mem_pairs hx).mp hpair] at hnone
    cases hnone
  have hnodup : (((h, owner) :: ix.pairs).map (·.1)).Nodup := List.nodup_cons.mpr ⟨hnot, nodup_pairs hx⟩
  rw [perm_pairs_iff (hx.insert h owner) hnodup]
  intro h' e
  rw [owner?_insert hx, List.mem_cons, mem_pairs hx, hnone, Prod.mk.injEq]
  by_cases hh : h' = h
  · subst hh
    simp [hnone, eq_comm]
  · simp [hh]

/-! ### Removal -/

/-- The array after a removal: the last entry has taken the place of the removed one. -/
theorem getElem?_swap_pop {entries : Array Entry} {i : Nat} (hi : i < entries.size) (j : Nat) :
    (entries.swapIfInBounds i (entries.size - 1)).pop[j]? =
      if j < entries.size - 1 then (if j = i then entries[entries.size - 1]? else entries[j]?) else none := by
  rw [Array.getElem?_pop, Array.size_swapIfInBounds]
  split
  · rename_i hj
    have hlast : entries.size - 1 < entries.size := by omega
    have hne : entries.size - 1 ≠ j := by omega
    rw [Array.swapIfInBounds_def, dif_pos hi, dif_pos hlast, Array.getElem?_swap, if_neg hne,
      Array.getElem?_eq_getElem hlast]
    simp only [eq_comm]
  · rfl

/-- Looking up after a removal: the handle is gone, and the last entry is found in its place. -/
theorem getElem?_remove {ix : Index} (hx : ix.Sound) {h : Handle} {i : Nat} (hi : ix.positions[h]? = some i) :
    (ix.remove h).2.entries = (ix.entries.swapIfInBounds i (ix.entries.size - 1)).pop ∧
    ∀ h', (ix.remove h).2.positions[h']? =
      if h' = h then none
      else if (ix.entries[ix.entries.size - 1]?).map (·.handle) = some h' then some i else ix.positions[h']? := by
  have hlt := hx.lt_size hi
  have hmoved := getElem?_swap_pop hlt i
  rw [if_pos rfl] at hmoved
  have hat := (hx.find h i).mp hi
  rw [Index.remove]
  rw [hi]
  dsimp only
  rw [hmoved]
  by_cases hlast : i < ix.entries.size - 1
  -- the last entry moves to `i`; otherwise it is the removed one itself
  · obtain ⟨moved, heq⟩ : ∃ moved, ix.entries[ix.entries.size - 1]? = some moved :=
      ⟨_, Array.getElem?_eq_getElem (by omega)⟩
    rw [if_pos hlast, heq]
    refine ⟨rfl, fun h' => ?_⟩
    have hne : moved.handle ≠ h := by
      rintro rfl
      have hfound := (hx.find moved.handle (ix.entries.size - 1)).mpr (by simp [heq])
      rw [hi, Option.some.injEq] at hfound
      omega
    simp only [Std.HashMap.getElem?_insert, Std.HashMap.getElem?_erase, beq_iff_eq, Option.map_some,
      Option.some.injEq, eq_comm (a := h)]
    by_cases hh : h' = h
    · simp [hh, hne]
    · simp [hh]
  · have heq : ix.entries.size - 1 = i := by omega
    rw [if_neg hlast, heq, hat]
    refine ⟨rfl, fun h' => ?_⟩
    simp only [Std.HashMap.getElem?_erase, beq_iff_eq, Option.some.injEq]
    by_cases hh : h = h'
    · simp [hh]
    · simp [hh, Ne.symm hh]

/-- A handle that is not there leaves the index as it was. -/
theorem remove_eq_self {ix : Index} (hx : ix.Sound) {h : Handle} (hnone : (ix.remove h).1 = none) :
    (ix.remove h).2 = ix := by
  rw [Index.remove] at hnone ⊢
  cases hi : ix.positions[h]? with
  | none => rfl
  | some i =>
    rw [hi] at hnone
    obtain ⟨entry, hentry, _⟩ := Option.map_eq_some_iff.mp ((hx.find h i).mp hi)
    dsimp only at hnone
    rw [hentry] at hnone
    cases hnone

section removal

variable {ix : Index} (hx : ix.Sound) {h h' : Handle} {i : Nat} (hi : ix.positions[h]? = some i)

include hx hi

/-- The array names a handle at one position only. -/
theorem eq_of_handle {k : Nat} (hk : (ix.entries[k]?).map (·.handle) = some h) : k = i := by
  rw [← hx.find h k, hi, Option.some.injEq] at hk
  exact hk.symm

/-- The removed handle is nowhere: it was at `i` only, and the last entry stands there now. -/
theorem find_removed (j : Nat) :
    ((ix.entries.swapIfInBounds i (ix.entries.size - 1)).pop[j]?).map (·.handle) ≠ some h := by
  rw [getElem?_swap_pop (hx.lt_size hi)]
  intro hfound
  split at hfound
  · split at hfound
    · have hlast := eq_of_handle hx hi hfound
      omega
    · exact absurd (eq_of_handle hx hi hfound) ‹_›
  · cases hfound

/-- The handle of the last entry is found at `i`, and at no other position. -/
theorem find_moved (hne : h' ≠ h) (hlast : (ix.entries[ix.entries.size - 1]?).map (·.handle) = some h') (j : Nat) :
    ((ix.entries.swapIfInBounds i (ix.entries.size - 1)).pop[j]?).map (·.handle) = some h' ↔ i = j := by
  have hlt := hx.lt_size hi
  have hend : i ≠ ix.entries.size - 1 := by
    rintro rfl
    rw [(hx.find h _).mp hi, Option.some.injEq] at hlast
    exact hne hlast.symm
  rw [getElem?_swap_pop hlt]
  constructor
  · intro hfound
    split at hfound
    · split at hfound
      · exact Eq.symm ‹_›
      · have hj := eq_of_handle hx ((hx.find h' _).mpr hlast) hfound
        omega
    · cases hfound
  · rintro rfl
    rw [if_pos (by omega), if_pos rfl]
    exact hlast

/-- All other handles stay where they were. -/
theorem find_kept (hne : h' ≠ h) (hlast : (ix.entries[ix.entries.size - 1]?).map (·.handle) ≠ some h') (j : Nat) :
    ((ix.entries.swapIfInBounds i (ix.entries.size - 1)).pop[j]?).map (·.handle) = some h' ↔
      (ix.entries[j]?).map (·.handle) = some h' := by
  rw [getElem?_swap_pop (hx.lt_size hi)]
  split
  · split
    · rename_i hj
      subst hj
      rw [(hx.find h j).mp hi]
      simp [hlast, Ne.symm hne]
    · rfl
  · constructor
    · rintro ⟨⟩
    · intro hfound
      have hj := hx.lt_size ((hx.find h' j).mpr hfound)
      have hend : j = ix.entries.size - 1 := by omega
      exact absurd (hend ▸ hfound) hlast

end removal

theorem Sound.remove {ix : Index} (hx : ix.Sound) (h : Handle) : (ix.remove h).2.Sound := by
  cases hi : ix.positions[h]? with
  | none => simpa [Index.remove, hi] using hx
  | some i =>
    obtain ⟨hentries, hpositions⟩ := getElem?_remove hx hi
    constructor
    intro h' j
    rw [hentries, hpositions]
    by_cases hh : h' = h
    · rw [if_pos hh, hh]
      simpa using find_removed hx hi j
    rw [if_neg hh]
    split
    · rename_i hlast
      rw [find_moved hx hi hh hlast, Option.some.injEq]
    · rename_i hlast
      rw [find_kept hx hi hh hlast]
      exact hx.find h' j

theorem owner?_remove {ix : Index} (hx : ix.Sound) (h h' : Handle) :
    (ix.remove h).2.owner? h' = if h' = h then none else ix.owner? h' := by
  cases hi : ix.positions[h]? with
  | none =>
    by_cases hh : h' = h
    · subst hh
      simp [Index.remove, hi, owner?]
    · simp [Index.remove, hi, hh]
  | some i =>
    have hlt := hx.lt_size hi
    obtain ⟨hentries, hpositions⟩ := getElem?_remove hx hi
    unfold owner?
    rw [hentries, hpositions]
    by_cases hh : h' = h
    · rw [if_pos hh, if_pos hh]
      rfl
    rw [if_neg hh, if_neg hh]
    -- `h'` is not at `i`, so it is the last entry and has moved to `i`, or it has stayed where it was
    have hne : ∀ k, ix.positions[h']? = some k → k ≠ i := by
      rintro k hk rfl
      rw [hx.find h' k, (hx.find h k).mp hi, Option.some.injEq] at hk
      exact hh hk.symm
    split
    · rename_i hlast
      have hk := (hx.find h' _).mpr hlast
      have hki := hne _ hk
      rw [hk, Option.bind_some, Option.bind_some, getElem?_swap_pop hlt, if_pos (by omega), if_pos rfl]
    · rename_i hlast
      cases hk : ix.positions[h']? with
      | none => rfl
      | some k =>
        have hkn : k ≠ ix.entries.size - 1 := by
          rintro rfl
          exact hlast ((hx.find h' _).mp hk)
        have hklt := hx.lt_size hk
        rw [Option.bind_some, Option.bind_some, getElem?_swap_pop hlt, if_pos (by omega), if_neg (hne k hk)]

/-- What has been taken out was there. -/
theorem owner?_of_remove {ix : Index} {h : Handle} {entry : Entry}
    (hsome : (ix.remove h).1 = some entry) : ix.owner? h = some entry.owner := by
  rw [Index.remove] at hsome
  split at hsome
  · cases hsome
  · rename_i i hi
    rw [owner?, hi, Option.bind_some, show ix.entries[i]? = some entry from hsome]
    rfl

/-- A handle that is taken out makes for one pair less. -/
theorem pairs_remove {ix : Index} (hx : ix.Sound) {h : Handle} {owner : Entity} (hsome : ix.owner? h = some owner) :
    ix.pairs.Perm ((h, owner) :: (ix.remove h).2.pairs) := by
  have hnot : h ∉ (ix.remove h).2.pairs.map (·.1) := by
    intro hmem
    obtain ⟨⟨_, e⟩, hpair, rfl⟩ := List.mem_map.mp hmem
    rw [mem_pairs (hx.remove _), owner?_remove hx, if_pos rfl] at hpair
    cases hpair
  have hnodup : (((h, owner) :: (ix.remove h).2.pairs).map (·.1)).Nodup :=
    List.nodup_cons.mpr ⟨hnot, nodup_pairs (hx.remove h)⟩
  rw [perm_pairs_iff hx hnodup]
  intro h' e
  rw [List.mem_cons, mem_pairs (hx.remove h), owner?_remove hx, Prod.mk.injEq]
  by_cases hh : h' = h
  · subst hh
    simp [hsome, eq_comm]
  · simp [hh]

end Cadence.Index
