import Cadence.Arena

/-!
An arena whose bookkeeping is right is a finite map from handles to values: an insertion adds one entry under a
handle that found nothing before, a removal takes one entry away, and the list of an arena names every entry once.
-/

namespace Cadence.Arena

variable {α : Type}

/-- The vacant cells are listed once each, cell 0 is empty for good, and no other cell is without a value. -/
structure Sound (a : Arena α) : Prop where
  vacant_nodup : a.vacant.Nodup
  mem_vacant : ∀ i, i ∈ a.vacant ↔ i ≠ 0 ∧ ∃ v, a.cells[i]? = some ⟨v, none⟩
  cell_zero : ∃ v, a.cells[0]? = some ⟨v, none⟩

theorem sound_empty : (empty : Arena α).Sound where
  vacant_nodup := List.nodup_nil
  mem_vacant i := by cases i <;> simp [empty]
  cell_zero := ⟨0, rfl⟩

/-! ### Looking up after a change -/

/-- An insertion takes the place of an empty cell, or of a cell that does not exist yet. -/
theorem get?_insert_self_eq_none {a : Arena α} (ha : a.Sound) (x : α) : a.get? (a.insert x).1 = none := by
  rw [insert]
  cases hv : a.vacant with
  | nil => simp [get?]
  | cons i rest =>
    obtain ⟨_, v, hi⟩ := (ha.mem_vacant i).mp (by simp [hv])
    simp [get?, hi]

theorem get?_insert {a : Arena α} (ha : a.Sound) (x : α) (h : Handle) :
    (a.insert x).2.get? h = if h = (a.insert x).1 then some x else a.get? h := by
  obtain ⟨j, v⟩ := h
  rw [insert]
  cases hv : a.vacant with
  | nil =>
    simp only [get?, Array.getElem?_push, Handle.mk.injEq]
    by_cases hj : j = a.cells.size
    · subst hj
      simp [eq_comm]
    · simp [hj]
  | cons i rest =>
    obtain ⟨_, u, hi⟩ := (ha.mem_vacant i).mp (by simp [hv])
    simp only [get?, Array.getElem?_modify, Handle.mk.injEq]
    by_cases hj : i = j
    · subst hj
      simp [hi, eq_comm]
    · simp [hj, Ne.symm hj]

theorem get?_remove (a : Arena α) (h h' : Handle) :
    (a.remove h).2.get? h' = if h' = h then none else a.get? h' := by
  rw [remove]
  cases hx : a.get? h with
  | none =>
    by_cases hh : h' = h
    · simp [hh, hx]
    · simp [hh]
  | some x =>
    have hcell := get?_eq_some_iff.mp hx
    obtain ⟨i, v⟩ := h
    obtain ⟨j, u⟩ := h'
    simp only at hcell
    simp only [get?, Array.getElem?_modify, Handle.mk.injEq]
    by_cases hj : i = j
    · subst hj
      by_cases hu : u = v <;> simp [hcell, hu, Ne.symm]
    · simp [hj, Ne.symm hj]

/-- Changes behind two different handles may be made in either order. -/
theorem modify_comm (a : Arena α) {h h' : Handle} (hne : h' ≠ h) (f g : α → α) :
    (a.modify h f).modify h' g = (a.modify h' g).modify h f := by
  have hcells : ∀ i : Nat, ((a.modify h f).modify h' g).cells[i]? = ((a.modify h' g).modify h f).cells[i]? := by
    intro i
    obtain ⟨j, v⟩ := h
    obtain ⟨j', v'⟩ := h'
    simp only [modify, Array.getElem?_modify]
    cases a.cells[i]? with
    | none => simp
    | some cell =>
      -- in one cell the versions of the two handles differ, and at most one of the changes is made
      by_cases hj : j = i <;> by_cases hj' : j' = i <;> simp [hj, hj']
      grind
  have hsame := Array.ext_getElem? hcells
  unfold modify at hsame ⊢
  dsimp only at hsame ⊢
  rw [hsame]

/-! ### The list of an arena -/

theorem mem_toList {a : Arena α} {h : Handle} {x : α} : (h, x) ∈ a.toList ↔ a.get? h = some x := by
  rw [get?_eq_some_iff]
  obtain ⟨i, v⟩ := h
  simp only [toList, List.mem_filterMap, Prod.exists, List.mem_zipIdx_iff_getElem?, Option.map_eq_some_iff,
    Prod.mk.injEq, Handle.mk.injEq, Array.getElem?_toList]
  constructor
  · rintro ⟨⟨u, y⟩, j, hj, z, rfl, ⟨rfl, rfl⟩, rfl⟩
    exact hj
  · intro hi
    exact ⟨_, i, hi, x, rfl, ⟨rfl, rfl⟩, rfl⟩

theorem nodup_toList (a : Arena α) : (a.toList.map (·.1)).Nodup := by
  -- the handles differ in their cells already
  have hindex : (a.toList.map (·.1.index)).Nodup := by
    have hsub : List.Sublist (a.toList.map (·.1.index)) (a.cells.toList.zipIdx.map (·.2)) := by
      rw [toList, List.map_filterMap]
      generalize a.cells.toList.zipIdx = l
      induction l with
      | nil => simp
      | cons p rest ih =>
        obtain ⟨⟨v, _ | x⟩, i⟩ := p
        · simpa using ih.cons _
        · simpa using ih.cons_cons i
    refine hsub.nodup ?_
    simpa [List.zipIdx_map_snd] using List.nodup_range' ..
  refine List.Pairwise.map _ (fun p q hpq => ?_) (List.pairwise_map.mp hindex)
  exact fun heq => hpq (congrArg Handle.index heq)

/-! ### Soundness after a change -/

theorem Sound.modify {a : Arena α} (ha : a.Sound) (h : Handle) (f : α → α) : (a.modify h f).Sound := by
  -- a filled cell stays filled and an empty one empty
  have hempty : ∀ i : Nat, (∃ v, (a.modify h f).cells[i]? = some ⟨v, none⟩) ↔ ∃ v, a.cells[i]? = some ⟨v, none⟩ := by
    intro i
    simp only [Arena.modify, Array.getElem?_modify]
    by_cases hi : h.index = i
    · subst hi
      cases a.cells[h.index]? with
      | none => simp
      | some cell => obtain ⟨v, _ | x⟩ := cell <;> by_cases hv : v = h.version <;> simp [hv]
    · simp [hi]
  exact ⟨ha.vacant_nodup, fun i => (ha.mem_vacant i).trans (and_congr_right fun _ => (hempty i).symm),
    (hempty 0).mpr ha.cell_zero⟩

theorem Sound.insert {a : Arena α} (ha : a.Sound) (x : α) : (a.insert x).2.Sound := by
  have hsize : 0 < a.cells.size := by
    obtain ⟨v, h⟩ := ha.cell_zero
    exact (Array.getElem?_eq_some_iff.mp h).1
  rw [Arena.insert]
  cases hv : a.vacant with
  | nil =>
    -- a cell is added behind all others, none of which is empty
    refine ⟨List.nodup_nil, fun i => ?_, ?_⟩
    · have := ha.mem_vacant i
      simp only [hv, List.not_mem_nil, false_iff] at this
      by_cases hi : i = a.cells.size
      · simp [hi]
      · simpa [Array.getElem?_push, hi] using this
    · obtain ⟨v, h⟩ := ha.cell_zero
      refine ⟨v, ?_⟩
      rw [Array.getElem?_push, if_neg (by omega)]
      exact h
  | cons i rest =>
    have hnodup := ha.vacant_nodup
    rw [hv, List.nodup_cons] at hnodup
    obtain ⟨hi, u, hcell⟩ := (ha.mem_vacant i).mp (by simp [hv])
    refine ⟨hnodup.2, fun j => ?_, ?_⟩
    · have := ha.mem_vacant j
      by_cases hj : i = j
      · subst hj
        simp [Array.getElem?_modify, hcell, hnodup.1]
      · simpa [Array.getElem?_modify, hv, hj, Ne.symm hj] using this
    · obtain ⟨v, h⟩ := ha.cell_zero
      exact ⟨v, by simpa [Array.getElem?_modify, hi] using h⟩

theorem Sound.remove {a : Arena α} (ha : a.Sound) (h : Handle) : (a.remove h).2.Sound := by
  rw [Arena.remove]
  cases hx : a.get? h with
  | none => exact ha
  | some x =>
    have hcell := get?_eq_some_iff.mp hx
    have hzero : h.index ≠ 0 := by
      intro hi
      obtain ⟨v, hz⟩ := ha.cell_zero
      rw [hi, hz] at hcell
      cases hcell
    have hnot : h.index ∉ a.vacant := by
      intro hmem
      obtain ⟨_, v, hv⟩ := (ha.mem_vacant _).mp hmem
      rw [hv] at hcell
      cases hcell
    refine ⟨List.nodup_cons.mpr ⟨hnot, ha.vacant_nodup⟩, fun j => ?_, ?_⟩
    · have := ha.mem_vacant j
      by_cases hj : h.index = j
      · subst hj
        simp [Array.getElem?_modify, hcell, hzero]
      · simpa [Array.getElem?_modify, hj, Ne.symm hj] using this
    · obtain ⟨v, hz⟩ := ha.cell_zero
      exact ⟨v, by simpa [Array.getElem?_modify, hzero] using hz⟩

/-! ### The size -/

/-- A list that names every entry of an arena once is the list of the arena in some order. -/
theorem toList_perm {a : Arena α} {l : List (Handle × α)} (hl : (l.map (·.1)).Nodup)
    (h : ∀ h x, (h, x) ∈ l ↔ a.get? h = some x) : a.toList.Perm l := by
  have hnodup {l : List (Handle × α)} (hl : (l.map (·.1)).Nodup) : l.Nodup :=
    List.Pairwise.of_map _ (fun _ _ hne heq => hne (congrArg Prod.fst heq)) hl
  rw [List.perm_ext_iff_of_nodup (hnodup (nodup_toList a)) (hnodup hl), Prod.forall]
  intro handle x
  rw [mem_toList, h]

/-- A new value makes for one entry more. -/
theorem toList_insert {a : Arena α} (ha : a.Sound) (x : α) :
    (a.insert x).2.toList.Perm (((a.insert x).1, x) :: a.toList) := by
  have hfresh := get?_insert_self_eq_none ha x
  refine toList_perm (List.nodup_cons.mpr ⟨fun hmem => ?_, nodup_toList a⟩) fun h y => ?_
  · obtain ⟨⟨_, y⟩, hmem, rfl⟩ := List.mem_map.mp hmem
    rw [mem_toList.mp hmem] at hfresh
    cases hfresh
  · rw [get?_insert ha, List.mem_cons, mem_toList, Prod.mk.injEq]
    by_cases hh : h = (a.insert x).1
    · simp [hh, hfresh, eq_comm]
    · simp [hh]

/-- A value that is taken out makes for one entry less. -/
theorem toList_remove {a : Arena α} {h : Handle} {x : α} (hx : a.get? h = some x) :
    a.toList.Perm ((h, x) :: (a.remove h).2.toList) := by
  refine toList_perm (List.nodup_cons.mpr ⟨fun hmem => ?_, nodup_toList _⟩) fun h' y => ?_
  · obtain ⟨⟨_, y⟩, hmem, rfl⟩ := List.mem_map.mp hmem
    have hgone := mem_toList.mp hmem
    rw [get?_remove, if_pos rfl] at hgone
    cases hgone
  · rw [List.mem_cons, mem_toList, get?_remove, Prod.mk.injEq]
    by_cases hh : h' = h
    · simp [hh, hx, eq_comm]
    · simp [hh]

theorem length_toList_modify (a : Arena α) (h : Handle) (f : α → α) :
    (a.modify h f).toList.length = a.toList.length := by
  have hperm : ((a.modify h f).toList.map (·.1)).Perm (a.toList.map (·.1)) := by
    rw [List.perm_ext_iff_of_nodup (nodup_toList _) (nodup_toList _)]
    intro h'
    simp only [List.mem_map, Prod.exists, exists_and_right, exists_eq_right, mem_toList, ← Option.isSome_iff_exists,
      get?_modify]
    by_cases hh : h' = h <;> simp [hh]
  simpa using hperm.length_eq

/-- The size is the number of entries. -/
def Sized (a : Arena α) : Prop := a.size = a.toList.length

theorem Sized.modify {a : Arena α} (ha : a.Sized) (h : Handle) (f : α → α) : (a.modify h f).Sized := by
  rwa [Sized, length_toList_modify, size_modify]

theorem Sized.insert {a : Arena α} (ha : a.Sized) (hsound : a.Sound) (x : α) :
    (a.insert x).2.Sized ∧ (a.insert x).2.size = a.size + 1 := by
  have hsize : (a.insert x).2.size = a.size + 1 := by
    rw [Arena.insert]
    split <;> rfl
  refine ⟨?_, hsize⟩
  rw [Sized, hsize, (toList_insert hsound x).length_eq, List.length_cons, ha]

/-- There is something to take from the size when a value is taken out. -/
theorem Sized.remove {a : Arena α} (ha : a.Sized) {h : Handle} {x : α} (hx : a.get? h = some x) :
    (a.remove h).2.Sized ∧ (a.remove h).2.size + 1 = a.size := by
  have hsize : (a.remove h).2.size = a.size - 1 := by
    rw [Arena.remove, hx]
  have hlength := (toList_remove hx).length_eq
  rw [List.length_cons, ← ha] at hlength
  refine ⟨?_, by omega⟩
  rw [Sized, hsize]
  omega

/-! ### Versions -/

/-- Every cell has been filled as often as `fills` says, which its version shows: each filling and each removal has
raised it by one. -/
structure Counts (a : Arena α) (fills : Nat → Nat) : Prop where
  filled : ∀ {i : Nat} {v : UInt32} {x : α}, a.cells[i]? = some ⟨v, some x⟩ → v + 1 = UInt32.ofNat (2 * fills i)
  vacant : ∀ {i : Nat} {v : UInt32}, a.cells[i]? = some ⟨v, none⟩ → v = UInt32.ofNat (2 * fills i)
  unused : ∀ {i : Nat}, a.cells.size ≤ i → fills i = 0

theorem counts_empty : (empty : Arena α).Counts fun _ => 0 where
  filled {i v x} h := by cases i <;> simp [empty] at h
  vacant {i v} h := by cases i <;> simp_all [empty]
  unused _ := rfl

theorem or_one_of_even (k : Nat) : UInt32.ofNat (2 * k) ||| 1 = UInt32.ofNat (2 * k + 1) := by
  have heven : 2 * k % 2 ^ 32 = 2 ^ 1 * (k % 2 ^ 31) := by omega
  have hor : 2 ^ 1 * (k % 2 ^ 31) + 1 = 2 ^ 1 * (k % 2 ^ 31) ||| 1 := Nat.two_pow_add_eq_or_of_lt (by decide) _
  apply UInt32.toNat_inj.mp
  rw [UInt32.toNat_or, UInt32.toNat_ofNat', UInt32.toNat_ofNat', heven, UInt32.toNat_one, ← hor]
  omega

theorem insert_of_nil {a : Arena α} (h : a.vacant = []) (x : α) :
    a.insert x = (⟨a.cells.size, 1⟩, { a with cells := a.cells.push ⟨1, some x⟩, size := a.size + 1 }) := by
  simp [insert, h]

theorem insert_of_cons {a : Arena α} {i : Nat} {rest : List Nat} {v : UInt32} (h : a.vacant = i :: rest)
    (hi : a.cells[i]? = some ⟨v, none⟩) (x : α) :
    a.insert x = (⟨i, v ||| 1⟩,
      { cells := a.cells.modify i fun _ => ⟨v ||| 1, some x⟩, vacant := rest, size := a.size + 1 }) := by
  simp [insert, h, hi]

/-- The handle of a new value tells how often its cell has been filled before. -/
theorem Counts.insert {a : Arena α} {fills : Nat → Nat} (hc : a.Counts fills) (ha : a.Sound) (x : α) :
    let h := (a.insert x).1
    h.version = UInt32.ofNat (2 * fills h.index + 1) ∧
      (a.insert x).2.Counts fun i => if i = h.index then fills i + 1 else fills i := by
  cases hv : a.vacant with
  | nil =>
    have hzero := hc.unused (Nat.le_refl a.cells.size)
    rw [insert_of_nil hv]
    refine ⟨by simp [hzero], fun {i v y} h => ?_, fun {i v} h => ?_, fun {i} h => ?_⟩
    · rw [Array.getElem?_push] at h
      split at h
      · subst i
        cases h
        simp [hzero]
      · simpa [‹¬ i = _›] using hc.filled h
    · rw [Array.getElem?_push] at h
      split at h
      · cases h
      · simpa [‹¬ i = _›] using hc.vacant h
    · rw [Array.size_push] at h
      dsimp only
      rw [if_neg (by omega)]
      exact hc.unused (by omega)
  | cons i rest =>
    obtain ⟨_, u, hi⟩ := (ha.mem_vacant i).mp (by simp [hv])
    have hu := hc.vacant hi
    rw [insert_of_cons hv hi, hu, or_one_of_even]
    refine ⟨rfl, fun {j v y} h => ?_, fun {j v} h => ?_, fun {j} h => ?_⟩
    · rw [Array.getElem?_modify] at h
      by_cases hj : i = j
      · subst hj
        simp only [if_true, hi, Option.map_some, Option.some.injEq, Cell.mk.injEq] at h
        rw [← h.1, if_pos rfl, Nat.mul_succ, UInt32.ofNat_add, UInt32.ofNat_add, UInt32.add_assoc]
        rfl
      · rw [if_neg hj] at h
        rw [if_neg (Ne.symm hj)]
        exact hc.filled h
    · rw [Array.getElem?_modify] at h
      by_cases hj : i = j
      · subst hj
        simp [hi] at h
      · rw [if_neg hj] at h
        rw [if_neg (Ne.symm hj)]
        exact hc.vacant h
    · have hlt := (Array.getElem?_eq_some_iff.mp hi).1
      rw [Array.size_modify] at h
      dsimp only
      rw [if_neg (by omega)]
      exact hc.unused h

theorem Counts.modify {a : Arena α} {fills : Nat → Nat} (hc : a.Counts fills) (h : Handle) (f : α → α) :
    (a.modify h f).Counts fills := by
  -- the versions stay, and a filled cell stays filled
  have hcell : ∀ {i : Nat} {cell : Cell α}, (a.modify h f).cells[i]? = some cell →
      ∃ old, a.cells[i]? = some old ∧ cell.version = old.version ∧ (cell.value = none ↔ old.value = none) := by
    intro i cell hi
    simp only [Arena.modify, Array.getElem?_modify] at hi
    split at hi
    · obtain ⟨old, hold, rfl⟩ := Option.map_eq_some_iff.mp hi
      refine ⟨old, hold, ?_⟩
      split <;> simp
    · exact ⟨cell, hi, rfl, .rfl⟩
  refine ⟨fun {i v x} hi => ?_, fun {i v} hi => ?_, fun {i} hi => hc.unused (by simpa [Arena.modify] using hi)⟩
  · obtain ⟨⟨u, value⟩, hold, rfl, hvalue⟩ := hcell hi
    cases value with
    | none => simp at hvalue
    | some y => exact hc.filled hold
  · obtain ⟨⟨u, value⟩, hold, rfl, hvalue⟩ := hcell hi
    cases value with
    | none => exact hc.vacant hold
    | some y => simp at hvalue

theorem Counts.remove {a : Arena α} {fills : Nat → Nat} (hc : a.Counts fills) (h : Handle) :
    (a.remove h).2.Counts fills := by
  rw [Arena.remove]
  cases hx : a.get? h with
  | none => exact hc
  | some x =>
    have hcell := get?_eq_some_iff.mp hx
    refine ⟨fun {i v y} hi => ?_, fun {i v} hi => ?_, fun {i} hi => hc.unused (by simpa using hi)⟩
    · rw [Array.getElem?_modify] at hi
      split at hi
      · subst i
        simp [hcell] at hi
      · exact hc.filled hi
    · rw [Array.getElem?_modify] at hi
      split at hi
      · subst i
        simp only [hcell, Option.map_some, Option.some.injEq, Cell.mk.injEq] at hi
        rw [← hi.1]
        exact hc.filled hcell
      · exact hc.vacant hi

end Cadence.Arena
