import Cadence.Proofs.World.Retention
import Mathlib.Algebra.Group.Nat.Defs

/-!
Generations tell the users of an id apart. Each time the id is freed its generation goes up by one, so that an entity
can only come back once its id has gone through all generations.
-/

namespace Cadence.World

/-- How many of the changes free an id: somebody has it before the change and nobody has it after. -/
def frees (id : Nat) (w : World) : List (Edit Entity Handle) → Nat
  | [] => 0
  | edit :: rest =>
    let w' := (w.perform edit).2
    (if w.inUse id && !w'.inUse id then 1 else 0) + frees id w' rest

theorem frees_append (id : Nat) (w : World) (xs ys : List (Edit Entity Handle)) :
    frees id w (xs ++ ys) = frees id w xs + frees id (w.run xs) ys := by
  induction xs generalizing w with
  | nil => simp [frees, run]
  | cons edit rest ih =>
    simp only [List.cons_append, frees, ih]
    exact (Nat.add_assoc ..).symm

theorem frees_le_length (id : Nat) (w : World) (edits : List (Edit Entity Handle)) :
    frees id w edits ≤ edits.length := by
  induction edits generalizing w with
  | nil => exact Nat.le_refl 0
  | cons edit rest ih =>
    have hrest := ih (w.perform edit).2
    simp only [frees, List.length_cons]
    split <;> omega

/-! ### The generation counts -/

theorem generation_flush {w : World} (hw : w.Sound) (id : Nat) :
    w.flush.2.generation id = w.generation id + if w.inUse id && !w.flush.2.inUse id then 1 else 0 := by
  simp only [generation, inUse, getElem?_slots_flush hw]
  cases w.slots[id]? with
  | none => simp
  | some slot =>
    by_cases hpending : slot.state = some .pending
    · simp [Slot.flushed, hpending]
    · cases hstate : slot.state <;> simp [Slot.flushed_eq_self hpending, hstate]

/-- One change: the generation goes up if the id is freed, and only then. -/
theorem generation_perform {w : World} (hw : w.Sound) (edit : Edit Entity Handle) (id : Nat) :
    (w.perform edit).2.generation id =
      w.generation id + if w.inUse id && !(w.perform edit).2.inUse id then 1 else 0 := by
  by_cases hedit : edit = .flush
  · subst hedit
    exact generation_flush hw id
  · have hretains := retains_perform hw hedit
    rw [hretains.generation]
    cases huse : w.inUse id with
    | false => simp
    | true => simp [hretains.inUse id huse]

theorem generation_run {w : World} (hw : w.Sound) (edits : List (Edit Entity Handle)) (id : Nat) :
    (w.run edits).generation id = w.generation id + UInt32.ofNat (frees id w edits) := by
  induction edits generalizing w with
  | nil => simp [frees, run]
  | cons edit rest ih =>
    calc (w.run (edit :: rest)).generation id
        = (w.perform edit).2.generation id + UInt32.ofNat (frees id (w.perform edit).2 rest) :=
          ih (sound_perform hw edit)
      _ = w.generation id + UInt32.ofNat (frees id w (edit :: rest)) := by
          rw [generation_perform hw, UInt32.add_assoc, frees, UInt32.ofNat_add]
          split <;> rfl

theorem inUse_run {w : World} {edits : List (Edit Entity Handle)} {id : Nat} (huse : w.inUse id)
    (hfrees : frees id w edits = 0) : (w.run edits).inUse id := by
  induction edits generalizing w with
  | nil => exact huse
  | cons edit rest ih =>
    rw [frees] at hfrees
    refine ih (w := (w.perform edit).2) ?_ (by omega)
    cases hnext : (w.perform edit).2.inUse id with
    | true => rfl
    | false => simp [huse, hnext] at hfrees

/-- An entity that was gone for a while has its generation back only after the id has been through all the others. -/
theorem frees_of_return {w : World} (hw : w.Sound) {e : Entity} (he : w.contains e) (xs ys : List (Edit Entity Handle))
    (hgone : ¬ (w.run xs).contains e) (hback : (w.run (xs ++ ys)).generation e.id = e.generation) :
    2 ^ 32 ≤ frees e.id w (xs ++ ys) := by
  obtain ⟨huse, hgeneration⟩ := contains_iff.mp he
  have hsome : frees e.id w xs ≠ 0 := by
    intro hzero
    refine hgone (contains_iff.mpr ⟨inUse_run huse hzero, ?_⟩)
    simpa [hzero, hgeneration] using generation_run hw xs e.id
  have hturn : UInt32.ofNat (frees e.id w (xs ++ ys)) = 0 := by
    have hsum := generation_run hw (xs ++ ys) e.id
    rw [hback, hgeneration] at hsum
    simpa using hsum.symm
  have hdvd : frees e.id w (xs ++ ys) % 2 ^ 32 = 0 := by
    have htoNat := congrArg UInt32.toNat hturn
    simpa using htoNat
  rw [frees_append] at hdvd ⊢
  omega

/-! ### Spawning -/

/-- Nobody has the id of a new entity; its slot is as the spawn leaves it, whether it has been used before or not. -/
theorem spawned {w : World} (hw : w.Sound) (persistent : Bool) :
    let e := (w.spawn persistent).1
    ¬ w.inUse e.id ∧ w.generation e.id = e.generation ∧
      (w.spawn persistent).2.slot? e = some ⟨e.generation, some .live, persistent, #[]⟩ := by
  cases hfree : w.freeIds with
  | nil =>
    rw [spawn_of_nil hfree]
    refine ⟨by simp [inUse], by simp [generation], slot?_eq_some_iff.mpr ⟨by simp, rfl, rfl⟩⟩
  | cons id rest =>
    obtain ⟨slot, hslot, hstate⟩ := (hw.mem_freeIds id).mp (by simp [hfree])
    have hhandles := hw.handles_of_state hslot hstate
    rw [spawn_of_cons hfree hslot]
    refine ⟨by simp [inUse, hslot, hstate], generation_of_slot hslot, slot?_eq_some_iff.mpr ⟨?_, rfl, rfl⟩⟩
    simp [Array.getElem?_modify, hslot, hhandles]

/-! ### Entities that are gone -/

/-- Every operation fails that is given the entity, and leaves the world as it is. -/
structure IsStale (w : World) (e : Entity) : Prop where
  state : w.state? e = none
  isPersistent : w.isPersistent e = .error (.staleEntity e)
  handlesOf : w.handlesOf e = .error (.staleEntity e)
  setPersistent : ∀ persistent, w.setPersistent e persistent = (.error (.staleEntity e), w)
  attach : ∀ c, w.attach e c = (.error (.staleEntity e), w)
  mark : w.mark e = (.error (.staleEntity e), w)

theorem isStale_of_not_contains {w : World} {e : Entity} (h : ¬ w.contains e) : w.IsStale e := by
  have hstate : w.state? e = none := by simpa [contains] using h
  have hslot := slot?_eq_none_iff.mpr hstate
  exact ⟨hstate, by simp [World.isPersistent, hslot], by simp [World.handlesOf, hslot],
    fun _ => by simp [World.setPersistent, hslot], fun _ => by simp [World.attach, hslot], by simp [World.mark, hslot]⟩

/-- Entities never alias. Two spawns return the same entity only if its id has been freed 2³² times in between; so in
a run in which that happens to no id, an entity that a flush has freed stays stale, whoever has its id by then. And a
new entity is live, holds nothing and is persistent exactly as it was asked to be. -/
theorem entities_never_alias :
    (∀ (before between : List (Edit Entity Handle)) (p q : Bool) (e : Entity),
      ((run empty before).spawn p).1 = e →
      ((run empty (before ++ .spawn p :: between)).spawn q).1 = e →
      2 ^ 32 ≤ frees e.id (run empty (before ++ [.spawn p])) between) ∧
    (∀ (before after : List (Edit Entity Handle)) (e : Entity),
      (∀ id, frees id empty (before ++ .flush :: after) < 2 ^ 32) →
      (run empty before).contains e → ¬ (run empty (before ++ [.flush])).contains e →
      (run empty (before ++ .flush :: after)).IsStale e) ∧
    ∀ (before : List (Edit Entity Handle)) (persistent : Bool),
      let (e, w) := (run empty before).spawn persistent
      w.state? e = some .live ∧ w.handlesOf e = .ok #[] ∧ w.isPersistent e = .ok persistent := by
  have hsound (edits : List (Edit Entity Handle)) : (run empty edits).Sound := sound_run sound_empty edits
  refine ⟨fun before between p q e hfirst hsecond => ?_, fun before after e hfrees hold hgone => ?_,
    fun before persistent => ?_⟩
  · obtain ⟨_, _, hslot⟩ := spawned (hsound before) p
    rw [hfirst] at hslot
    have hcontains : (run empty (before ++ [.spawn p])).contains e := by
      have hlast : run empty (before ++ [.spawn p]) = ((run empty before).spawn p).2 :=
        run_append empty before [.spawn p]
      simp [contains, state?, hlast, hslot]
    have hsplit : run empty (before ++ .spawn p :: between) = (run empty (before ++ [.spawn p])).run between := by
      rw [← run_append, List.append_assoc, List.singleton_append]
    obtain ⟨hfree, hgeneration, _⟩ := spawned (hsound (before ++ .spawn p :: between)) q
    rw [hsecond, hsplit] at hfree hgeneration
    have hturn := frees_of_return (hsound _) hcontains between [] (fun h => hfree (contains_iff.mp h).1)
    rw [List.append_nil] at hturn
    exact hturn hgeneration
  · refine isStale_of_not_contains fun hback => ?_
    rw [run_append] at hgone hback
    have hturn := frees_of_return (hsound before) hold [.flush] after hgone (contains_iff.mp hback).2
    have hbound := hfrees e.id
    rw [frees_append] at hbound
    rw [List.singleton_append] at hturn
    omega
  · obtain ⟨_, _, hslot⟩ := spawned (hsound before) persistent
    dsimp only
    simp [state?, handlesOf, isPersistent, hslot]

/-- Spawns and frees the entity of id 0 so many times over, the first time under the given generation. -/
def lives (generation : UInt32) : Nat → List (Edit Entity Handle)
  | 0 => []
  | n + 1 => .mark ⟨0, generation⟩ :: .flush :: .spawn false :: lives (generation + 1) n

/-- The world of a single entity, without components. -/
def single (generation : UInt32) : World := { slots := #[{ generation, state := some .live }], liveCount := 1 }

theorem run_lives (generation : UInt32) (n : Nat) (edits : List (Edit Entity Handle)) :
    (single generation).run (lives generation n ++ edits) = (single (generation + UInt32.ofNat n)).run edits := by
  induction n generalizing generation with
  | zero => simp [lives]
  | succ n ih =>
    have hlife : (single generation).run [.mark ⟨0, generation⟩, .flush, .spawn false] = single (generation + 1) := by
      simp [single, run, perform, answered, mark, slot?, modifySlot, flush, free, spawn, Store.releaseScheduled,
        Option.filter_some]
    calc (single generation).run (lives generation (n + 1) ++ edits)
        = ((single generation).run [.mark ⟨0, generation⟩, .flush, .spawn false]).run
            (lives (generation + 1) n ++ edits) := rfl
      _ = (single (generation + UInt32.ofNat (n + 1))).run edits := by
          rw [hlife, ih, Nat.add_comm n 1, UInt32.ofNat_add, ← UInt32.add_assoc]
          rfl

theorem spawn_after_lives {n : Nat} (hn : UInt32.ofNat n + 1 = 0) :
    ((run empty (.spawn false :: (lives 0 n ++ [.mark ⟨0, UInt32.ofNat n⟩, .flush]))).spawn false).1 = ⟨0, 0⟩ := by
  have hfirst : run empty (.spawn false :: (lives 0 n ++ [.mark ⟨0, UInt32.ofNat n⟩, .flush])) =
      (single 0).run (lives 0 n ++ [.mark ⟨0, UInt32.ofNat n⟩, .flush]) := rfl
  rw [hfirst, run_lives, UInt32.zero_add]
  simp [single, run, perform, answered, mark, slot?, modifySlot, flush, free, spawn, Store.releaseScheduled,
    Option.filter_some, hn]

/-- The entity that was spawned first is returned again once all generations of its id have passed, and is stale after
the first of them. -/
theorem first_entity_returns :
    2 ^ 32 ≤ frees 0 (run empty [.spawn false]) (lives 0 4294967295 ++ [.mark ⟨0, UInt32.ofNat 4294967295⟩, .flush]) ∧
    (run empty [.spawn false, .mark ⟨0, 0⟩, .flush, .spawn true]).IsStale ⟨0, 0⟩ ∧
    (run empty [.spawn false, .mark ⟨0, 0⟩, .flush, .spawn true]).state? ⟨0, 1⟩ = some .live := by
  have hreturn := spawn_after_lives (n := 4294967295) rfl
  refine ⟨entities_never_alias.1 [] _ false false ⟨0, 0⟩ rfl hreturn,
    entities_never_alias.2.1 [.spawn false, .mark ⟨0, 0⟩] [.spawn true] ⟨0, 0⟩ (fun id => ?_) rfl (by decide), rfl⟩
  exact Nat.lt_of_le_of_lt (frees_le_length ..) (by decide)

end Cadence.World
