import Cadence.Proofs.World.Retention
import Mathlib.Algebra.Group.Nat.Defs

/-!
The handles that a run gives out. A handle comes up again only when its cell of the arena has been filled again 2³¹
times.
-/

namespace Cadence.World

variable {w w' : World}

/-- The component that a change has attached, with its owner. -/
def attachedBy : Edit Entity Handle → Except WorldError Answer → List (Handle × Entity)
  | .attach owner _, .ok (.handle h) => [(h, owner)]
  | _, _ => []

/-- The components that the changes attach, with their owners. -/
def attachments (w : World) : List (Edit Entity Handle) → List (Handle × Entity)
  | [] => []
  | edit :: rest => attachedBy edit (w.perform edit).1 ++ attachments (w.perform edit).2 rest

theorem attachments_append (w : World) (xs ys : List (Edit Entity Handle)) :
    w.attachments (xs ++ ys) = w.attachments xs ++ (w.run xs).attachments ys := by
  induction xs generalizing w with
  | nil => rfl
  | cons edit rest ih =>
    simp only [List.cons_append, attachments, ih, List.append_assoc]
    rfl

/-- How many of the components are in a cell of the arena. -/
def fills (issued : List (Handle × Entity)) (i : Nat) : Nat := issued.countP (·.1.index = i)

theorem fills_append (xs ys : List (Handle × Entity)) (i : Nat) : fills (xs ++ ys) i = fills xs i + fills ys i :=
  List.countP_append

theorem fills_le_of_append {xs ys : List (Handle × Entity)} {n : Nat} (h : ∀ i, fills (xs ++ ys) i ≤ n) (i : Nat) :
    fills xs i ≤ n := by
  have hsum := h i
  rw [fills_append] at hsum
  omega

/-- The handles given out so far: each cell of the arena knows how many of them point to it, and they are numbered by
their versions. -/
structure Issued (issued : List (Handle × Entity)) (w : World) : Prop where
  counts : w.store.entries.Counts (fills issued)
  numbered : ∀ p ∈ issued, ∃ k < fills issued p.1.index, p.1.version = UInt32.ofNat (2 * k + 1)

theorem issued_empty : Issued [] empty where
  counts := Arena.counts_empty
  numbered p hmem := by cases hmem

theorem Issued.of_counts {issued : List (Handle × Entity)} (h : Issued issued w)
    (hcounts : ∀ {fills}, w.store.entries.Counts fills → w'.store.entries.Counts fills) : Issued issued w' :=
  ⟨hcounts h.counts, h.numbered⟩

/-- A handle is new as long as its cell has not been filled more than 2³¹ times. -/
theorem Issued.attach {issued : List (Handle × Entity)} (h : Issued issued w) (hw : w.store.entries.Sound) (e : Entity)
    (c : Component) (hbound : ∀ i, fills (issued ++ [((w.store.insert e c).1, e)]) i ≤ 2 ^ 31) :
    (w.store.insert e c).1 ∉ issued.map (·.1) ∧
      Issued (issued ++ [((w.store.insert e c).1, e)]) (w.withAttached e c) := by
  obtain ⟨hversion, hcounts⟩ := h.counts.insert hw ⟨e, .attached, c⟩
  rw [← Store.fst_insert] at hversion
  have hentries : (w.withAttached e c).store.entries = (w.store.entries.insert ⟨e, .attached, c⟩).2 := rfl
  rw [← hentries, ← Store.fst_insert] at hcounts
  revert hbound hversion hcounts
  generalize (w.store.insert e c).1 = new
  intro hbound hversion hcounts
  have hfills : ∀ i, fills (issued ++ [(new, e)]) i = if i = new.index then fills issued i + 1 else fills issued i := by
    intro i
    rw [fills_append]
    by_cases hi : new.index = i
    · simp [fills, hi]
    · simp [fills, hi, Ne.symm hi]
  refine ⟨fun hmem => ?_, ⟨?_, fun p hmem => ?_⟩⟩
  -- two fillings of one cell have the same version only if they are 2³¹ apart
  · obtain ⟨p, hp, rfl⟩ := List.mem_map.mp hmem
    obtain ⟨k, hk, hsame⟩ := h.numbered p hp
    have hlast := hbound p.1.index
    rw [hfills, if_pos rfl] at hlast
    have htoNat := congrArg UInt32.toNat (hsame.symm.trans hversion)
    simp only [UInt32.toNat_ofNat'] at htoNat
    omega
  · have heq : (fun i => if i = new.index then fills issued i + 1 else fills issued i) =
        fills (issued ++ [(new, e)]) := funext fun i => (hfills i).symm
    rwa [heq] at hcounts
  · obtain hmem | hmem := List.mem_append.mp hmem
    · obtain ⟨k, hk, hsame⟩ := h.numbered p hmem
      refine ⟨k, ?_, hsame⟩
      rw [hfills]
      split <;> omega
    · rw [List.mem_singleton] at hmem
      subst hmem
      refine ⟨fills issued new.index, ?_, hversion⟩
      rw [hfills, if_pos rfl]
      exact Nat.lt_succ_self _

end Cadence.World
