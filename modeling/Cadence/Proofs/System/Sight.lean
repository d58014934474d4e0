import Cadence.Proofs.Index.Listing
import Cadence.Proofs.System.Catalogs
import Mathlib.Data.List.Basic

/-!
What an interpreter is shown. A script system whose index is in step with the world shows the interpreter every script
that is attached, several of one entity included, each once; if there are none, it leaves the interpreter alone.
-/

namespace Cadence

namespace World

/-- What an interpreter is to see of a script and the entity that runs it. -/
def sight (w : World) (owner : Entity) (script : Script) : ScriptInstance where
  entity := owner
  script := script.name
  position := (w.first? .transform owner).map fun (_, t) => (t.x, t.y)
  velocity := (w.first? .velocity owner).map fun (_, v) => (v.dx, v.dy)

/-- The scripts that are attached, in the order of the arena. -/
def scripted (w : World) : List ScriptInstance :=
  w.store.attached.filterMap fun (_, owner, c) => (c.as .script).map (w.sight owner)

/-- How many of the components that are attached name a script. -/
def users (w : World) (script : String) : Nat := w.scripted.countP (·.script == script)

/-- What is to be seen of a component, if it is a script. -/
def sight? (w : World) (p : Handle × Entity) : Option ScriptInstance :=
  (w.store.getAs? .script p.1).map (w.sight p.2)

theorem filterMap_attachedPairs (w : World) : (w.attachedPairs (· == .script)).filterMap w.sight? = w.scripted := by
  rw [attachedPairs, List.filterMap_map, List.filterMap_filter, scripted]
  refine List.filterMap_congr ?_
  rintro ⟨h, owner, c⟩ hmem
  have hget : w.store.get? h = some c := by simp [Store.get?, Store.mem_attached.mp hmem]
  dsimp only [Function.comp]
  split
  · simp [sight?, Store.getAs?, hget]
  · rename_i hkind
    rw [Component.as_eq_none_iff.mpr (by simpa using hkind)]
    rfl

theorem countP_sight? (w : World) (pairs : List (Handle × Entity)) (script : String) :
    (pairs.filterMap w.sight?).countP (·.script == script) =
      pairs.countP fun p => w.scriptName? p.1 == some script := by
  rw [List.countP_filterMap]
  congr 1
  funext p
  rw [sight?, scriptName?]
  cases w.store.getAs? .script p.1 <;> simp [sight]

end World

theorem mapM_eq_filterMap {α β ε : Type} {f : α → Except ε β} {g : α → Option β} {xs : List α}
    (h : ∀ a ∈ xs, ∃ b, f a = .ok b ∧ g a = some b) : xs.mapM f = .ok (xs.filterMap g) := by
  induction xs with
  | nil => rfl
  | cons a rest ih =>
    obtain ⟨b, hf, hg⟩ := h a (by simp)
    rw [List.mapM_cons, hf, ih fun a' hmem => h a' (by simp [hmem]), List.filterMap_cons, hg]
    rfl

namespace Scripts

variable {τ ε : Type} {s : Scripts τ} {w : World}

/-- The index of a script system. -/
def catalog (s : Scripts τ) : Catalog := ⟨(· == .script), s.attachments⟩

/-- In an update, on a worker or on the thread of the scheduler, the interpreter is shown `seen`, and its commands, if
there are any, are the result. The world is left alone. -/
def Shows (I : Interpreter τ ε) (s : Scripts τ) (w : World) (seen : List ScriptInstance) : Prop :=
  ∀ (ctx : Context) (dt : Float32) (host : ε), ctx.world = w →
    let called := (I.call dt seen s.interpreter host).map ({ s with interpreter := · }) fun commands =>
      if commands.isEmpty then none else some commands
    (system I).update ctx dt s host = { called with } ∧ (system I).updateSerial ctx dt s host = { called with world := w }

/-- In an update, on a worker or on the thread of the scheduler, the interpreter is not called. -/
def Rests (I : Interpreter τ ε) (s : Scripts τ) (w : World) : Prop :=
  ∀ (ctx : Context) (dt : Float32) (host : ε), ctx.world = w →
    (system I).update ctx dt s host = { outcome := .ok none, system := s, host } ∧
      (system I).updateSerial ctx dt s host = { outcome := .ok none, system := s, host, world := w }

theorem updateSerial_eq (I : Interpreter τ ε) (ctx : Context) (dt : Float32) (s : Scripts τ) (host : ε) :
    (system I).updateSerial ctx dt s host = { (system I).update ctx dt s host with world := ctx.world } := rfl

/-- With its index in order a system sees a script behind each of its entries. -/
theorem instanceOf_eq (hlists : s.catalog.Lists w) {entry : Index.Entry} (hmem : entry ∈ s.attachments.entries.toList) :
    ∃ found, instanceOf w entry = .ok found ∧ w.sight? (entry.handle, entry.owner) = some found := by
  obtain ⟨script, hget⟩ := Catalog.Lists.stored hlists hmem
  refine ⟨w.sight entry.owner script, ?_, ?_⟩
  · simp [instanceOf, World.component_of_getAs? hget, Except.map, World.sight]
  · simp [World.sight?, hget]

theorem instances_eq (hlists : s.catalog.Lists w) :
    s.instances w = .ok (s.attachments.pairs.filterMap w.sight?) := by
  rw [instances, mapM_eq_filterMap fun entry hmem => instanceOf_eq hlists hmem, Index.pairs, List.filterMap_map]
  rfl

theorem perm_scripted (hlists : s.catalog.Lists w) : (s.attachments.pairs.filterMap w.sight?).Perm w.scripted := by
  have hperm : s.attachments.pairs.Perm (w.attachedPairs (· == .script)) := hlists.perm
  rw [← w.filterMap_attachedPairs]
  exact hperm.filterMap _

theorem isEmpty_iff (hlists : s.catalog.Lists w) : s.attachments.isEmpty ↔ w.scripted = [] := by
  have hperm := perm_scripted hlists
  rw [Index.isEmpty, Array.isEmpty_iff]
  constructor
  · intro hempty
    have hnil : s.attachments.pairs = [] := by simp [Index.pairs, hempty]
    rw [hnil] at hperm
    exact hperm.symm.eq_nil
  · intro hnone
    rw [hnone] at hperm
    have hnil := List.filterMap_eq_nil_iff.mp hperm.eq_nil
    refine Array.toList_inj.mp (List.eq_nil_iff_forall_not_mem.mpr fun entry hmem => ?_)
    obtain ⟨found, _, hfound⟩ := instanceOf_eq hlists hmem
    rw [hnil _ (List.mem_map_of_mem hmem)] at hfound
    cases hfound

/-- With its index in order a system shows the interpreter the attached scripts, and if there are none does not call
it. -/
theorem shows_or_rests (I : Interpreter τ ε) (hlists : s.catalog.Lists w) :
    (w.scripted = [] ∧ Rests I s w) ∨
      (w.scripted ≠ [] ∧ ∃ seen, seen.Perm w.scripted ∧ Shows I s w seen) := by
  have hempty := isEmpty_iff hlists
  by_cases hnone : w.scripted = []
  · refine .inl ⟨hnone, ?_⟩
    rintro ctx dt host rfl
    have hupdate : (system I).update ctx dt s host = { outcome := .ok none, system := s, host } := by
      simp only [system, call, if_pos (hempty.mpr hnone)]
    refine ⟨hupdate, ?_⟩
    rw [updateSerial_eq, hupdate]
  · refine .inr ⟨hnone, _, perm_scripted hlists, ?_⟩
    rintro ctx dt host rfl called
    have hupdate : (system I).update ctx dt s host = { called with } := by
      simp only [system, call, if_neg fun h => hnone (hempty.mp h), instances_eq hlists, called]
    refine ⟨hupdate, ?_⟩
    rw [updateSerial_eq, hupdate]

end Scripts

end Cadence
