import Mathlib.Data.List.Forall2
import Cadence.Proofs.Engine.Tale

/-!
The results of updates among the calls of a phase: who makes one, what is kept of it, and who applies it.
-/

namespace Cadence

variable {σ ρ ε : Type}

/-! ### Results in the log -/

namespace Call

/-- The result of an update, and who has made it. -/
def made? : Call ρ → Option (Nat × ρ)
  | update visit => match visit.outcome with
    | .ok (some result) => some (visit.id, result)
    | _ => none
  | _ => none

/-- The result that is applied, and who applies it. -/
def applied? : Call ρ → Option (Nat × ρ)
  | apply result visit => some (visit.id, result)
  | _ => none

/-- The call duplicates or releases a result. -/
def isHandOff : Call ρ → Bool
  | duplicate .. | release _ => true
  | _ => false

def made (calls : List (Call ρ)) : List (Nat × ρ) := calls.filterMap made?

def applied (calls : List (Call ρ)) : List (Nat × ρ) := calls.filterMap applied?

def handOffs (calls : List (Call ρ)) : List (Call ρ) := calls.filter isHandOff

section append

variable (calls calls' : List (Call ρ))

@[simp] theorem made_append : made (calls ++ calls') = made calls ++ made calls' := List.filterMap_append ..

@[simp] theorem applied_append : applied (calls ++ calls') = applied calls ++ applied calls' := List.filterMap_append ..

@[simp] theorem handOffs_append : handOffs (calls ++ calls') = handOffs calls ++ handOffs calls' :=
  List.filter_append ..

end append

/-- Systems that are told of events have nothing to do with results. -/
theorem results_of_told {calls : List (Call ρ)} (h : ∀ call ∈ calls, call.IsTold) :
    made calls = [] ∧ applied calls = [] ∧ handOffs calls = [] := by
  refine ⟨List.filterMap_eq_nil_iff.mpr fun call hmem => ?_, List.filterMap_eq_nil_iff.mpr fun call hmem => ?_,
    List.filter_eq_nil_iff.mpr fun call hmem => ?_⟩ <;>
  · have htold := h call hmem
    cases call <;> first | rfl | exact Bool.false_ne_true | cases htold

end Call

open Call

/-- One system has kept a copy of the result that it has made. -/
def System.Copied (sys : System σ ρ ε) (made kept : Nat × ρ) : Prop :=
  kept.1 = made.1 ∧ ∃ host, kept.2 = (sys.duplicate made.2 host).1

/-- A result that is made is duplicated, the copy is kept, and the result is released. -/
def Call.copying (made kept : Nat × ρ) : List (Call ρ) := [.duplicate made.2 kept.2, .release made.2]

/-! ### The results of a phase -/

namespace Turn

variable {sys : System σ ρ ε}

/-- On the thread what is made is kept. -/
theorem OnThread.results {turn : Turn ρ} (h : turn.OnThread) :
    made turn.calls = turn.due?.toList ∧ applied turn.calls = [] ∧ handOffs turn.calls = [] := by
  cases h with
  | @done visit result follow hdone htold =>
    obtain ⟨hmade, happlied, hhandOffs⟩ := results_of_told htold
    have hfirst : made [Call.update visit] = (result.map (visit.id, ·)).toList := by
      cases result <;> simp [made, made?, hdone]
    refine ⟨?_, happlied, hhandOffs⟩
    show made ([Call.update visit] ++ follow) = _
    rw [made_append, hfirst, hmade, List.append_nil]
    rfl
  | failed hfailed => exact ⟨by simp [Turn.calls, Turn.due?, made, made?, hfailed], rfl, rfl⟩

/-- On a worker a copy of what is made is kept. -/
theorem OnWorker.results {turn : Turn ρ} (h : turn.OnWorker sys) :
    applied turn.calls = [] ∧
      ((made turn.calls = [] ∧ turn.due? = none ∧ handOffs turn.calls = []) ∨
        ∃ result kept, made turn.calls = [result] ∧ turn.due? = some kept ∧ sys.Copied result kept ∧
          handOffs turn.calls = copying result kept) := by
  cases h with
  | idle hdone => exact ⟨rfl, .inl ⟨by simp [Turn.calls, made, made?, hdone], rfl, rfl⟩⟩
  | @handedOff visit result host hdone =>
    have hmade : made [Call.update visit] = [(visit.id, result)] := by simp [made, made?, hdone]
    exact ⟨rfl, .inr ⟨(visit.id, result), (visit.id, (sys.duplicate result host).1), hmade, rfl, ⟨rfl, host, rfl⟩, rfl⟩⟩
  | failed hfailed => exact ⟨rfl, .inl ⟨by simp [Turn.calls, made, made?, hfailed], rfl, rfl⟩⟩

theorem results_on_thread {turns : List (Turn ρ)} (h : ∀ turn ∈ turns, turn.OnThread) :
    made (turns.flatMap Turn.calls) = turns.filterMap Turn.due? ∧ applied (turns.flatMap Turn.calls) = [] ∧
      handOffs (turns.flatMap Turn.calls) = [] := by
  induction turns with
  | nil => exact ⟨rfl, rfl, rfl⟩
  | cons turn rest ih =>
    obtain ⟨hturn, hrest⟩ := List.forall_mem_cons.mp h
    obtain ⟨hmade, happlied, hhandOffs⟩ := hturn.results
    obtain ⟨hmade', happlied', hhandOffs'⟩ := ih hrest
    rw [List.flatMap_cons, made_append, applied_append, handOffs_append, hmade, happlied, hhandOffs, hmade', happlied',
      hhandOffs', List.filterMap_cons]
    refine ⟨?_, rfl, rfl⟩
    cases turn.due? <;> rfl

theorem results_on_workers {turns : List (Turn ρ)} (h : ∀ turn ∈ turns, turn.OnWorker sys) :
    List.Forall₂ sys.Copied (made (turns.flatMap Turn.calls)) (turns.filterMap Turn.due?) ∧
      applied (turns.flatMap Turn.calls) = [] ∧
      handOffs (turns.flatMap Turn.calls) =
        ((made (turns.flatMap Turn.calls)).zip (turns.filterMap Turn.due?)).flatMap
          fun (made, kept) => copying made kept := by
  induction turns with
  | nil => exact ⟨.nil, rfl, rfl⟩
  | cons turn rest ih =>
    obtain ⟨hturn, hrest⟩ := List.forall_mem_cons.mp h
    obtain ⟨hcopied', happlied', hhandOffs'⟩ := ih hrest
    obtain ⟨happlied, ⟨hmade, hdue, hhandOffs⟩ | ⟨result, kept, hmade, hdue, hcopied, hhandOffs⟩⟩ := hturn.results
    · rw [List.flatMap_cons, made_append, applied_append, handOffs_append, hmade, happlied, hhandOffs, happlied',
        List.filterMap_cons, hdue]
      exact ⟨hcopied', rfl, hhandOffs'⟩
    · rw [List.flatMap_cons, made_append, applied_append, handOffs_append, hmade, happlied, hhandOffs, happlied',
        List.filterMap_cons, hdue]
      refine ⟨.cons hcopied hcopied', rfl, ?_⟩
      rw [hhandOffs']
      rfl

/-- Who makes a result is who keeps one. -/
theorem made_ids {turns : List (Turn ρ)} {parallel : Bool} (h : ∀ turn ∈ turns, turn.IsRegular sys parallel) :
    applied (turns.flatMap Turn.calls) = [] ∧
      (made (turns.flatMap Turn.calls)).map (·.1) = (turns.filterMap Turn.due?).map (·.1) := by
  cases parallel with
  | false =>
    obtain ⟨hmade, happlied, _⟩ := results_on_thread h
    exact ⟨happlied, by rw [hmade]⟩
  | true =>
    obtain ⟨hcopied, happlied, _⟩ := results_on_workers h
    refine ⟨happlied, ?_⟩
    have hsame : List.Forall₂ (fun made kept : Nat × ρ => made.1 = kept.1) (made (turns.flatMap Turn.calls))
        (turns.filterMap Turn.due?) := hcopied.imp fun _ _ h => h.1.symm
    rw [← List.forall₂_eq_eq_eq, List.forall₂_map_left_iff, List.forall₂_map_right_iff]
    exact hsame

end Turn

theorem Application.results {applications : List (Application ρ)}
    (h : ∀ application ∈ applications, application.OnThread) :
    made (applications.flatMap Application.calls) = [] ∧
      applied (applications.flatMap Application.calls) = applications.map Application.due ∧
      handOffs (applications.flatMap Application.calls) = [] := by
  induction applications with
  | nil => exact ⟨rfl, rfl, rfl⟩
  | cons application rest ih =>
    obtain ⟨hfirst, hrest⟩ := List.forall_mem_cons.mp h
    obtain ⟨hmade', happlied', hhandOffs'⟩ := ih hrest
    have htold : ∀ call ∈ application.follow, call.IsTold := by
      cases hfirst with
      | done _ htold => exact htold
      | failed => simp
    obtain ⟨hmade, happlied, hhandOffs⟩ := results_of_told htold
    have hcalls : (application :: rest).flatMap Application.calls =
        [.apply application.result application.visit] ++ application.follow ++ rest.flatMap Application.calls := rfl
    rw [hcalls, made_append, made_append, applied_append, applied_append, handOffs_append, handOffs_append, hmade,
      happlied, hhandOffs, hmade', happlied', hhandOffs']
    exact ⟨rfl, rfl, rfl⟩

namespace PhaseRun

/-- The calls up to the last update. -/
def updating (run : PhaseRun ρ) : List (Call ρ) := run.opening ++ run.turns.flatMap Turn.calls

/-- The calls from the first application on. -/
def applying (run : PhaseRun ρ) : List (Call ρ) := run.applications.flatMap Application.calls

end PhaseRun

end Cadence
