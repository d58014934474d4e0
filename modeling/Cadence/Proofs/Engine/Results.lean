import Cadence.Proofs.Engine.Order

/-!
What becomes of the results of updates. Each is applied in the phase in which it was made and by the system that made
it, or dropped with the phase; none is left over when an operation is done.
-/

namespace Cadence

variable {σ ρ ε : Type}

open Call

namespace PhaseRun

/-- What becomes of the results of a phase: nobody makes two; on the thread the results themselves are kept, on workers
copies of them, each made once, after which the result is released; what is kept is applied by those who have made it,
once each and in order, and all of it unless somebody has failed in the phase. -/
structure SettlesResults (sys : System σ ρ ε) (run : PhaseRun ρ) : Prop where
  apart : applied run.updating = [] ∧ made run.applying = [] ∧ handOffs run.applying = []
  once : ((made run.updating).map (·.1)).Nodup
  serial : run.parallel = false → run.waiting = made run.updating ∧ handOffs run.updating = []
  parallel : run.parallel = true → List.Forall₂ sys.Copied (made run.updating) run.waiting ∧
    handOffs run.updating = ((made run.updating).zip run.waiting).flatMap fun (made, kept) => copying made kept
  applied : applied run.applying <+: run.waiting
  finished : run.IsDone → Call.applied run.applying = run.waiting

theorem waiting_sublist (run : PhaseRun ρ) : (run.waiting.map (·.1)).Sublist (run.turns.map (·.visit.id)) := by
  unfold waiting
  induction run.turns with
  | nil => exact .slnil
  | cons turn rest ih =>
    rw [List.filterMap_cons]
    cases hkept : turn.due? with
    | none => exact ih.cons _
    | some kept =>
      have hid : kept.1 = turn.visit.id := by
        obtain ⟨_, _, rfl⟩ := Option.map_eq_some_iff.mp hkept
        rfl
      rw [List.map_cons, List.map_cons, hid]
      exact ih.cons_cons _

theorem IsRegular.settlesResults {sys : System σ ρ ε} {run : PhaseRun ρ} (h : run.IsRegular sys)
    (hdistinct : run.systems.Nodup) : run.SettlesResults sys := by
  obtain ⟨hmade, happlied, hhandOffs⟩ := results_of_told h.opening
  obtain ⟨hmade', happlied', hhandOffs'⟩ := Application.results h.applications
  obtain ⟨hnone, hids⟩ := Turn.made_ids h.turns
  have hmadeAll : made run.updating = made (run.turns.flatMap Turn.calls) := by
    rw [updating, made_append, hmade, List.nil_append]
  have hhandOffsAll : handOffs run.updating = handOffs (run.turns.flatMap Turn.calls) := by
    rw [updating, handOffs_append, hhandOffs, List.nil_append]
  have hsystems : (run.turns.map (·.visit.id)).Nodup := by
    rw [h.updated]
    exact hdistinct.sublist (List.take_sublist ..)
  refine ⟨⟨?_, hmade', hhandOffs'⟩, ?_, fun hserial => ?_, fun hparallel => ?_, ?_, fun hdone => ?_⟩
  · rw [updating, applied_append, happlied, hnone]
    rfl
  · rw [hmadeAll, hids]
    exact hsystems.sublist run.waiting_sublist
  · have hturns := h.turns
    rw [hserial] at hturns
    obtain ⟨hkept, _, hnoHandOffs⟩ := Turn.results_on_thread hturns
    rw [hmadeAll, hhandOffsAll]
    exact ⟨hkept.symm, hnoHandOffs⟩
  · have hturns := h.turns
    rw [hparallel] at hturns
    obtain ⟨hcopied, _, hcopying⟩ := Turn.results_on_workers hturns
    rw [hmadeAll, hhandOffsAll]
    exact ⟨hcopied, hcopying⟩
  · rw [applying, happlied']
    exact h.applied
  · rw [applying, happlied']
    exact h.finished hdone

/-- What a report says of the results of a phase that is done. -/
structure Counts (sys : System σ ρ ε) (report : PhaseReport) (run : PhaseRun ρ) : Prop where
  phase : report.phase = run.phase
  applied : report.applied = (made run.updating).length
  bytes : report.bytes = ((Call.applied run.applying).map fun kept => sys.byteSize kept.2).sum
  /-- On workers a copy has to be as big as what it is a copy of. -/
  bytes_made : (run.parallel = true → ∀ result host, sys.byteSize (sys.duplicate result host).1 = sys.byteSize result) →
    report.bytes = ((made run.updating).map fun result => sys.byteSize result.2).sum

theorem IsRegular.counts {sys : System σ ρ ε} {run : PhaseRun ρ} (h : run.IsRegular sys) (hdistinct : run.systems.Nodup)
    (hdone : run.IsDone) : Counts sys (run.report sys) run := by
  have hsettles := h.settlesResults hdistinct
  obtain ⟨_, happlied, _⟩ := Application.results h.applications
  have hfinished := hsettles.finished hdone
  have hbytes : (run.report sys).bytes = ((Call.applied run.applying).map fun kept => sys.byteSize kept.2).sum := by
    rw [applying, happlied, List.map_map]
    rfl
  have hwaiting : run.applications.length = run.waiting.length := by rw [← h.finished hdone, List.length_map]
  cases hparallel : run.parallel with
  | false =>
    obtain ⟨hkept, _⟩ := hsettles.serial hparallel
    refine ⟨rfl, ?_, hbytes, fun _ => ?_⟩
    · rw [← hkept]
      exact hwaiting
    · rw [hbytes, hfinished, hkept]
  | true =>
    obtain ⟨hcopied, _⟩ := hsettles.parallel hparallel
    refine ⟨rfl, hwaiting.trans hcopied.length_eq.symm, hbytes, fun hcopies => ?_⟩
    have hsame : List.Forall₂ (fun made kept : Nat × ρ => sys.byteSize made.2 = sys.byteSize kept.2) (made run.updating)
        run.waiting := hcopied.imp fun made kept ⟨_, host, hkept⟩ => by rw [hkept, hcopies hparallel]
    rw [← List.forall₂_map_right_iff, ← List.forall₂_map_left_iff, List.forall₂_eq_eq_eq] at hsame
    rw [hbytes, hfinished, hsame]

end PhaseRun

namespace Engine

end Engine

end Cadence
