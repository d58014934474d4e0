import Cadence.Engine.Op
import Cadence.Proofs.Engine.Routing

/-!
An operation that reports the failure of a system leaves a poisoned scheduler behind.
-/

namespace Cadence.Engine

variable {σ ρ ε α β : Type}

/-- If the operation reports that a system has failed, the scheduler is poisoned. -/
def PoisonsOnFailure (r : Except EngineError α × Engine σ ρ ε) : Prop :=
  Leaves (fun _ _ => True)
    (fun err e => (∃ phase name fault, err = .systemFailed phase name fault) → e.scheduler.poisoned = true) r

theorem PoisonsOnFailure.map {r : Except EngineError α × Engine σ ρ ε} (h : PoisonsOnFailure r) (f : α → β) :
    PoisonsOnFailure (r.1.map f, r.2) := by
  obtain ⟨_ | _, e⟩ := r
  · exact h
  · trivial

/-- Refusals are not failures of systems. -/
theorem poisonsOnFailure_check {e : Engine σ ρ ε} {step : Step} {err : EngineError}
    (h : e.scheduler.check step = .error err) : PoisonsOnFailure ((.error err, e) : Except EngineError α × Engine σ ρ ε) := by
  rintro ⟨phase, name, fault, rfl⟩
  rw [Scheduler.check] at h
  split at h
  · cases h
  · split at h
    · assumption
    · split at h <;> cases h

theorem poisonsOnFailure_deliver (sys : System σ ρ ε) (e : Engine σ ρ ε) : PoisonsOnFailure (deliver sys e) :=
  (leaves_deliver sys e).mono (fun _ _ _ => trivial) fun _ _ h _ => h.2.1

theorem poisonsOnFailure_runPhase (sys : System σ ρ ε) (e : Engine σ ρ ε) (phase : Phase) (dt : Float32)
    (parallel : Bool) : PoisonsOnFailure (runPhase sys e phase dt parallel) := by
  rw [runPhase]
  cases hcheck : e.scheduler.check (.phase phase) with
  | error err => exact poisonsOnFailure_check hcheck
  | ok _ =>
    dsimp only
    rcases phaseBody sys phase dt parallel (e.beginPhase phase) with ⟨err | report, e'⟩
    · exact fun _ => rfl
    · trivial

theorem poisonsOnFailure_runPhases (sys : System σ ρ ε) (e : Engine σ ρ ε) (dt : Float32) (phases : List Phase) :
    PoisonsOnFailure (runPhases sys e dt phases) := by
  induction phases generalizing e with
  | nil => trivial
  | cons phase rest ih =>
    have hphase := poisonsOnFailure_runPhase sys e phase dt (e.scheduler.settings.parallel.get phase)
    rw [runPhases]
    rcases hresult : runPhase sys e phase dt (e.scheduler.settings.parallel.get phase) with ⟨err | report, e₁⟩
    · rw [hresult] at hphase
      exact hphase
    · exact (ih e₁).map (report :: ·)

theorem poisonsOnFailure_endFrame (sys : System σ ρ ε) (e : Engine σ ρ ε) : PoisonsOnFailure (endFrame sys e) := by
  rw [endFrame]
  cases hcheck : e.scheduler.check .endOfFrame with
  | error err => exact poisonsOnFailure_check hcheck
  | ok _ =>
    dsimp only
    rcases deliver sys e with ⟨err | n, e₁⟩
    · exact fun _ => rfl
    · trivial

theorem poisonsOnFailure_runFrame (sys : System σ ρ ε) (e : Engine σ ρ ε) (dt : Float32) :
    PoisonsOnFailure (runFrame sys e dt) := by
  have hphases := poisonsOnFailure_runPhases sys e dt Phase.all
  rw [runFrame]
  rcases hresult : runPhases sys e dt Phase.all with ⟨err | reports, e₁⟩
  · rw [hresult] at hphases
    exact hphases
  · have hend := poisonsOnFailure_endFrame sys e₁
    dsimp only
    rcases hresult : endFrame sys e₁ with ⟨err | report, e₂⟩
    · rw [hresult] at hend
      exact hend
    · trivial

theorem poisonsOnFailure_immediately (sys : System σ ρ ε) (e : Engine σ ρ ε)
    (op : World → Except WorldError α × World) : PoisonsOnFailure (immediately sys e op) := by
  rw [immediately]
  rcases op e.world with ⟨err | a, world⟩
  · rintro ⟨_, _, _, ⟨⟩⟩
  · have hdeliver := poisonsOnFailure_deliver sys { e with world }
    dsimp only
    rcases hresult : deliver sys { e with world } with ⟨err | n, e₁⟩
    · rw [hresult] at hdeliver
      exact hdeliver
    · trivial

theorem poisonsOnFailure_register (sys : System σ ρ ε) (e : Engine σ ρ ε) (phase : Phase) (s : σ) :
    PoisonsOnFailure (register sys e phase s) := by
  have hdeliver := poisonsOnFailure_deliver sys e
  rw [register]
  dsimp only
  split
  · rintro ⟨_, _, _, ⟨⟩⟩
  split
  · rintro ⟨_, _, _, ⟨⟩⟩
  split
  · rintro ⟨_, _, _, ⟨⟩⟩
  rcases hresult : deliver sys e with ⟨err | n, e₁⟩
  · rw [hresult] at hdeliver
    exact hdeliver
  dsimp only
  split
  · rintro ⟨_, _, _, ⟨⟩⟩
  · split
    · rintro ⟨_, _, _, ⟨⟩⟩
    · trivial

theorem poisonsOnFailure_perform (sys : System σ ρ ε) (e : Engine σ ρ ε) {op : Op σ} (hop : ∀ event, op ≠ .route event) :
    PoisonsOnFailure (perform sys e op) := by
  cases op with
  | register phase s => exact (poisonsOnFailure_register sys e phase s).map _
  | spawn persistent => trivial
  | attach entity c => exact (poisonsOnFailure_immediately sys e _).map _
  | detach handle => exact (poisonsOnFailure_immediately sys e _).map _
  | mark entity => exact (poisonsOnFailure_immediately sys e _).map _
  | clear persistentToo => exact (poisonsOnFailure_immediately sys e _).map _
  | edit change => trivial
  | runPhase phase dt parallel => exact (poisonsOnFailure_runPhase sys e phase dt parallel).map _
  | endFrame => exact (poisonsOnFailure_endFrame sys e).map _
  | runFrame dt => exact (poisonsOnFailure_runFrame sys e dt).map _
  | deliver => exact (poisonsOnFailure_deliver sys e).map _
  | route event => exact absurd rfl (hop event)
  | shutdown => trivial

end Cadence.Engine
