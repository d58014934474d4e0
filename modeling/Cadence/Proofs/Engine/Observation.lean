import Cadence.Proofs.Engine.Parallel
import Cadence.Proofs.System.Catalogs

/-!
What is seen of a run does not tell whether phases were updated on workers: not the answers of the operations, but for
the flag in a report, nor the worlds and the presented lists they leave, up to the first error.
-/

namespace Cadence.Engine

variable {σ ρ ε : Type}

def Answer.sequential : Answer → Answer
  | phase report => phase report.sequential
  | frame report => frame report.sequential
  | answer => answer

/-- The operation with the flag of its phase down. -/
def Op.sequential : Op σ → Op σ
  | runPhase phase dt _ => runPhase phase dt false
  | op => op

/-- What is seen of an operation: its answer, and the world and the presented list that it leaves. -/
structure Observation where
  answer : Except EngineError Answer
  world : World
  presented : DrawList

/-- What is seen of a run up to its first error, but for how the updates are made. -/
def observe (sys : System σ ρ ε) (e : Engine σ ρ ε) : List (Op σ) → List Observation
  | [] => []
  | op :: rest =>
    match perform sys e op with
    | (.error err, e) => [⟨.error err, e.world, e.screen.presentable⟩]
    | (.ok answer, e) => ⟨.ok answer.sequential, e.world, e.screen.presentable⟩ :: observe sys e rest

section runs

variable [Setoid ε] {sys : System σ ρ ε} {P : σ → Prop}

theorem agree_report {α : Type} {f : α → Answer} {g : α → α} (hf : ∀ a, (f a).sequential = f (g a))
    {r r' : Except EngineError α × Engine σ ρ ε} (h : Agree Alike LooksLike (answering g r) (answering g r')) :
    Agree Alike LooksLike (answering Answer.sequential (answered f r)) (answering Answer.sequential (answered f r')) := by
  obtain ⟨a, a', e, e', rfl, rfl, heq, h'⟩ | ⟨err, e, e', rfl, rfl, h'⟩ := cases_answering h <;>
    unfold answered answering <;> dsimp only [Except.map]
  · rw [hf, hf, heq]
    exact .ok h'
  · exact .error h'

theorem agree_answered {α : Type} {r r' : Except EngineError α × Engine σ ρ ε} (h : Agree Alike Alike r r')
    (f : α → Answer) :
    Agree Alike LooksLike (answering Answer.sequential (answered f r)) (answering Answer.sequential (answered f r')) := by
  have hlooks : Agree Alike LooksLike r r' := h.mono (fun _ _ h => h) fun _ _ h => h.looksLike
  exact (hlooks.map f).map Answer.sequential

/-- An operation comes out the same on engines that nobody tells apart, whatever their settings say. -/
theorem agree_perform (hsys : Respects sys) (hP : Parallelizable sys P) (op : Op σ) {e e' : Engine σ ρ ε}
    (h : e.Alike e') (hplaced : e.Placed fun _ => P) :
    Agree Alike LooksLike (answering Answer.sequential (perform sys e op))
      (answering Answer.sequential (perform sys e' op.sequential)) := by
  have hworld := h.world
  cases op with
  | register phase s => exact agree_answered (agree_register hsys phase s h) .registered
  | spawn persistent =>
    obtain ⟨settings, host, rfl, hhost⟩ := h
    exact .ok ⟨settings, host, rfl, hhost⟩
  | attach entity c => exact agree_answered (agree_immediately hsys (·.attach entity c) h) .handle
  | detach handle => exact agree_answered (agree_immediately hsys (·.detach handle) h) .flag
  | mark entity => exact agree_answered (agree_immediately hsys (·.mark entity) h) .flag
  | clear persistentToo => exact agree_answered (agree_immediately hsys (·.clear persistentToo) h) .count
  | edit change =>
    obtain ⟨settings, host, rfl, hhost⟩ := h
    exact .ok ⟨settings, host, rfl, hhost⟩
  | runPhase phase dt parallel =>
    have hphase := agree_runPhase hsys hP phase dt parallel false h fun phase' slot hmem _ => hplaced phase' slot hmem
    exact agree_report (f := .phase) (fun _ => rfl) hphase
  | endFrame => exact agree_answered (agree_endFrame hsys h) _
  | runFrame dt => exact agree_report (f := .frame) (fun _ => rfl) (agree_runFrame hsys hP dt h hplaced)
  | deliver => exact agree_answered (agree_deliver hsys h) .count
  | route event => exact agree_answered (agree_route hsys event h) fun _ => .nothing
  | shutdown => exact .ok (h.shutdown hsys)

theorem observe_sequential (hsys : Respects sys) (hP : Parallelizable sys P) (ops : List (Op σ)) {e e' : Engine σ ρ ε}
    (h : e.Alike e') (hplaced : e.Placed fun _ => P) (hops : ∀ phase s, .register phase s ∈ ops → P s) :
    observe sys e ops = observe sys e' (ops.map Op.sequential) := by
  induction ops generalizing e e' with
  | nil => rfl
  | cons op rest ih =>
    have hfirst : ∀ phase s, op = .register phase s → P s := fun phase s heq => hops phase s (by simp [heq])
    have hleft := placed_perform (fun _ => hP.stable) hplaced hfirst
    rw [List.map_cons]
    unfold observe
    obtain ⟨answer, answer', e₁, e₁', hr, hr', hanswer, h₁⟩ | ⟨err, e₁, e₁', hr, hr', h₁⟩ :=
      cases_answering (agree_perform hsys hP op h hplaced) <;> rw [hr, hr'] <;> rw [hr] at hleft
    · have hlooks := h₁.looksLike
      dsimp only
      rw [hanswer, hlooks.world, hlooks.presentable,
        ih h₁ hleft fun phase s hmem => hops phase s (by simp [hmem])]
    · dsimp only
      rw [h₁.world, h₁.presentable]

/-- Phases come out the same on workers and on the thread of the scheduler: the same report or the same error, the same
world and place in the frame, and, if they are done, the same systems and screen. So no choice of flags, by the settings
or by the operations, is seen in a run. -/
theorem parallel_agrees_with_serial (hsys : Respects sys) (hP : Parallelizable sys P) :
    (∀ (e : Engine σ ρ ε) phase dt, (∀ slot ∈ e.scheduler.slots.get phase, P slot.system) →
      let r := runPhase sys e phase dt true
      let r' := runPhase sys e phase dt false
      r.1.map PhaseReport.sequential = r'.1.map PhaseReport.sequential ∧ r.2.LooksLike r'.2 ∧
        ∀ report, r.1 = .ok report →
          r.2.scheduler.slots = r'.2.scheduler.slots ∧ r.2.screen = r'.2.screen ∧ r.2.host ≈ r'.2.host) ∧
    ∀ (e e' : Engine σ ρ ε) ops ops', e.Alike e' → (∀ phase, ∀ slot ∈ e.scheduler.slots.get phase, P slot.system) →
      (∀ phase s, .register phase s ∈ ops → P s) → ops.map Op.sequential = ops'.map Op.sequential →
      observe sys e ops = observe sys e' ops' := by
  constructor
  · intro e phase dt hplaced r r'
    have hwithin : e.Placed (Within phase P) := by
      rintro phase' slot hmem rfl
      exact hplaced slot hmem
    obtain ⟨report, report', e₁, e₁', hr, hr', hreport, h₁⟩ | ⟨err, e₁, e₁', hr, hr', h₁⟩ :=
      cases_answering (agree_runPhase hsys hP phase dt true false (.refl e) hwithin)
    · have hleft : r = (.ok report, e₁) := hr
      have hright : r' = (.ok report', e₁') := hr'
      rw [hleft, hright]
      refine ⟨congrArg Except.ok hreport, h₁.looksLike, fun _ _ => ⟨h₁.slots.symm, ?_, h₁.host⟩⟩
      obtain ⟨_, _, rfl, _⟩ := h₁
      rfl
    · have hleft : r = (.error err, e₁) := hr
      have hright : r' = (.error err, e₁') := hr'
      rw [hleft, hright]
      refine ⟨rfl, h₁, ?_⟩
      rintro report ⟨⟩
  · intro e e' ops ops' h hplaced hops hsame
    have hplaced' : e'.Placed fun _ => P := Placed.congr hplaced h.slots
    have hops' : ∀ phase s, .register phase s ∈ ops' → P s := by
      intro phase s hmem
      have hin : (.register phase s : Op σ) ∈ ops.map Op.sequential := by
        rw [hsame]
        exact List.mem_map.mpr ⟨_, hmem, rfl⟩
      obtain ⟨op, hop, heq⟩ := List.mem_map.mp hin
      cases op <;> cases heq
      exact hops phase s hop
    rw [observe_sequential hsys hP ops (.refl e) hplaced hops, hsame]
    exact (observe_sequential hsys hP ops' h.symm hplaced' hops').symm

end runs

end Cadence.Engine

namespace Cadence

/-! ### The systems of this library -/

theorem BuiltIn.parallelizable {τ ε : Type} (I : Interpreter τ ε) :
    @Parallelizable (BuiltIn τ) BuiltIn.Result ε (identicalHosts ε) (BuiltIn.system I) fun _ => True := by
  let _ := identicalHosts ε
  refine ⟨.const _ True, ?_, ?_, ?_⟩
  · rintro ctx dt (m | b | p | s) host _ <;> rfl
  · rintro ctx dt (m | b | p | s) host _ <;> exact ⟨_, rfl, rfl⟩
  · rintro ctx dt s host (r | r | r | r) _ _ host' <;> exact ⟨rfl, rfl⟩

namespace Engine

/-- An entity is moved, in a frame and then in a phase. -/
def moving (parallel : Bool) : List (Op (BuiltIn Unit)) :=
  [.register .early (.inl {}), .spawn false, .attach ⟨0, 0⟩ ⟨.transform, {}⟩, .attach ⟨0, 0⟩ ⟨.velocity, ⟨1, 0⟩⟩,
    .runFrame 1, .runPhase .early 1 parallel]

theorem moving_on_workers_or_not :
    let sys := BuiltIn.system .idle
    let e := run sys (start {} {} ()) (moving true)
    (runPhase sys e .script 1 true).2.LooksLike (runPhase sys e .script 1 false).2 ∧
      observe sys (start { parallel := .const true } {} ()) (moving true) =
        observe sys (start { parallel := .const false } {} ()) (moving false) := by
  intro sys e
  have hagrees := @parallel_agrees_with_serial _ _ Unit (identicalHosts Unit) sys (fun _ => True)
    (respects_identicalHosts _) (BuiltIn.parallelizable .idle)
  refine ⟨(hagrees.1 e .script 1 fun _ _ => trivial).2.1, ?_⟩
  refine hagrees.2 _ _ (moving true) (moving false) ⟨_, (), rfl, rfl⟩ ?_ ?_ rfl
  · exact fun _ _ _ => trivial
  · exact fun _ _ _ => trivial

end Engine

end Cadence
