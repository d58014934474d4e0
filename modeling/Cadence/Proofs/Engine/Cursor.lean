import Mathlib.Data.List.Iterate
import Cadence.Proofs.Engine.Tale

/-!
The order in which the steps of frames are taken. Whatever is asked for, the steps that are done are those of frames one
after the other; a step that is not the next one is refused, and nothing comes of asking for it.
-/

namespace Cadence

variable {σ ρ ε : Type}

namespace Step

/-- The steps of one frame. -/
def frame : List Step := Phase.all.map phase ++ [endOfFrame]

/-- The steps are those of frames one after the other, of which the last may be unfinished. -/
def FollowFrames (steps : List Step) : Prop := ∃ n, steps <+: (List.replicate n frame).flatten

/-- The step that comes after those that have been taken. -/
def expected (done : List Step) : Step := next^[done.length] (phase .early)

theorem frames_eq_iterate (n : Nat) : (List.replicate n frame).flatten = List.iterate next (phase .early) (4 * n) := by
  induction n with
  | zero => rfl
  | succ n ih =>
    have hframe : frame = List.iterate next (phase .early) 4 := rfl
    have hround : next^[4] (phase .early) = phase .early := rfl
    rw [List.replicate_succ, List.flatten_cons, ih, Nat.mul_succ, Nat.add_comm, List.iterate_add, hframe, hround]

/-- Each step is the one that comes after the step before it. -/
theorem followFrames_iff {steps : List Step} :
    FollowFrames steps ↔ steps = List.iterate next (phase .early) steps.length := by
  constructor
  · rintro ⟨n, hprefix⟩
    have hlength := hprefix.length_le
    rw [frames_eq_iterate] at hprefix hlength
    rw [List.length_iterate] at hlength
    have htake := List.prefix_iff_eq_take.mp hprefix
    rwa [List.take_iterate, Nat.min_eq_left hlength] at htake
  · intro hsteps
    refine ⟨steps.length, ?_⟩
    rw [frames_eq_iterate, List.prefix_iff_eq_take, List.take_iterate, Nat.min_eq_left (by omega)]
    exact hsteps

theorem FollowFrames.append_iff {done : List Step} (h : FollowFrames done) (steps : List Step) :
    FollowFrames (done ++ steps) ↔ steps = List.iterate next (expected done) steps.length := by
  rw [followFrames_iff] at h ⊢
  rw [List.length_append, List.iterate_add, ← h, List.append_cancel_left_eq]
  rfl

/-- Steps one after the other come next if the first of them does. -/
theorem FollowFrames.append_iff_of_head {done steps : List Step} {step : Step} (h : FollowFrames done)
    (hhead : steps.head? = some step) (hsteps : steps = List.iterate next step steps.length) :
    FollowFrames (done ++ steps) ↔ expected done = step := by
  rw [h.append_iff]
  constructor
  · intro hfollows
    cases hlength : steps.length with
    | zero =>
      rw [List.length_eq_zero_iff.mp hlength] at hhead
      cases hhead
    | succ n =>
      rw [hfollows, hlength] at hhead
      exact Option.some.inj hhead
  · rintro rfl
    exact hsteps

theorem FollowFrames.append_expected {done : List Step} (h : FollowFrames done) :
    FollowFrames (done ++ [expected done]) := (h.append_iff _).mpr rfl

theorem expected_append (done steps : List Step) : expected (done ++ steps) = next^[steps.length] (expected done) := by
  unfold expected
  rw [List.length_append, Nat.add_comm, Function.iterate_add_apply]

end Step

namespace Scheduler

variable {s s' : Scheduler σ ρ} {step : Step}

theorem check_eq_ok_iff : s.check step = .ok () ↔ s.closed = false ∧ s.poisoned = false ∧ s.next = step := by
  unfold check
  cases s.closed
  · cases s.poisoned
    · by_cases hnext : s.next = step
      · simp [hnext]
      · simp [hnext]
    · simp
  · simp

/-- A scheduler that runs refuses the steps that are not next. -/
theorem check_of_ne (hclosed : s.closed = false) (hpoisoned : s.poisoned = false) (hnext : s.next ≠ step) :
    s.check step = .error (.outOfOrder s.next step) := by
  unfold check
  rw [hclosed, hpoisoned, if_neg Bool.false_ne_true, if_neg Bool.false_ne_true, if_pos hnext]

theorem check_congr (hclosed : s'.closed = s.closed) (hpoisoned : s'.poisoned = s.poisoned) (hnext : s'.next = s.next) :
    s'.check step = s.check step := by
  unfold check
  rw [hclosed, hpoisoned, hnext]

end Scheduler

namespace Engine

variable {sys : System σ ρ ε} {e e' : Engine σ ρ ε} {step : Step}

/-! ### One step -/

/-- The step may be taken now. -/
def Awaited (step : Step) (e : Engine σ ρ ε) : Prop := e.scheduler.check step = .ok ()

theorem Awaited.congr (h : e.Awaited step) (hclosed : e'.scheduler.closed = e.scheduler.closed)
    (hpoisoned : e'.scheduler.poisoned = e.scheduler.poisoned) (hnext : e'.scheduler.next = e.scheduler.next) :
    e'.Awaited step :=
  (Scheduler.check_congr hclosed hpoisoned hnext).trans h

/-- The step that comes after one that may be taken may be taken once the cursor has moved on. -/
theorem Awaited.advance (h : e.Awaited step) :
    Awaited step.next { e with scheduler := { e.scheduler with next := e.scheduler.next.next } } := by
  obtain ⟨hclosed, hpoisoned, hnext⟩ := Scheduler.check_eq_ok_iff.mp h
  exact Scheduler.check_eq_ok_iff.mpr ⟨hclosed, hpoisoned, congrArg Step.next hnext⟩

/-- As long as a phase is run, it is this phase that may be run. -/
def CursorAt : Stage → Engine σ ρ ε → Prop
  | .updating phase _ _, e => e.Awaited (.phase phase)
  | .applying phase _, e => e.Awaited (.phase phase)
  | _, _ => True

theorem awaited_after (h : e.Awaited step) (phase : Phase) (i : Nat) (world : World) (host : ε)
    (drawn : Array Primitive) (f : Slot σ ρ → Slot σ ρ) : (e.after phase i world host drawn f).Awaited step := by
  refine h.congr ?_ ?_ ?_ <;> rw [scheduler_after]

theorem leaves_deliver_awaited (sys : System σ ρ ε) (h : e.Awaited step) :
    Leaves (fun _ e' => e'.Awaited step) (fun _ e' => e'.scheduler.poisoned = true) (deliver sys e) := by
  refine (leaves_deliver sys e).mono ?_ fun _ _ h => h.2.1
  rintro _ e' ⟨⟨_, _, rfl⟩, _⟩
  exact h.congr rfl rfl rfl

theorem cursor_rule (sys : System σ ρ ε) : PhaseRule sys (CursorAt : Stage → Engine σ ρ ε → Prop) where
  deliver {stage e} h := by
    cases stage with
    | updating phase done failed => exact (leaves_deliver_awaited sys h).mono (fun _ _ h => h) fun _ _ _ => trivial
    | applying phase done => exact (leaves_deliver_awaited sys h).mono (fun _ _ h => h) fun _ _ _ => trivial
    | between => exact (leaves_deliver sys e).mono (fun _ _ _ => trivial) fun _ _ _ => trivial
    | broken => exact (leaves_deliver sys e).mono (fun _ _ _ => trivial) fun _ _ _ => trivial
  begin {phase e} _ hcheck := by
    have hawaited : e.Awaited (.phase phase) := hcheck
    unfold beginPhase
    split
    · exact hawaited.congr rfl rfl rfl
    · exact hawaited
  serial h _ _ _ _ := awaited_after h ..
  serial_error _ _ _ _ _ := trivial
  worker h _ _ _ _ := awaited_after h ..
  worker_error h _ _ _ _ := awaited_after h ..
  join _ := trivial
  turn h _ := h
  skip h _ _ := h
  apply h _ _ _ _ _ := awaited_after h ..
  apply_error _ _ _ _ _ _ := trivial
  finish _ _ := trivial
  abort _ := trivial

/-- A phase that may be run is run to its end, or poisons the scheduler. -/
theorem leaves_runPhase (sys : System σ ρ ε) {phase : Phase} (h : e.Awaited (.phase phase)) (dt : Float32)
    (parallel : Bool) :
    Leaves (fun _ e' => e'.Awaited (Step.phase phase).next) (fun _ e' => e'.scheduler.poisoned = true)
      (runPhase sys e phase dt parallel) := by
  have hcheck : e.scheduler.check (.phase phase) = .ok () := h
  have hbody := (cursor_rule sys).leaves_phaseBody dt parallel trivial hcheck
  rw [runPhase, hcheck]
  dsimp only
  rcases hresult : phaseBody sys phase dt parallel (e.beginPhase phase) with ⟨err | report, e₁⟩
  · exact rfl
  · obtain ⟨_, hawaited, _⟩ := hbody.of_ok hresult
    exact Awaited.advance hawaited

theorem leaves_endFrame (sys : System σ ρ ε) (h : e.Awaited .endOfFrame) :
    Leaves (fun _ e' => e'.Awaited (.phase .early)) (fun _ e' => e'.scheduler.poisoned = true) (endFrame sys e) := by
  have hcheck : e.scheduler.check .endOfFrame = .ok () := h
  have hdelivered := leaves_deliver_awaited sys h
  rw [endFrame, hcheck]
  dsimp only
  rcases hresult : deliver sys e with ⟨err | n, e₁⟩
  · exact rfl
  · exact (Awaited.advance (hdelivered.of_ok hresult)).congr rfl rfl rfl

/-- Phases one after the other, the first of which may be run. -/
theorem leaves_runPhases (sys : System σ ρ ε) {phases : List Phase}
    (hphases : phases.map Step.phase = List.iterate Step.next step phases.length) (h : e.Awaited step) (dt : Float32) :
    Leaves (fun _ e' => e'.Awaited (Step.next^[phases.length] step)) (fun _ e' => e'.scheduler.poisoned = true)
      (runPhases sys e dt phases) := by
  induction phases generalizing e step with
  | nil => exact h
  | cons phase rest ih =>
    obtain ⟨rfl, hrest⟩ := List.cons_eq_cons.mp hphases
    have hphase := leaves_runPhase sys h dt (e.scheduler.settings.parallel.get phase)
    rw [runPhases]
    rcases hresult : runPhase sys e phase dt (e.scheduler.settings.parallel.get phase) with ⟨err | report, e₁⟩
    · exact hphase.of_error hresult
    have hothers := ih hrest (hphase.of_ok hresult)
    dsimp only
    rcases hall : runPhases sys e₁ dt rest with ⟨err | reports, e₂⟩
    · exact hothers.of_error hall
    · exact hothers.of_ok hall

theorem leaves_runFrame (sys : System σ ρ ε) (h : e.Awaited (.phase .early)) (dt : Float32) :
    Leaves (fun _ e' => e'.Awaited (.phase .early)) (fun _ e' => e'.scheduler.poisoned = true)
      (runFrame sys e dt) := by
  have hall : Phase.all.map Step.phase = List.iterate Step.next (.phase .early) Phase.all.length := rfl
  have hphases := leaves_runPhases sys hall h dt
  rw [runFrame]
  rcases hresult : runPhases sys e dt Phase.all with ⟨err | reports, e₁⟩
  · exact hphases.of_error hresult
  have hend := leaves_endFrame sys (hphases.of_ok hresult)
  dsimp only
  rcases hall : endFrame sys e₁ with ⟨err | ⟨presented, flushed⟩, e₂⟩
  · exact hend.of_error hall
  · exact hend.of_ok hall

/-! ### Operations -/

/-- The steps that the operation is asked to take. -/
def Op.steps : Op σ → List Step
  | runPhase phase _ _ => [.phase phase]
  | endFrame => [.endOfFrame]
  | runFrame _ => Step.frame
  | _ => []

/-- The steps that operations have taken, of those that were done. -/
def stepsDone (sys : System σ ρ ε) (e : Engine σ ρ ε) : List (Op σ) → List Step
  | [] => []
  | op :: rest =>
    let r := perform sys e op
    (if r.1.isOk then op.steps else []) ++ stepsDone sys r.2 rest

theorem leaves_answered {α : Type} {f : α → Answer} {done : Engine σ ρ ε → Prop}
    {failed : EngineError → Engine σ ρ ε → Prop} {r : Except EngineError α × Engine σ ρ ε}
    (h : Leaves (fun _ e => done e) failed r) : Leaves (fun _ e => done e) failed (answered f r) := by
  obtain ⟨_ | _, e⟩ := r
  · exact h
  · exact h

/-- The steps that an operation is asked to take come one after the other. -/
theorem Op.steps_eq_iterate {op : Op σ} (hop : op.steps.head? = some step) :
    op.steps = List.iterate Step.next step op.steps.length := by
  cases op <;> cases hop <;> rfl

/-- Steps of which the first may be taken are all taken, or the scheduler is poisoned. -/
theorem leaves_steps (sys : System σ ρ ε) {op : Op σ} (hop : op.steps.head? = some step) (h : e.Awaited step) :
    Leaves (fun _ e' => e'.Awaited (Step.next^[op.steps.length] step)) (fun _ e' => e'.scheduler.poisoned = true)
      (perform sys e op) := by
  cases op with
  | runPhase phase dt parallel =>
    cases hop
    exact leaves_answered (leaves_runPhase sys h dt parallel)
  | endFrame =>
    cases hop
    exact leaves_answered (leaves_endFrame sys h)
  | runFrame dt =>
    cases hop
    exact leaves_answered (leaves_runFrame sys h dt)
  | _ => cases hop

/-- Steps of which the first is refused are not taken, and nothing changes. -/
theorem perform_of_refused {op : Op σ} (hop : op.steps.head? = some step) {err : EngineError}
    (hcheck : e.scheduler.check step = .error err) : perform sys e op = (.error err, e) := by
  cases op with
  | runPhase phase dt parallel =>
    cases hop
    simp only [perform, runPhase, hcheck, answered, Except.map]
  | endFrame =>
    cases hop
    simp only [perform, endFrame, hcheck, answered, Except.map]
  | runFrame dt =>
    cases hop
    simp only [perform, runFrame, runPhases, Phase.all, runPhase, hcheck, answered, Except.map]
  | _ => cases hop

/-- The cursor stands where it stood, and nothing has cured the scheduler of poison; of one that is poisoned nothing is
asked. -/
def Stands (e e' : Engine σ ρ ε) : Prop :=
  e'.scheduler.poisoned = false → e.scheduler.poisoned = false ∧ e'.scheduler.next = e.scheduler.next

theorem stands_of_eq (hpoisoned : e'.scheduler.poisoned = e.scheduler.poisoned)
    (hnext : e'.scheduler.next = e.scheduler.next) : Stands e e' := by
  intro hlive
  exact ⟨hpoisoned.symm.trans hlive, hnext⟩

theorem stands_deliver (sys : System σ ρ ε) (e : Engine σ ρ ε) : Stands e (deliver sys e).2 := by
  refine ((leaves_deliver sys e).mono ?_ ?_).snd
  · rintro _ _ ⟨⟨_, _, rfl⟩, _⟩
    exact stands_of_eq rfl rfl
  · rintro _ e' ⟨_, hpoisoned, _⟩ hlive
    rw [hpoisoned] at hlive
    cases hlive

theorem stands_route (sys : System σ ρ ε) (e : Engine σ ρ ε) (event : Event) : Stands e (route sys e event).2 := by
  refine ((leaves_route sys e event).mono ?_ ?_).snd
  · rintro _ _ ⟨⟨_, _, rfl⟩, _⟩
    exact stands_of_eq rfl rfl
  · rintro _ _ ⟨⟨_, _, rfl⟩, _⟩
    exact stands_of_eq rfl rfl

theorem stands_immediately {α : Type} (sys : System σ ρ ε) (e : Engine σ ρ ε)
    (change : World → Except WorldError α × World) : Stands e (immediately sys e change).2 := by
  unfold immediately
  rcases change e.world with ⟨err | a, world⟩
  · exact stands_of_eq rfl rfl
  · have hdelivered : Stands e (deliver sys { e with world }).2 := stands_deliver sys { e with world }
    dsimp only
    rcases hresult : deliver sys { e with world } with ⟨err | n, e₁⟩ <;> rw [hresult] at hdelivered <;> exact hdelivered

theorem stands_register (sys : System σ ρ ε) (e : Engine σ ρ ε) (phase : Phase) (s : σ) :
    Stands e (register sys e phase s).2 := by
  have hdelivered := stands_deliver sys e
  unfold register
  dsimp only
  split
  · exact stands_of_eq rfl rfl
  split
  · exact stands_of_eq rfl rfl
  split
  · exact stands_of_eq rfl rfl
  rcases hresult : deliver sys e with ⟨err | n, e₁⟩ <;> rw [hresult] at hdelivered
  · exact hdelivered
  dsimp only
  split
  · exact hdelivered
  · split <;> exact hdelivered

theorem stands_shutdown (sys : System σ ρ ε) (e : Engine σ ρ ε) : Stands e (shutdown sys e) := by
  unfold shutdown
  split <;> exact stands_of_eq rfl rfl

/-- What takes no step does not move the cursor. -/
theorem stands_perform (sys : System σ ρ ε) (e : Engine σ ρ ε) {op : Op σ} (hop : op.steps = []) :
    Stands e (perform sys e op).2 := by
  cases op with
  | register phase s => exact stands_register sys e phase s
  | spawn persistent => exact stands_of_eq rfl rfl
  | attach entity c => exact stands_immediately sys e (·.attach entity c)
  | detach handle => exact stands_immediately sys e (·.detach handle)
  | mark entity => exact stands_immediately sys e (·.mark entity)
  | clear persistentToo => exact stands_immediately sys e (·.clear persistentToo)
  | edit change => exact stands_of_eq rfl rfl
  | deliver => exact stands_deliver sys e
  | route event => exact stands_route sys e event
  | shutdown => exact stands_shutdown sys e
  | _ => cases hop

/-! ### Runs -/

/-- The steps that have been taken follow frames, and the cursor stands where they have led. -/
structure Cursor (done : List Step) (e : Engine σ ρ ε) : Prop where
  follows : Step.FollowFrames done
  next : e.scheduler.poisoned = false → e.scheduler.next = Step.expected done

theorem cursor_start (settings : Settings.Scheduling) (screen : Screen) (host : ε) :
    Cursor [] (start settings screen host : Engine σ ρ ε) :=
  ⟨⟨0, List.prefix_rfl⟩, fun _ => rfl⟩

namespace Cursor

variable {done : List Step}

theorem stands (h : Cursor done e) (hstands : Stands e e') : Cursor done e' :=
  ⟨h.follows, fun hlive => (hstands hlive).2.trans (h.next (hstands hlive).1)⟩

/-- What may be taken now is what comes after the steps that have been taken. -/
theorem expected_eq (h : Cursor done e) (hawaited : e.Awaited step) : Step.expected done = step := by
  obtain ⟨_, hlive, hnext⟩ := Scheduler.check_eq_ok_iff.mp hawaited
  exact (h.next hlive).symm.trans hnext

theorem perform (h : Cursor done e) (sys : System σ ρ ε) (op : Op σ) :
    Cursor (done ++ if (Engine.perform sys e op).1.isOk then op.steps else []) (Engine.perform sys e op).2 := by
  cases hop : op.steps.head? with
  | none =>
    have hnone := List.head?_eq_none_iff.mp hop
    rw [hnone, ite_self, List.append_nil]
    exact h.stands (stands_perform sys e hnone)
  | some step =>
    cases hcheck : e.scheduler.check step with
    | error err =>
      rw [perform_of_refused hop hcheck]
      exact ⟨by simpa [Except.isOk, Except.toBool] using h.follows, by simpa [Except.isOk, Except.toBool] using h.next⟩
    | ok _ =>
      have hexpected := h.expected_eq hcheck
      have hleaves := leaves_steps sys hop hcheck
      rcases hresult : Engine.perform sys e op with ⟨err | answer, e'⟩
      · have hpoisoned := hleaves.of_error hresult
        refine ⟨by simpa [Except.isOk, Except.toBool] using h.follows, fun hlive => ?_⟩
        rw [hpoisoned] at hlive
        cases hlive
      · have hawaited := hleaves.of_ok hresult
        rw [← hexpected, ← Step.expected_append] at hawaited
        refine ⟨(h.follows.append_iff_of_head hop (Op.steps_eq_iterate hop)).mpr hexpected, fun _ => ?_⟩
        exact (Scheduler.check_eq_ok_iff.mp hawaited).2.2

theorem run (h : Cursor done e) (sys : System σ ρ ε) (ops : List (Op σ)) :
    Cursor (done ++ stepsDone sys e ops) (Engine.run sys e ops) := by
  induction ops generalizing e done with
  | nil =>
    rw [stepsDone, List.append_nil]
    exact h
  | cons op rest ih =>
    rw [stepsDone, ← List.append_assoc]
    exact ih (h.perform sys op)

end Cursor

open Call

theorem Op.steps_marked (op : Op σ) : op.marked.steps = op.steps := by cases op <;> rfl

/-- The steps that recorded systems take are those that the systems take by themselves. -/
theorem stepsDone_recorded (sys : System σ ρ ε) (e : Recorded σ ρ ε) (ops : List (Op σ)) :
    stepsDone sys.recorded e (ops.map Op.marked) = stepsDone sys (Recorded.erase e) ops := by
  induction ops generalizing e with
  | nil => rfl
  | cons op rest ih =>
    rw [List.map_cons, stepsDone, stepsDone, ih, ← erased_perform, Op.steps_marked]
    rfl

/-- Steps that are next are taken unless somebody fails. -/
theorem exists_calls_of_awaited {e : Recorded σ ρ ε} (he : e.Orderly) (sys : System σ ρ ε) {op : Op σ}
    (hop : op.steps.head? = some step) (hawaited : e.Awaited step) :
    ∃ calls, (perform sys.recorded e op.marked).2.log = e.log ++ calls ∧
      ((∃ answer, (perform sys.recorded e op.marked).1 = .ok answer) ↔ firstFailure? calls = none) := by
  obtain ⟨acts, hperformed⟩ := exists_performed sys he op
  have hmarked : op.marked.steps.head? = some step := by
    rw [Op.steps_marked]
    exact hop
  have hleaves := leaves_steps sys.recorded hmarked hawaited
  refine ⟨acts.flatMap Act.calls, hperformed.tale.story.log, ?_⟩
  rcases hresult : perform sys.recorded e op.marked with ⟨err | answer, e'⟩
  · rw [hresult] at hperformed
    -- a request that is not refused fails only where a system fails
    have hfailed : firstFailure? (acts.flatMap Act.calls) ≠ none := by
      by_contra hclean
      have hlive := hperformed.tale.clean fun phase name fault herr => (hperformed.tale.blames _ _ _ herr).failed hclean
      have hpoisoned : e'.scheduler.poisoned = true := hleaves.of_error hresult
      have hbefore : e.scheduler.poisoned = false := (Scheduler.check_eq_ok_iff.mp hawaited).2.1
      exact Bool.false_ne_true (hbefore.symm.trans (hlive.symm.trans hpoisoned))
    exact ⟨nofun, fun hclean => absurd hclean hfailed⟩
  · rw [hresult] at hperformed
    exact ⟨fun _ => hperformed.tale.done answer rfl, fun _ => ⟨answer, rfl⟩⟩

/-- After every run of operations the steps that were done are those of frames one after the other, the last of which
may be unfinished. As long as nothing has failed and nobody was shut down, a request for steps that come next is
answered, unless a system fails in it; and any other is refused, with the step that comes next and the one that was
asked for: no system is called, and nothing has changed. -/
theorem steps_follow_frames (sys : System σ ρ ε) (settings : Settings.Scheduling) (screen : Screen) (host : ε)
    (ops : List (Op σ)) :
    let e := record sys settings screen host ops
    let done := stepsDone sys (start settings screen host) ops
    Recorded.erase e = run sys (start settings screen host) ops ∧
    Step.FollowFrames done ∧
    (e.scheduler.poisoned = false → e.scheduler.closed = false →
      ∀ (op : Op σ) requested, op.steps.head? = some requested →
        (Step.FollowFrames (done ++ op.steps) →
          ∃ calls, (perform sys.recorded e op.marked).2.log = e.log ++ calls ∧
            ((∃ answer, (perform sys.recorded e op.marked).1 = .ok answer) ↔ firstFailure? calls = none)) ∧
        (¬ Step.FollowFrames (done ++ op.steps) →
          ∃ expected, Step.FollowFrames (done ++ [expected]) ∧
            perform sys.recorded e op.marked = (.error (.outOfOrder expected requested), e))) := by
  intro e done
  have he : e.Orderly := orderly_record sys settings screen host ops
  have hcursor : Cursor done e := by
    have hrun := (cursor_start settings screen (host, [])).run sys.recorded (ops.map Op.marked)
    rw [List.nil_append, stepsDone_recorded] at hrun
    exact hrun
  refine ⟨erase_record sys settings screen host ops, hcursor.follows, fun hlive hopen op requested hop => ?_⟩
  have hnext := hcursor.next hlive
  rw [hcursor.follows.append_iff_of_head hop (Op.steps_eq_iterate hop)]
  refine ⟨fun hrequested => ?_, fun hrequested => ⟨_, hcursor.follows.append_expected, ?_⟩⟩
  · exact exists_calls_of_awaited he sys hop (Scheduler.check_eq_ok_iff.mpr ⟨hopen, hlive, hnext.trans hrequested⟩)
  · have hmarked : op.marked.steps.head? = some requested := by
      rw [Op.steps_marked]
      exact hop
    rw [← hnext] at hrequested ⊢
    exact perform_of_refused hmarked (Scheduler.check_of_ne hopen hlive hrequested)

end Engine

end Cadence
