import Cadence.Proofs.Engine.Alike
import Cadence.Proofs.Engine.Stable

/-!
Phases on workers come out as phases on the thread of the scheduler. The two rounds of updates are followed step by step:
as long as no update has failed they leave engines that nobody tells apart, because the serial round has nothing to
route in between; after the first failure the workers go on, but only to change what a broken phase drops.
-/

namespace Cadence

variable {σ ρ ε : Type}

namespace Engine

/-- What is left of an engine once a phase has failed: the same world, place in the frame and presented list. -/
structure LooksLike (e e' : Engine σ ρ ε) : Prop where
  world : e.world = e'.world
  next : e.scheduler.next = e'.scheduler.next
  frame : e.scheduler.frame = e'.scheduler.frame
  poisoned : e.scheduler.poisoned = e'.scheduler.poisoned
  presentable : e.screen.presentable = e'.screen.presentable

namespace LooksLike

variable {e e' e'' : Engine σ ρ ε}

theorem symm (h : e.LooksLike e') : e'.LooksLike e :=
  ⟨h.world.symm, h.next.symm, h.frame.symm, h.poisoned.symm, h.presentable.symm⟩

theorem trans (h : e.LooksLike e') (h' : e'.LooksLike e'') : e.LooksLike e'' :=
  ⟨h.world.trans h'.world, h.next.trans h'.next, h.frame.trans h'.frame, h.poisoned.trans h'.poisoned,
    h.presentable.trans h'.presentable⟩

theorem abort (h : e.LooksLike e') (phase : Phase) : (e.abort phase).LooksLike (e'.abort phase) :=
  ⟨h.world, h.next, h.frame, rfl, h.presentable⟩

end LooksLike

/-- Drawing does not touch the presented list. -/
theorem presentable_draw (e : Engine σ ρ ε) (phase : Phase) (drawn : Array Primitive) :
    (e.draw phase drawn).screen.presentable = e.screen.presentable := by
  rw [draw]
  split
  · unfold Screen.presentable Screen.submitAll
    rw [Screen.drawn_modifyList, Screen.list_modifyList_other]
  · rfl

/-- A worker changes nothing that is left of a phase that has failed. -/
theorem LooksLike.after {e e' : Engine σ ρ ε} (h : e.LooksLike e') (phase : Phase) (i : Nat) (host : ε)
    (drawn : Array Primitive) (f : Slot σ ρ → Slot σ ρ) : e.LooksLike (e'.after phase i e'.world host drawn f) := by
  have hpresentable := presentable_draw { e' with host } phase drawn
  have hscheduler := scheduler_draw { e' with host } phase drawn
  refine ⟨?_, ?_, ?_, ?_, ?_⟩
  · rw [world_after]
    exact h.world
  · exact h.next.trans (congrArg Scheduler.next hscheduler).symm
  · exact h.frame.trans (congrArg Scheduler.frame hscheduler).symm
  · exact h.poisoned.trans (congrArg Scheduler.poisoned hscheduler).symm
  · exact h.presentable.trans hpresentable.symm

theorem deliver_of_empty (sys : System σ ρ ε) {e : Engine σ ρ ε} (hevents : e.world.events = #[]) :
    deliver sys e = (.ok 0, e) := by
  have hworld : e.world.drain.2 = e.world := by
    show { e.world with events := #[] } = e.world
    rw [← hevents]
  rw [deliver_eq, hworld, hevents]
  rfl

end Engine

/-! ### Systems that can be updated on workers -/

section updates

variable [Setoid ε]

/-- Systems in `P` can be updated on workers: they write nothing in a serial update, do not ask where they run, and a
copy of a result is as good as the result, whose release nobody notices. -/
structure Parallelizable (sys : System σ ρ ε) (P : σ → Prop) : Prop where
  stable : Stable sys P
  updateSerial : ∀ (ctx : Context) (dt s host), P s →
    sys.updateSerial ctx dt s host = { sys.update ctx dt s host with world := ctx.world }
  update : ∀ (ctx : Context) (dt s host), P s →
    (sys.update { ctx with parallel := false } dt s host).Alike (sys.update { ctx with parallel := true } dt s host)
  duplicate : ∀ (ctx : Context) (dt s host result), P s → (sys.update ctx dt s host).outcome = .ok (some result) →
    ∀ host', (sys.duplicate result host').1 = result ∧ host' ≈ sys.release result (sys.duplicate result host').2

theorem Parallelizable.handOff {sys : System σ ρ ε} {P : σ → Prop} (hP : Parallelizable sys P) {ctx : Context}
    {dt : Float32} {s : σ} {host : ε} {result : Option ρ} (hs : P s)
    (hresult : (sys.update ctx dt s host).outcome = .ok result) (host' : ε) :
    (sys.handOff result host').1 = result ∧ host' ≈ (sys.handOff result host').2 := by
  cases result with
  | none => exact ⟨rfl, Setoid.refl host'⟩
  | some result =>
    obtain ⟨hcopy, hhost⟩ := hP.duplicate ctx dt s host result hs hresult host'
    exact ⟨congrArg some hcopy, hhost⟩

namespace Engine

theorem Alike.looksLike {e e' : Engine σ ρ ε} (h : e.Alike e') : e.LooksLike e' := by
  obtain ⟨_, _, rfl, _⟩ := h
  exact ⟨rfl, rfl, rfl, rfl, rfl⟩

variable {sys : System σ ρ ε} {P : σ → Prop}

/-- What holds of the systems of one phase. -/
def Within (phase : Phase) (P : σ → Prop) (phase' : Phase) (s : σ) : Prop := phase' = phase → P s

/-- What the first updates of a phase have come to, on the thread of the scheduler and on workers. -/
inductive Coupled (phase : Phase) (P : σ → Prop) :
    Except EngineError Unit × Engine σ ρ ε → Option EngineError × Engine σ ρ ε → Prop
  | running {e e' : Engine σ ρ ε} (h : e.Alike e') (hevents : e.world.events = #[])
      (hplaced : e.Placed (Within phase P)) : Coupled phase P (.ok (), e) (none, e')
  | failed {err : EngineError} {e e' : Engine σ ρ ε} (h : e.LooksLike e') : Coupled phase P (.error err, e) (some err, e')

theorem LooksLike.updateParallel {err : EngineError} {e e' : Engine σ ρ ε} (h : e.LooksLike e') (phase : Phase)
    (dt : Float32) (i : Nat) :
    Coupled phase P (.error err, e) (Engine.updateParallel sys phase dt (some err, e') i) := by
  cases hslot : e'.slotAt? phase i with
  | none =>
    rw [Engine.updateParallel]
    dsimp only
    rw [hslot]
    exact .failed h
  | some slot =>
    rw [updateParallel_eq hslot]
    dsimp only
    cases houtcome : (sys.update (e'.context phase true) dt slot.system e'.host).outcome with
    | error fault => exact .failed (h.after phase i _ _ _)
    | ok result => exact .failed (h.after phase i _ _ _)

theorem Alike.updateParallel (hsys : Respects sys) (hP : Parallelizable sys P) {phase : Phase} {e e' : Engine σ ρ ε}
    (h : e.Alike e') (hevents : e.world.events = #[]) (hplaced : e.Placed (Within phase P)) (dt : Float32) (i : Nat) :
    Coupled phase P (updateSerial sys phase dt e i) (Engine.updateParallel sys phase dt (none, e') i) := by
  cases hslot : e.slotAt? phase i with
  | none =>
    have hslot' := (h.slotAt? phase i).trans hslot
    unfold Engine.updateSerial Engine.updateParallel
    dsimp only
    rw [hslot, hslot']
    exact .running h hevents hplaced
  | some slot =>
    have hslot' := (h.slotAt? phase i).trans hslot
    have hs : P slot.system := hplaced.slot hslot rfl
    rw [updateSerial_eq hslot, updateParallel_eq hslot', h.context, h.world,
      hP.updateSerial (e.context phase false) dt slot.system e.host hs]
    -- the update on the worker compared with the one here: it runs elsewhere, on a host that is only alike
    obtain ⟨host₁, hreply, h₁⟩ : (sys.update (e.context phase false) dt slot.system e.host).Alike
        (sys.update (e.context phase true) dt slot.system e'.host) :=
      .trans (hP.update (e.context phase true) dt slot.system e.host hs) (hsys.update _ dt slot.system h.host)
    have hhandOff : ∀ result, (sys.update (e.context phase false) dt slot.system e.host).outcome = .ok result →
        (sys.handOff result host₁).1 = result ∧ host₁ ≈ (sys.handOff result host₁).2 :=
      fun _ hresult => hP.handOff hs hresult host₁
    have hsystem : P (sys.update (e.context phase false) dt slot.system e.host).system := hP.stable.update hs
    rw [hreply]
    generalize sys.update (e.context phase false) dt slot.system e.host = reply at h₁ hhandOff hsystem ⊢
    dsimp only
    cases houtcome : reply.outcome with
    | error fault => exact .failed (h.after phase i _ _ _ h₁).looksLike
    | ok result =>
      obtain ⟨hcopy, h₂⟩ := hhandOff result houtcome
      -- the update has not touched the world, so that the serial path has nothing to deliver after it
      have hempty : (e.after phase i e.world reply.host reply.drawn
          ({ · with system := reply.system, pending := result })).world.events = #[] := by
        rw [world_after]
        exact hevents
      have hworld : (e.context phase false).world = e.world := rfl
      dsimp only
      rw [hcopy, hworld, deliver_of_empty sys hempty]
      exact .running (h.after phase i _ _ _ (Setoid.trans h₁ h₂)) hempty (hplaced.after hslot fun _ => hsystem)

theorem coupled_updates (hsys : Respects sys) (hP : Parallelizable sys P) {phase : Phase} {e e' : Engine σ ρ ε}
    (h : e.Alike e') (hevents : e.world.events = #[]) (hplaced : e.Placed (Within phase P)) (dt : Float32) (n : Nat) :
    Coupled phase P (inOrder (updateSerial sys phase dt) e (List.range n))
      ((List.range n).foldl (updateParallel sys phase dt) (none, e')) := by
  induction n with
  | zero => exact .running h hevents hplaced
  | succ n ih =>
    rw [inOrder_range_succ, List.range_succ, List.foldl_append]
    generalize inOrder (updateSerial sys phase dt) e (List.range n) = r at ih ⊢
    generalize (List.range n).foldl (updateParallel sys phase dt) (none, e') = state at ih ⊢
    cases ih with
    | running h hevents hplaced => exact h.updateParallel hsys hP hevents hplaced dt n
    | failed h => exact h.updateParallel phase dt n

theorem agree_updateSerials (hsys : Respects sys) (phase : Phase) (dt : Float32) {e e' : Engine σ ρ ε} (h : e.Alike e') :
    Agree Alike LooksLike (updateAll sys phase dt false e) (updateAll sys phase dt false e') := by
  have hserial := agree_inOrder (fun _ _ i h => agree_updateSerial hsys phase dt i h)
    (List.range (e.scheduler.slots.get phase).length) h
  unfold updateAll
  rw [h.slots]
  exact hserial.mono (fun _ _ h => h) fun _ _ h => h.looksLike

theorem agree_updateParallels (hsys : Respects sys) (hP : Parallelizable sys P) (phase : Phase) (dt : Float32)
    {e e' : Engine σ ρ ε} (h : e.Alike e') (hevents : e.world.events = #[]) (hplaced : e.Placed (Within phase P)) :
    Agree Alike LooksLike (updateAll sys phase dt false e) (updateAll sys phase dt true e') := by
  have hcoupled := coupled_updates hsys hP h hevents hplaced dt (e.scheduler.slots.get phase).length
  unfold updateAll
  rw [h.slots]
  dsimp only
  rw [if_pos rfl, if_neg Bool.false_ne_true]
  generalize inOrder (updateSerial sys phase dt) e (List.range (e.scheduler.slots.get phase).length) = r at hcoupled ⊢
  generalize (List.range (e.scheduler.slots.get phase).length).foldl (updateParallel sys phase dt) (none, e') = state
    at hcoupled ⊢
  cases hcoupled with
  | running h => exact .ok h
  | failed h => exact .error h

/-- However the updates of a phase are made, they come out the same. -/
theorem agree_updateAll (hsys : Respects sys) (hP : Parallelizable sys P) (phase : Phase) (dt : Float32)
    (parallel : Bool) {e e' : Engine σ ρ ε} (h : e.Alike e') (hevents : e.world.events = #[])
    (hplaced : e.Placed (Within phase P)) :
    Agree Alike LooksLike (updateAll sys phase dt false e) (updateAll sys phase dt parallel e') := by
  cases parallel with
  | false => exact agree_updateSerials hsys phase dt h
  | true => exact agree_updateParallels hsys hP phase dt h hevents hplaced

/-! ### Phases -/

theorem agree_applyAll (hsys : Respects sys) (phase : Phase) {e e' : Engine σ ρ ε} (h : e.Alike e') :
    Agree Applied.Alike Applied.Alike (applyAll sys phase e) (applyAll sys phase e') := by
  have hstart : Applied.Alike { engine := e } { engine := e' } := ⟨h, rfl, rfl⟩
  unfold applyAll
  rw [h.slots]
  exact agree_inOrder (fun _ _ i h => agree_applyResult hsys phase i h) _ hstart

end Engine

end updates

/-- A report that does not tell how the updates were made. -/
def PhaseReport.sequential (report : PhaseReport) : PhaseReport := { report with parallel := false }

def FrameReport.sequential (report : FrameReport) : FrameReport :=
  { report with phases := report.phases.map PhaseReport.sequential }

namespace Engine

/-- Forgets a part of the answer. -/
def answering {α β : Type} (f : α → β) (r : Except EngineError α × Engine σ ρ ε) :
    Except EngineError β × Engine σ ρ ε := (r.1.map f, r.2)

theorem cases_answering {α β : Type} {f : α → β} {done failed : Engine σ ρ ε → Engine σ ρ ε → Prop}
    {r r' : Except EngineError α × Engine σ ρ ε} (h : Agree done failed (answering f r) (answering f r')) :
    (∃ a a' e e', r = (.ok a, e) ∧ r' = (.ok a', e') ∧ f a = f a' ∧ done e e') ∨
      ∃ err e e', r = (.error err, e) ∧ r' = (.error err, e') ∧ failed e e' := by
  obtain ⟨err | a, e⟩ := r <;> obtain ⟨err' | a', e'⟩ := r' <;>
    obtain ⟨_, _, _, hr, hr', h⟩ | ⟨_, _, _, hr, hr', h⟩ := h.cases <;> cases hr
  · cases hr'
    exact .inr ⟨err, e, e', rfl, rfl, h⟩
  · cases hr'
  · cases hr'
  · obtain ⟨heq, rfl⟩ := Prod.mk.inj hr'
    exact .inl ⟨a, a', e, e', rfl, rfl, (Except.ok.inj heq).symm, h⟩

section phases

variable [Setoid ε] {sys : System σ ρ ε} {P : σ → Prop}

theorem agree_phaseBody (hsys : Respects sys) (hP : Parallelizable sys P) (phase : Phase) (dt : Float32)
    (parallel : Bool) {e e' : Engine σ ρ ε} (h : e.Alike e') (hplaced : e.Placed (Within phase P)) :
    Agree Alike LooksLike (answering PhaseReport.sequential (phaseBody sys phase dt false e))
      (answering PhaseReport.sequential (phaseBody sys phase dt parallel e')) := by
  have hstable : ∀ phase', Stable sys (Within phase P phase') := fun phase' => hP.stable.within (phase' = phase)
  have hstart := hplaced.deliver fun phase' => (hstable phase').attentive
  have hdeliver := leaves_deliver sys e
  unfold phaseBody answering
  obtain ⟨_, e₁, e₁', hr, hr', h₁⟩ | ⟨err, e₁, e₁', hr, hr', h₁⟩ := (agree_deliver hsys h).cases <;>
    rw [hr, hr'] <;> rw [hr] at hstart hdeliver
  · have hevents : e₁.world.events = #[] := by
      rw [hdeliver.1.world]
      rfl
    have hupdates := agree_updateAll hsys hP phase dt parallel h₁ hevents hstart
    dsimp only
    obtain ⟨_, e₂, e₂', hr, hr', h₂⟩ | ⟨err, e₂, e₂', hr, hr', h₂⟩ := hupdates.cases <;> rw [hr, hr']
    · dsimp only
      obtain ⟨_, a, a', hr, hr', ha⟩ | ⟨err, a, a', hr, hr', ha⟩ := (agree_applyAll hsys phase h₂).cases <;> rw [hr, hr']
      · obtain ⟨hengine, hcount, hbytes⟩ := ha
        dsimp only
        rw [h₁.slots, hcount, hbytes]
        exact .ok hengine
      · exact .error ha.1.looksLike
    · exact .error h₂
  · exact .error h₁.looksLike

theorem Alike.beginPhase {e e' : Engine σ ρ ε} (h : e.Alike e') (phase : Phase) :
    (e.beginPhase phase).Alike (e'.beginPhase phase) := by
  obtain ⟨settings, host, rfl, hhost⟩ := h
  unfold Engine.beginPhase
  split <;> exact ⟨settings, host, rfl, hhost⟩

theorem agree_runPhase_serial (hsys : Respects sys) (hP : Parallelizable sys P) (phase : Phase) (dt : Float32)
    (parallel : Bool) {e e' : Engine σ ρ ε} (h : e.Alike e') (hplaced : e.Placed (Within phase P)) :
    Agree Alike LooksLike (answering PhaseReport.sequential (runPhase sys e phase dt false))
      (answering PhaseReport.sequential (runPhase sys e' phase dt parallel)) := by
  unfold runPhase
  rw [h.check]
  cases e.scheduler.check (.phase phase) with
  | error err => exact .error h.looksLike
  | ok _ =>
    have hslots : (e.beginPhase phase).scheduler.slots = e.scheduler.slots := by
      rw [beginPhase]
      split <;> rfl
    have hbody := agree_phaseBody hsys hP phase dt parallel (h.beginPhase phase) (hplaced.congr hslots)
    dsimp only
    obtain ⟨report, report', e₁, e₁', hr, hr', hreport, h₁⟩ | ⟨err, e₁, e₁', hr, hr', h₁⟩ := cases_answering hbody <;>
      rw [hr, hr']
    · obtain ⟨settings, host, rfl, hhost⟩ := h₁
      rw [answering]
      dsimp only [Except.map]
      rw [hreport]
      exact .ok ⟨settings, host, rfl, hhost⟩
    · exact .error (h₁.abort phase)

/-- A phase comes out the same whichever way its updates are made. -/
theorem agree_runPhase (hsys : Respects sys) (hP : Parallelizable sys P) (phase : Phase) (dt : Float32)
    (parallel parallel' : Bool) {e e' : Engine σ ρ ε} (h : e.Alike e') (hplaced : e.Placed (Within phase P)) :
    Agree Alike LooksLike (answering PhaseReport.sequential (runPhase sys e phase dt parallel))
      (answering PhaseReport.sequential (runPhase sys e' phase dt parallel')) := by
  -- both are compared with the serial phase
  have hleft := agree_runPhase_serial hsys hP phase dt parallel (.refl e) hplaced
  have hright := agree_runPhase_serial hsys hP phase dt parallel' h hplaced
  refine (hleft.symm (fun _ _ => Alike.symm) fun _ _ => LooksLike.symm).trans hright ?_ ?_
  · exact fun _ _ _ => Alike.trans
  · exact fun _ _ _ => LooksLike.trans

/-! ### Frames -/

theorem agree_runPhases (hsys : Respects sys) (hP : Parallelizable sys P) (dt : Float32) (phases : List Phase)
    {e e' : Engine σ ρ ε} (h : e.Alike e') (hplaced : e.Placed fun _ => P) :
    Agree Alike LooksLike (answering (·.map PhaseReport.sequential) (runPhases sys e dt phases))
      (answering (·.map PhaseReport.sequential) (runPhases sys e' dt phases)) := by
  induction phases generalizing e e' with
  | nil => exact .ok h
  | cons phase rest ih =>
    have hphase := agree_runPhase hsys hP phase dt (e.scheduler.settings.parallel.get phase)
      (e'.scheduler.settings.parallel.get phase) h fun phase' slot hmem _ => hplaced phase' slot hmem
    have hleft := (placed_rule fun _ => hP.stable).between_runPhase hplaced phase dt
      (e.scheduler.settings.parallel.get phase)
    unfold runPhases
    obtain ⟨report, report', e₁, e₁', hr, hr', hreport, h₁⟩ | ⟨err, e₁, e₁', hr, hr', h₁⟩ := cases_answering hphase <;>
      rw [hr, hr'] <;> rw [hr] at hleft
    · dsimp only
      obtain ⟨reports, reports', e₂, e₂', hr, hr', hreports, h₂⟩ | ⟨err, e₂, e₂', hr, hr', h₂⟩ :=
        cases_answering (ih h₁ hleft) <;> rw [hr, hr'] <;> unfold answering <;> dsimp only [Except.map]
      · rw [List.map_cons, List.map_cons, hreport, hreports]
        exact .ok h₂
      · exact .error h₂
    · exact .error h₁

theorem agree_runFrame (hsys : Respects sys) (hP : Parallelizable sys P) (dt : Float32) {e e' : Engine σ ρ ε}
    (h : e.Alike e') (hplaced : e.Placed fun _ => P) :
    Agree Alike LooksLike (answering FrameReport.sequential (runFrame sys e dt))
      (answering FrameReport.sequential (runFrame sys e' dt)) := by
  unfold runFrame
  obtain ⟨reports, reports', e₁, e₁', hr, hr', hreports, h₁⟩ | ⟨err, e₁, e₁', hr, hr', h₁⟩ :=
    cases_answering (agree_runPhases hsys hP dt Phase.all h hplaced) <;> rw [hr, hr'] <;> dsimp only
  · obtain ⟨⟨notice, flushed⟩, e₂, e₂', hr, hr', h₂⟩ | ⟨err, e₂, e₂', hr, hr', h₂⟩ :=
      (agree_endFrame hsys h₁).cases <;> rw [hr, hr'] <;> unfold answering <;> dsimp only [Except.map]
    · have hframe : e₂.scheduler.frame = e₂'.scheduler.frame := h₂.looksLike.frame
      rw [FrameReport.sequential]
      dsimp only
      rw [hreports, hframe]
      exact .ok h₂
    · exact .error h₂.looksLike
  · exact .error h₁

end phases

end Engine

end Cadence
