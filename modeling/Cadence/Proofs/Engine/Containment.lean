import Cadence.Proofs.Engine.Order
import Cadence.Proofs.Engine.Presentation

/-!
What the failure of a system does. It breaks the operation off where it happens: results that wait are dropped, the
frame does not end, and the scheduler is poisoned. Nothing is ever run on a poisoned scheduler, and there is no other
way to poison one.
-/

namespace Cadence

variable {σ ρ ε α : Type}

open Call

/-- The call was in vain. -/
def Visit.Fails (visit : Visit α) : Prop := ∃ fault, visit.outcome = .error fault

namespace Call

theorem failed_of_mem {calls : List (Call ρ)} {call : Call ρ} (hmem : call ∈ calls) (hfails : call.failure? ≠ none) :
    firstFailure? calls ≠ none := fun hnone => hfails (List.findSome?_eq_none_iff.mp hnone call hmem)

theorem failed_of_updates {calls : List (Call ρ)} {visit : Visit (Option ρ)} (hmem : visit ∈ updates calls)
    (hfails : visit.Fails) : firstFailure? calls ≠ none := by
  obtain ⟨call, hcall, hupdate⟩ := List.mem_filterMap.mp hmem
  obtain ⟨fault, hfault⟩ := hfails
  cases call <;> cases hupdate
  refine failed_of_mem hcall ?_
  simp [failure?, hfault, faultOf]

end Call

namespace Application

theorem failed_of_fails {application : Application ρ} (h : application.visit.Fails) :
    firstFailure? application.calls ≠ none := by
  obtain ⟨fault, hfault⟩ := h
  have hmem : .apply application.result application.visit ∈ application.calls := List.mem_cons_self
  refine failed_of_mem hmem ?_
  simp [failure?, hfault, faultOf]

theorem done_of_clean {application : Application ρ} (h : firstFailure? application.calls = none) :
    application.visit.outcome = .ok () := by
  cases houtcome : application.visit.outcome with
  | ok _ => rfl
  | error fault => exact absurd h (failed_of_fails ⟨fault, houtcome⟩)

end Application

namespace PhaseRun

variable {sys : System σ ρ ε} {run : PhaseRun ρ}

theorem IsRegular.applied_calls (h : run.IsRegular sys) :
    Call.applied run.calls = run.applications.map Application.due := by
  obtain ⟨_, htold, _⟩ := results_of_told h.opening
  obtain ⟨hturns, _⟩ := Turn.made_ids h.turns
  obtain ⟨_, happlied, _⟩ := Application.results h.applications
  rw [calls, applied_append, applied_append, htold, hturns, happlied]
  rfl

/-- If an update fails, nothing is applied. -/
theorem KeepsOrder.applied_of_update (h : run.KeepsOrder sys) {visit : Visit (Option ρ)}
    (hmem : visit ∈ updates run.updating) (hfails : visit.Fails) : Call.applied run.calls = [] := by
  rw [h.toIsRegular.applied_calls, h.withheld (failed_of_updates hmem hfails)]
  rfl

/-- If the application of a result fails, those before it were not in vain, and there are none after it. -/
theorem IsRegular.applied_of_application (h : run.IsRegular sys) {i : Nat} {application : Application ρ}
    (hi : run.applications[i]? = some application) (hfails : application.visit.Fails) :
    Call.applied run.calls = run.waiting.take (i + 1) ∧
      ∀ earlier ∈ run.applications.take i, earlier.visit.outcome = .ok () := by
  obtain ⟨hlt, happlication⟩ := List.getElem?_eq_some_iff.mp hi
  have hlast : run.applications.length = i + 1 := by
    by_contra hne
    have hbefore : i < run.applications.dropLast.length := by
      rw [List.length_dropLast]
      omega
    have hmem : application ∈ run.applications.dropLast := by
      rw [← happlication, ← List.getElem_dropLast hbefore]
      exact List.getElem_mem _
    exact Application.failed_of_fails hfails (h.broken application hmem)
  refine ⟨?_, fun earlier hmem => ?_⟩
  · rw [h.applied_calls, List.prefix_iff_eq_take.mp h.applied, List.length_map, hlast]
  · refine Application.done_of_clean (h.broken earlier ?_)
    rw [List.dropLast_eq_take, hlast]
    exact hmem

end PhaseRun

namespace Engine

variable {sys : System σ ρ ε} {e e' : Recorded σ ρ ε} {act : Act ρ} {acts : List (Act ρ)}

/-! ### The world -/

/-- Before the frame ends nobody changes the world but those who are called, and the queue is routed. -/
theorem Does.world (h : Does sys e act e') (hact : act ≠ .ending) :
    PassedOn e.world (visits act.calls) ∧ e'.world.drain.2 = (worldAfter e.world act.calls).drain.2 := by
  have haside {e : Recorded σ ρ ε} {calls : List (Call ρ)} (h : ∀ call ∈ calls, call.IsAside) :
      PassedOn e.world (visits calls) ∧ e.world.drain.2 = (worldAfter e.world calls).drain.2 := by
    rw [worldAfter, visits_of_aside h]
    exact ⟨trivial, rfl⟩
  cases h with
  | routing h => exact ⟨(h.accounts .early).passed, (h.accounts .early).world⟩
  | joining h =>
    rw [h.world]
    exact haside h.aside
  | @done _ run _ _ h =>
    have hboth := And.intro h.accounts.passed h.accounts.world
    rw [world_beginPhase] at hboth
    exact hboth
  | @broken _ run _ _ h =>
    have hboth := And.intro h.accounts.passed h.accounts.world
    rw [world_beginPhase] at hboth
    exact hboth
  | ending => exact absurd rfl hact
  | closing _ h => exact haside h

theorem Story.world (h : Story sys e acts e') (hacts : .ending ∉ acts) :
    PassedOn e.world (visits (acts.flatMap Act.calls)) ∧
      e'.world.drain.2 = (worldAfter e.world (acts.flatMap Act.calls)).drain.2 := by
  induction h with
  | nil => exact ⟨trivial, rfl⟩
  | @cons e e₁ e' act acts hfirst _ ih =>
    rw [List.mem_cons, not_or] at hacts
    obtain ⟨hpassed, hworld⟩ := hfirst.world (Ne.symm hacts.1)
    obtain ⟨hpassed', hworld'⟩ := ih hacts.2
    rw [List.flatMap_cons]
    refine ⟨hpassed.append (hpassed'.congr hworld), ?_⟩
    rw [hworld', worldAfter_append]
    exact drain_worldAfter hworld _

/-! ### The failure -/

/-- What a failure leaves of an operation with these acts: the system that was the first to fail is named; nothing is
applied in a phase in which an update has failed, nor after an application that has failed; results that were not applied
before are dropped; the screen is not flipped; the world is not flushed, as nobody changes it but those who are called;
and the scheduler is poisoned. -/
structure Contained (sys : System σ ρ ε) (e : Recorded σ ρ ε) (op : Op σ) (acts : List (Act ρ)) (phase : Phase)
    (name : String) (fault : Fault) (e' : Recorded σ ρ ε) : Prop where
  log : e'.log = e.log ++ acts.flatMap Act.calls
  named : ∃ slot ∈ (Recorded.erase e).scheduler.allSlots, slot.phase = phase ∧ slot.name = name ∧
    firstFailure? (acts.flatMap Act.calls) = some (slot.id, fault)
  withheld : ∀ run ∈ Act.runs acts, ∀ visit ∈ updates run.updating, visit.Fails → Call.applied run.calls = []
  applied : ∀ run ∈ Act.runs acts, ∀ i application, run.applications[i]? = some application → application.visit.Fails →
    Call.applied run.calls = run.waiting.take (i + 1) ∧
      ∀ earlier ∈ run.applications.take i, earlier.visit.outcome = .ok ()
  dropped : ∀ phase, ∀ slot ∈ e'.scheduler.slots.get phase, slot.pending = none
  unflipped : e'.screen.frame = e.screen.frame ∧ e'.screen.presentable = e.screen.presentable
  unflushed : PassedOn (op.edited e.world) (visits (acts.flatMap Act.calls)) ∧
    e'.world.drain.2 = (worldAfter (op.edited e.world) (acts.flatMap Act.calls)).drain.2
  poisoned : e'.scheduler.poisoned = true

/-- A member is registered, and goes by its id in the log. -/
theorem Orderly.slot (he : e.Orderly) {card : Slot Nat ρ} (hmem : card ∈ e.members) :
    ∃ slot ∈ (Recorded.erase e).scheduler.allSlots,
      slot.phase = card.phase ∧ slot.name = card.name ∧ slot.id = card.system := by
  obtain ⟨phase, hroster⟩ := mem_members.mp hmem
  rw [← he.idle phase] at hroster
  obtain ⟨hplace, hid, _, _⟩ := he.card phase card hroster
  obtain ⟨slot, hslot, rfl⟩ := List.mem_map.mp hroster
  refine ⟨slot.erase, ?_, rfl, rfl, hid.symm⟩
  have herased : slot.erase ∈ (Recorded.erase e).scheduler.slots.get phase := by
    unfold Recorded.erase Recorded.eraseScheduler
    rw [ByPhase.get_map]
    exact List.mem_map_of_mem hslot
  rw [Scheduler.allSlots, List.mem_flatten]
  refine ⟨_, ?_, herased⟩
  cases phase <;> simp [ByPhase.toList, ByPhase.get]

theorem Performed.contained (he : e.Orderly) {op : Op σ} (hop : ∀ event, op ≠ .route event)
    (h : Performed sys e op acts (perform sys.recorded e op.marked)) {phase : Phase} {name : String} {fault : Fault}
    (hfailed : (perform sys.recorded e op.marked).1 = .error (.systemFailed phase name fault)) :
    Contained sys e op acts phase name fault (perform sys.recorded e op.marked).2 := by
  have hstory := h.tale.story
  have hbefore : ({ e with world := op.edited e.world } : Recorded σ ρ ε).Orderly := he.congr (fun _ => rfl) rfl
  -- only an operation that is done ends a frame
  have hending : .ending ∉ acts := by
    cases h.ends with
    | last hcompleted _ =>
      obtain ⟨_, _, hok⟩ := hcompleted
      rw [hfailed] at hok
      cases hok
    | never _ hacts => exact hacts
  have hruns := hstory.runs hbefore
  refine {
    log := hstory.log
    named := ?_
    withheld := fun run hmem visit hvisit hfails =>
      ((hruns run hmem).1.keepsOrder (hruns run hmem).2).applied_of_update hvisit hfails
    applied := fun run hmem i application hi hfails => (hruns run hmem).1.applied_of_application hi hfails
    dropped := fun phase slot hmem => ?_
    unflipped := hstory.presentable hending
    unflushed := hstory.world hending
    poisoned := poisoned_of_failed sys e hop hfailed }
  · obtain ⟨card, hmem, fault', hfirst, herr⟩ := h.tale.blames phase name fault hfailed
    cases herr
    obtain ⟨slot, hslot, hphase, hname, hid⟩ := he.slot hmem
    exact ⟨slot, hslot, hphase, hname, by rw [hid]; exact hfirst⟩
  · exact ((he.perform sys op).card phase slot.card (List.mem_map.mpr ⟨slot, hmem, rfl⟩)).2.2.1

/-! ### After the failure -/

/-- A poisoned scheduler refuses to run anything, and nothing comes of it. -/
theorem perform_of_poisoned (sys : System σ ρ ε) {e : Engine σ ρ ε} (h : e.scheduler.poisoned = true) {op : Op σ}
    (hop : op.IsStep) : perform sys e op = (.error (if e.scheduler.closed then .shutDown else .poisoned), e) := by
  refine perform_of_check sys (fun step => ?_) hop
  rw [Scheduler.check, h]
  split <;> rfl

/-- What has become of a run whose scheduler was poisoned in `e`: it is poisoned still, nobody has been updated since
and nothing applied, and what is asked to run is refused. -/
structure Stopped (sys : System σ ρ ε) (e e' : Recorded σ ρ ε) : Prop where
  poisoned : e'.scheduler.poisoned = true
  silent : steps e'.log = steps e.log
  refused : ∀ op : Op σ, op.IsStep → perform sys (Recorded.erase e') op =
    (.error (if e'.scheduler.closed then .shutDown else .poisoned), Recorded.erase e')

theorem stopped_of_poisoned (sys : System σ ρ ε) (he : e.Orderly) (hpoisoned : e.scheduler.poisoned = true)
    (ops : List (Op σ)) : Stopped sys e (run sys.recorded e (ops.map Op.marked)) := by
  induction ops generalizing e with
  | nil => exact ⟨hpoisoned, rfl, fun op hop => perform_of_poisoned sys hpoisoned hop⟩
  | cons op rest ih =>
    obtain ⟨acts, hperformed⟩ := exists_performed sys he op
    have hstory := hperformed.tale.story
    obtain ⟨hstill, hruns, _⟩ := hstory.of_poisoned hpoisoned
    have hrest := ih (he.perform sys op) hstill
    -- without a run of a phase there is neither an update nor an application
    have hregular : ∀ run ∈ Act.runs acts, run.IsRegular sys := by
      rw [hruns]
      nofun
    have hquiet : steps (acts.flatMap Act.calls) = [] := by
      rw [Act.steps hstory.aside hregular, hruns]
      rfl
    refine ⟨hrest.poisoned, hrest.silent.trans ?_, hrest.refused⟩
    rw [hstory.log, steps_append, hquiet, List.append_nil]
    rfl

/-! ### Before the failure -/

/-- An operation that poisons the scheduler says that a system has failed. -/
theorem failed_of_poisoned (sys : System σ ρ ε) (he : e.Orderly) {op : Op σ} (hlive : e.scheduler.poisoned = false)
    (hpoisoned : (perform sys.recorded e op.marked).2.scheduler.poisoned = true) :
    (∀ event, op ≠ .route event) ∧
      ∃ phase name fault, (perform sys.recorded e op.marked).1 = .error (.systemFailed phase name fault) := by
  constructor
  · rintro event rfl
    obtain ⟨_, _, _, hsame, _⟩ := route_tells sys e event
    have hpoisoned' : (route sys.recorded e event).2.scheduler.poisoned = true := hpoisoned
    rw [hsame, hlive] at hpoisoned'
    cases hpoisoned'
  · by_contra hnone
    obtain ⟨acts, hperformed⟩ := exists_performed sys he op
    have hsame := hperformed.tale.clean fun phase name fault herr => hnone ⟨phase, name, fault, herr⟩
    rw [hpoisoned] at hsame
    exact absurd (hsame.trans hlive) nofun

theorem exists_failure (sys : System σ ρ ε) (he : e.Orderly) (hlive : e.scheduler.poisoned = false) (ops : List (Op σ))
    (hpoisoned : (run sys.recorded e (ops.map Op.marked)).scheduler.poisoned = true) :
    ∃ before op after, ops = before ++ op :: after ∧ (∀ event, op ≠ .route event) ∧
      (run sys (Recorded.erase e) before).scheduler.poisoned = false ∧ ∃ phase name fault,
        (perform sys (run sys (Recorded.erase e) before) op).1 = .error (.systemFailed phase name fault) := by
  induction ops generalizing e with
  | nil =>
    rw [List.map_nil] at hpoisoned
    exact absurd (hpoisoned.symm.trans hlive) nofun
  | cons op rest ih =>
    have herased := erased_perform sys e op
    cases hfirst : (perform sys.recorded e op.marked).2.scheduler.poisoned with
    | true =>
      obtain ⟨hop, phase, name, fault, hfailed⟩ := failed_of_poisoned sys he hlive hfirst
      refine ⟨[], op, rest, rfl, hop, hlive, phase, name, fault, ?_⟩
      rw [← hfailed]
      exact (congrArg Prod.fst herased).symm
    | false =>
      obtain ⟨before, op', after, rfl, hop, hlive', phase, name, fault, hfailed⟩ :=
        ih (he.perform sys op) hfirst hpoisoned
      have hsame : run sys (Recorded.erase e) (op :: before) =
          run sys (Recorded.erase (perform sys.recorded e op.marked).2) before :=
        congrArg (fun r => run sys r.2 before) herased.symm
      rw [← hsame] at hlive' hfailed
      exact ⟨op :: before, op', after, rfl, hop, hlive', phase, name, fault, hfailed⟩

/-- A failure is contained in the operation in which it happens, whose phases are run in order like those before it; a
scheduler that it has poisoned runs nothing any more; and nothing else poisons one. -/
theorem failures_are_contained_and_final (sys : System σ ρ ε) (settings : Settings.Scheduling) (screen : Screen)
    (host : ε) (ops : List (Op σ)) :
    let e := record sys settings screen host ops
    Recorded.erase e = run sys (start settings screen host) ops ∧
    (∀ op : Op σ, (∀ event, op ≠ .route event) → ∀ phase name fault,
      (perform sys (Recorded.erase e) op).1 = .error (.systemFailed phase name fault) →
        ∃ chapters acts, Sequenced sys settings screen host (ops ++ [op]) (chapters ++ [acts]) ∧
          Contained sys e op acts phase name fault (perform sys.recorded e op.marked).2) ∧
    (e.scheduler.poisoned = true → ∀ rest, Stopped sys e (record sys settings screen host (ops ++ rest))) ∧
    (e.scheduler.poisoned = true → ∃ before op after, ops = before ++ op :: after ∧ (∀ event, op ≠ .route event) ∧
      let left := run sys (start settings screen host) before
      left.scheduler.poisoned = false ∧ ∃ phase name fault,
        (perform sys left op).1 = .error (.systemFailed phase name fault)) := by
  intro e
  have hstart := Orderly.start (σ := σ) settings screen (host, ([] : List (Call ρ)))
  have he : e.Orderly := orderly_record sys settings screen host ops
  refine ⟨erase_record sys settings screen host ops, fun op hop phase name fault hfailed => ?_,
    fun hpoisoned rest => ?_, fun hpoisoned => exists_failure sys hstart rfl ops hpoisoned⟩
  · rw [← erased_perform] at hfailed
    obtain ⟨chapters, hchronicle⟩ := exists_chronicle sys hstart ops
    obtain ⟨acts, hperformed⟩ := exists_performed sys he op
    have hlast : Chronicle sys (start settings screen (host, [])) (ops ++ [op]) (chapters ++ [acts])
        (record sys settings screen host (ops ++ [op])) := by
      rw [record_append]
      exact hchronicle.append (.cons hperformed (.nil _))
    exact ⟨chapters, acts, hlast.sequenced, hperformed.contained he hop hfailed⟩
  · have hstopped := stopped_of_poisoned sys he hpoisoned rest
    rw [← record_append] at hstopped
    exact hstopped

end Engine

end Cadence
