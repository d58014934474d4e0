import Cadence.Proofs.Engine.PhaseRun
import Cadence.Proofs.Engine.Poison

/-!
What happens in a run, as a list of acts between which the engine is idle: systems are told of events, one of them
joins, a phase is run, a frame ends, everybody is shut down. Every operation is such a list, and all that is said of
acts is said of runs.
-/

namespace Cadence

variable {σ ρ ε α β : Type}

open Call

/-- What happens between two moments at which an engine is idle. -/
inductive Act (ρ : Type)
  | routing (calls : List (Call ρ))
  | joining (calls : List (Call ρ))
  | phase (run : PhaseRun ρ)
  | ending
  | closing (calls : List (Call ρ))

namespace Act

def calls : Act ρ → List (Call ρ)
  | routing calls => calls
  | joining calls => calls
  | phase run => run.calls
  | ending => []
  | closing calls => calls

/-- The act belongs to a frame, so that nobody is registered or shut down in it. -/
def IsOfFrame : Act ρ → Prop
  | joining _ => False
  | closing _ => False
  | _ => True

/-- The run of a phase. -/
def run? : Act ρ → Option (PhaseRun ρ)
  | phase run => some run
  | _ => none

/-- The runs of phases among acts. -/
def runs (acts : List (Act ρ)) : List (PhaseRun ρ) := acts.filterMap run?

@[simp] theorem runs_append (acts acts' : List (Act ρ)) : runs (acts ++ acts') = runs acts ++ runs acts' :=
  List.filterMap_append ..

theorem runs_cons (act : Act ρ) (acts : List (Act ρ)) : runs (act :: acts) = act.run?.toList ++ runs acts := by
  unfold runs
  rw [List.filterMap_cons]
  cases act.run? <;> rfl

@[simp] theorem runs_phases (runs : List (PhaseRun ρ)) : Act.runs (runs.map phase) = runs := by
  induction runs with
  | nil => rfl
  | cons run rest ih => exact congrArg (run :: ·) ih

end Act

namespace Engine

variable {sys : System σ ρ ε} {e e' e'' : Recorded σ ρ ε}

/-- A system that is offered to the engine is initialised and told what is attached; it is registered, or its host alone
is left. -/
structure Joins (e : Recorded σ ρ ε) (calls : List (Call ρ)) (e' : Recorded σ ρ ε) : Prop where
  aside : ∀ call ∈ calls, call.IsAside
  log : e'.log = e.log ++ calls
  world : e'.world = e.world
  screen : e'.screen = e.screen
  scheduler : e'.scheduler = e.scheduler ∨ ∃ phase slot,
    slot.card = ⟨e.scheduler.nextId, slot.name, phase, e.scheduler.nextId, none⟩ ∧
      e'.scheduler = { e.scheduler with
        slots := e.scheduler.slots.modify phase (· ++ [slot])
        names := e.scheduler.names ++ [slot.name]
        nextId := e.scheduler.nextId + 1 }

/-- Of the scheduler only what tells who is registered may have changed. -/
theorem Joins.exists_scheduler {calls : List (Call ρ)} (h : Joins e calls e') :
    ∃ slots names nextId, e'.scheduler = { e.scheduler with slots, names, nextId } := by
  obtain hsame | ⟨_, _, _, hscheduler⟩ := h.scheduler
  · exact ⟨_, _, _, hsame⟩
  · exact ⟨_, _, _, hscheduler⟩

/-- What an act does to an engine. -/
inductive Does (sys : System σ ρ ε) : Recorded σ ρ ε → Act ρ → Recorded σ ρ ε → Prop
  | routing {e e' : Recorded σ ρ ε} {calls : List (Call ρ)} (h : Tells e calls e') : Does sys e (.routing calls) e'
  | joining {e e' : Recorded σ ρ ε} {calls : List (Call ρ)} (h : Joins e calls e') : Does sys e (.joining calls) e'
  | done {e e₁ : Recorded σ ρ ε} {run : PhaseRun ρ} {report : PhaseReport}
      (hcheck : e.scheduler.check (.phase run.phase) = .ok ())
      (h : Ran sys (e.beginPhase run.phase) run (.ok report, e₁)) :
      Does sys e (.phase run) { e₁ with scheduler := { e₁.scheduler with next := e₁.scheduler.next.next } }
  | broken {e e₁ : Recorded σ ρ ε} {run : PhaseRun ρ} {err : EngineError}
      (hcheck : e.scheduler.check (.phase run.phase) = .ok ())
      (h : Ran sys (e.beginPhase run.phase) run (.error err, e₁)) : Does sys e (.phase run) (e₁.abort run.phase)
  | ending {e : Recorded σ ρ ε} (hcheck : e.scheduler.check .endOfFrame = .ok ()) : Does sys e .ending
      { e with
        scheduler := { e.scheduler with next := e.scheduler.next.next }
        world := e.world.flush.2
        screen := e.screen.flip.2.clearActive }
  | closing {e : Recorded σ ρ ε} {calls : List (Call ρ)} (host : ε) (haside : ∀ call ∈ calls, call.IsAside) :
      Does sys e (.closing calls)
        { e with
          scheduler := { e.scheduler with closed := true, slots := .const [], names := [] }
          host := (host, e.log ++ calls) }

/-- Acts one after the other. -/
inductive Story (sys : System σ ρ ε) : Recorded σ ρ ε → List (Act ρ) → Recorded σ ρ ε → Prop
  | nil (e : Recorded σ ρ ε) : Story sys e [] e
  | cons {e e₁ e' : Recorded σ ρ ε} {act : Act ρ} {acts : List (Act ρ)} (hfirst : Does sys e act e₁)
      (hrest : Story sys e₁ acts e') : Story sys e (act :: acts) e'

namespace Story

theorem single {act : Act ρ} (h : Does sys e act e') : Story sys e [act] e' := .cons h (.nil e')

theorem append {acts acts' : List (Act ρ)} (h : Story sys e acts e') (h' : Story sys e' acts' e'') :
    Story sys e (acts ++ acts') e'' := by
  induction h with
  | nil => exact h'
  | cons hfirst _ ih => exact .cons hfirst (ih h')

theorem of_single {act : Act ρ} (h : Story sys e [act] e') : Does sys e act e' := by
  cases h with
  | cons hfirst hrest =>
    cases hrest
    exact hfirst

theorem split {acts acts' : List (Act ρ)} (h : Story sys e (acts ++ acts') e') :
    ∃ e₁, Story sys e acts e₁ ∧ Story sys e₁ acts' e' := by
  induction acts generalizing e with
  | nil => exact ⟨e, .nil e, h⟩
  | cons act rest ih =>
    cases h with
    | cons hfirst hrest =>
      obtain ⟨e₁, hbefore, hafter⟩ := ih hrest
      exact ⟨e₁, .cons hfirst hbefore, hafter⟩

/-- What every act of a kind keeps, a story of such acts keeps. -/
theorem preserves {I : Recorded σ ρ ε → Prop} {acts : List (Act ρ)} (h : Story sys e acts e')
    (hstep : ∀ {e act e'}, act ∈ acts → Does sys e act e' → I e → I e') (he : I e) : I e' := by
  induction h with
  | nil => exact he
  | cons hfirst _ ih =>
    exact ih (fun hmem => hstep (List.mem_cons_of_mem _ hmem)) (hstep List.mem_cons_self hfirst he)

end Story

/-- Where poison stays, a scheduler without it was without it before. -/
theorem live_before {s s' : Scheduler σ ρ} (hsticky : s.poisoned = true → s'.poisoned = true)
    (hlive : s'.poisoned = false) : s.poisoned = false :=
  Bool.eq_false_iff.mpr fun hpoisoned => Bool.eq_false_iff.mp hlive (hsticky hpoisoned)

/-- What may be done now is what comes next, and neither has the scheduler been closed nor is it poisoned. -/
theorem check_eq_ok {s : Scheduler σ ρ} {step : Step} (h : s.check step = .ok ()) :
    s.closed = false ∧ s.poisoned = false ∧ s.next = step := by
  unfold Scheduler.check at h
  split at h
  · cases h
  split at h
  · cases h
  split at h
  · cases h
  · simp_all

/-- A poisoned scheduler runs no phase and ends no frame, and it stays poisoned. -/
theorem Does.of_poisoned {act : Act ρ} (h : Does sys e act e') (hpoisoned : e.scheduler.poisoned = true) :
    e'.scheduler.poisoned = true ∧ act.run? = none ∧ act ≠ .ending := by
  have hrefused : ∀ {step}, e.scheduler.check step ≠ .ok () := by
    intro step hcheck
    rw [(check_eq_ok hcheck).2.1] at hpoisoned
    cases hpoisoned
  cases h with
  | routing h => exact ⟨(h.accounts .early).sticky hpoisoned, rfl, nofun⟩
  | joining h =>
    obtain ⟨_, _, _, hscheduler⟩ := h.exists_scheduler
    exact ⟨by rw [hscheduler]; exact hpoisoned, rfl, nofun⟩
  | closing => exact ⟨hpoisoned, rfl, nofun⟩
  | done hcheck => exact absurd hcheck hrefused
  | broken hcheck => exact absurd hcheck hrefused
  | ending hcheck => exact absurd hcheck hrefused

theorem Story.of_poisoned {acts : List (Act ρ)} (h : Story sys e acts e') (hpoisoned : e.scheduler.poisoned = true) :
    e'.scheduler.poisoned = true ∧ Act.runs acts = [] ∧ .ending ∉ acts := by
  induction h with
  | nil => exact ⟨hpoisoned, rfl, nofun⟩
  | @cons _ _ _ act acts hfirst _ ih =>
    obtain ⟨hpoisoned', hrun, hending⟩ := hfirst.of_poisoned hpoisoned
    obtain ⟨hlast, hruns, hendings⟩ := ih hpoisoned'
    refine ⟨hlast, ?_, ?_⟩
    · rw [Act.runs_cons, hrun, hruns]
      rfl
    · rw [List.mem_cons]
      rintro (rfl | hmem)
      · exact hending rfl
      · exact hendings hmem

/-! ### The log -/

theorem log_beginPhase (phase : Phase) (e : Recorded σ ρ ε) : (e.beginPhase phase).log = e.log := by
  rw [beginPhase]
  split <;> rfl

theorem screen_beginPhase (phase : Phase) (e : Recorded σ ρ ε) : (e.beginPhase phase).screen = e.screen := by
  rw [Engine.beginPhase]
  split <;> rfl

theorem world_beginPhase (phase : Phase) (e : Recorded σ ρ ε) : (e.beginPhase phase).world = e.world := by
  rw [Engine.beginPhase]
  split <;> rfl

/-- The early phase has begun a new frame, and that is all. -/
theorem scheduler_beginPhase (phase : Phase) (e : Recorded σ ρ ε) :
    (e.beginPhase phase).scheduler =
      { e.scheduler with frame := if phase = .early then e.scheduler.frame + 1 else e.scheduler.frame } := by
  rw [beginPhase]
  split <;> rfl

theorem cards_beginPhase (phase : Phase) (e : Recorded σ ρ ε) (phase' : Phase) :
    (e.beginPhase phase).cards phase' = e.cards phase' := by
  rw [cards, scheduler_beginPhase]
  rfl

theorem roster_beginPhase (phase : Phase) (e : Recorded σ ρ ε) (phase' : Phase) :
    (e.beginPhase phase).roster phase' = e.roster phase' := roster_congr (cards_beginPhase phase e phase')

theorem Does.log {act : Act ρ} (h : Does sys e act e') : e'.log = e.log ++ act.calls := by
  cases h with
  | routing h => exact (h.accounts .early).log
  | joining h => exact h.log
  | @done _ run _ _ h => exact h.accounts.log.trans (congrArg (· ++ run.calls) (log_beginPhase run.phase e))
  | @broken _ run _ _ h => exact h.accounts.log.trans (congrArg (· ++ run.calls) (log_beginPhase run.phase e))
  | ending _ => exact (List.append_nil _).symm
  | closing => rfl

theorem Story.log {acts : List (Act ρ)} (h : Story sys e acts e') : e'.log = e.log ++ acts.flatMap Act.calls := by
  induction h with
  | nil => exact (List.append_nil _).symm
  | cons hfirst _ ih => rw [ih, hfirst.log, List.flatMap_cons, List.append_assoc]

/-! ### Who is registered -/

/-- Between acts nothing waits, everybody is where it belongs and goes by the id it was given, and no id is given
twice. -/
structure Orderly (e : Recorded σ ρ ε) : Prop where
  card : ∀ phase, ∀ card ∈ e.cards phase,
    card.phase = phase ∧ card.system = card.id ∧ card.pending = none ∧ card.id < e.scheduler.nextId
  distinct : ∀ phase, ((e.cards phase).map (·.id)).Nodup

namespace Orderly

theorem idle (h : e.Orderly) : e.IsIdle := by
  intro phase
  refine (List.map_id _).symm.trans (List.map_congr_left fun card hmem => ?_)
  show card = { card with pending := none }
  rw [← (h.card phase card hmem).2.2.1]

theorem place (h : e.Orderly) : e.InPlace := by
  intro phase card hmem
  rw [← h.idle] at hmem
  exact (h.card phase card hmem).1

theorem congr (h : e.Orderly) (hcards : ∀ phase, e'.cards phase = e.cards phase)
    (hnext : e'.scheduler.nextId = e.scheduler.nextId) : e'.Orderly := by
  constructor
  · intro phase card hmem
    rw [hcards] at hmem
    rw [hnext]
    exact h.card phase card hmem
  · intro phase
    rw [hcards]
    exact h.distinct phase

theorem beginPhase (h : e.Orderly) (phase : Phase) : (e.beginPhase phase).Orderly := by
  refine h.congr (cards_beginPhase phase e) ?_
  rw [scheduler_beginPhase]

theorem start (settings : Settings.Scheduling) (screen : Screen) (host : ε × List (Call ρ)) :
    (Engine.start settings screen host : Recorded σ ρ ε).Orderly := by
  constructor <;> rintro (_ | _ | _) <;> simp [cards, Engine.start, ByPhase.const, ByPhase.get]

end Orderly

theorem cards_abort (e : Recorded σ ρ ε) (phase phase' : Phase) :
    (e.abort phase).cards phase' = if phase' = phase then e.roster phase else e.cards phase' := by
  rw [cards, abort, ByPhase.get_modify]
  split
  · rw [roster, cards, List.map_map, List.map_map]
    rfl
  · rfl

/-- Nobody comes or goes in a frame, and what was left to be applied has been applied or dropped. -/
theorem Does.cards {act : Act ρ} (h : Does sys e act e') (he : e.Orderly) (hact : act.IsOfFrame) (phase : Phase) :
    e'.cards phase = e.cards phase := by
  cases h with
  | routing h => exact h.cards phase
  | joining => cases hact
  | @done e₁ run _ _ h =>
    show e₁.cards phase = e.cards phase
    by_cases hphase : phase = run.phase
    · rw [hphase, (h.done _ rfl).1, cards_beginPhase]
    · rw [h.others phase hphase, cards_beginPhase]
  | @broken e₁ run _ _ h =>
    rw [cards_abort]
    split
    · rename_i hphase
      rw [h.accounts.roster, roster_beginPhase, hphase]
      exact (he.idle run.phase).symm
    · rename_i hphase
      rw [h.others phase hphase, cards_beginPhase]
  | ending => rfl
  | closing => cases hact

/-- A system that joins comes last in its phase. -/
theorem cards_append {phase : Phase} {slot : Slot (Marked σ) ρ}
    (hslots : e'.scheduler.slots = e.scheduler.slots.modify phase (· ++ [slot])) (phase' : Phase) :
    e'.cards phase' = if phase' = phase then e.cards phase ++ [slot.card] else e.cards phase' := by
  rw [cards, hslots, ByPhase.get_modify]
  split
  · rw [List.map_append, List.map_singleton]
    rfl
  · rfl

theorem Orderly.joins {calls : List (Call ρ)} (he : e.Orderly) (h : Joins e calls e') : e'.Orderly := by
  obtain hsame | ⟨phase, slot, hcard, hscheduler⟩ := h.scheduler
  · exact he.congr (fun phase => by rw [cards, hsame]; rfl) (by rw [hsame])
  · have hslots : e'.scheduler.slots = e.scheduler.slots.modify phase (· ++ [slot]) := by rw [hscheduler]
    have hcards := cards_append hslots
    have hnext : e'.scheduler.nextId = e.scheduler.nextId + 1 := by rw [hscheduler]
    constructor
    · intro phase' card hmem
      rw [hcards] at hmem
      rw [hnext]
      split at hmem
      · rename_i hphase
        obtain hold | hnew := List.mem_append.mp hmem
        · obtain ⟨hplace, hown, hpending, hknown⟩ := he.card phase card hold
          exact ⟨hplace.trans hphase.symm, hown, hpending, by omega⟩
        · rw [List.mem_singleton.mp hnew, hcard]
          exact ⟨hphase.symm, rfl, rfl, Nat.lt_succ_self _⟩
      · obtain ⟨hplace, hown, hpending, hknown⟩ := he.card phase' card hmem
        exact ⟨hplace, hown, hpending, by omega⟩
    · intro phase'
      rw [hcards]
      split
      · rw [List.map_append, List.nodup_append]
        refine ⟨he.distinct phase, by simp, ?_⟩
        rintro id hold id' hnew rfl
        obtain ⟨card, hmem, rfl⟩ := List.mem_map.mp hold
        rw [hcard] at hnew
        -- the id of the new system is higher than all that were given before
        have hid : card.id = e.scheduler.nextId := by simpa using hnew
        have hknown := (he.card phase card hmem).2.2.2
        omega
      · exact he.distinct phase'

theorem Does.nextId {act : Act ρ} (h : Does sys e act e') (hact : act.IsOfFrame) :
    e'.scheduler.nextId = e.scheduler.nextId := by
  cases h with
  | routing h => exact (h.accounts .early).nextId
  | joining => cases hact
  | done _ h => exact h.accounts.nextId.trans (by rw [scheduler_beginPhase])
  | broken _ h => exact h.accounts.nextId.trans (by rw [scheduler_beginPhase])
  | ending => rfl
  | closing => cases hact

theorem Does.orderly {act : Act ρ} (h : Does sys e act e') (he : e.Orderly) : e'.Orderly := by
  by_cases hact : act.IsOfFrame
  · exact he.congr (h.cards he hact) (h.nextId hact)
  · cases h with
    | joining h => exact he.joins h
    | closing => constructor <;> rintro (_ | _ | _) <;> simp [Engine.cards, ByPhase.const, ByPhase.get]
    | _ => exact absurd trivial hact

theorem Story.orderly {acts : List (Act ρ)} (h : Story sys e acts e') (he : e.Orderly) : e'.Orderly :=
  h.preserves (I := Orderly) (fun _ hdoes he => hdoes.orderly he) he

/-! ### Runs of phases -/

/-- The ids of the systems that are registered in a phase. -/
def ids (e : Recorded σ ρ ε) (phase : Phase) : List Nat := (e.cards phase).map (·.id)

theorem Orderly.systems (he : e.Orderly) (phase : Phase) : (e.roster phase).map (·.system) = e.ids phase := by
  rw [← he.idle]
  exact List.map_congr_left fun card hmem => (he.card phase card hmem).2.1

theorem Does.settings {act : Act ρ} (h : Does sys e act e') : e'.scheduler.settings = e.scheduler.settings := by
  cases h with
  | routing h => exact (h.accounts .early).settings
  | joining h =>
    obtain ⟨_, _, _, hscheduler⟩ := h.exists_scheduler
    rw [hscheduler]
  | done _ h => exact h.accounts.settings.trans (by rw [scheduler_beginPhase])
  | broken _ h => exact h.accounts.settings.trans (by rw [scheduler_beginPhase])
  | ending => rfl
  | closing => rfl

theorem Story.settings {acts : List (Act ρ)} (h : Story sys e acts e') : e'.scheduler.settings = e.scheduler.settings :=
  h.preserves (I := fun e' => e'.scheduler.settings = e.scheduler.settings)
    (fun _ hdoes he => hdoes.settings.trans he) rfl

/-- A phase is run with those who are registered in it. -/
theorem Does.run {act : Act ρ} (h : Does sys e act e') (he : e.Orderly) {run : PhaseRun ρ}
    (hrun : act.run? = some run) :
    run.IsRegular sys ∧ run.systems = e.ids run.phase := by
  have hsystems : ((e.beginPhase run.phase).roster run.phase).map (·.system) = e.ids run.phase := by
    rw [roster_beginPhase]
    exact he.systems run.phase
  cases h with
  | done _ h =>
    cases hrun
    exact ⟨h.regular, h.systems.trans hsystems⟩
  | broken _ h =>
    cases hrun
    exact ⟨h.regular, h.systems.trans hsystems⟩
  | _ => cases hrun

theorem Story.runs {acts : List (Act ρ)} (h : Story sys e acts e') (he : e.Orderly) :
    ∀ run ∈ Act.runs acts, run.IsRegular sys ∧ run.systems.Nodup := by
  induction h with
  | nil => nofun
  | @cons e e₁ e' act acts hfirst _ ih =>
    intro run hmem
    obtain ⟨act', hact', hrun⟩ := List.mem_filterMap.mp hmem
    obtain rfl | hact' := List.mem_cons.mp hact'
    · obtain ⟨hregular, hsystems⟩ := hfirst.run he hrun
      rw [hsystems]
      exact ⟨hregular, he.distinct run.phase⟩
    · exact ih (hfirst.orderly he) run (List.mem_filterMap.mpr ⟨act', hact', hrun⟩)

/-- Outside the runs of phases nobody is updated, and nothing is applied or handed off. -/
theorem Does.aside {act : Act ρ} (h : Does sys e act e') (hact : act.run? = none) :
    ∀ call ∈ act.calls, call.IsAside := by
  cases h with
  | routing h => exact fun call hmem => (h.told call hmem).isAside
  | joining h => exact h.aside
  | ending => nofun
  | closing _ h => exact h
  | _ => cases hact

theorem Story.aside {acts : List (Act ρ)} (h : Story sys e acts e') :
    ∀ act ∈ acts, act.run? = none → ∀ call ∈ act.calls, call.IsAside := by
  induction h with
  | nil => nofun
  | cons hfirst _ ih => exact List.forall_mem_cons.mpr ⟨hfirst.aside, ih⟩

end Engine

end Cadence
