import Cadence.Proofs.Engine.Handover

/-!
The order of the calls in a run. Phases are run one after the other, early, script and late in turn; in each of them
first the systems are updated and then their results are applied, both in the order of registration.
-/

namespace Cadence

variable {σ ρ ε : Type}

/-! ### Updates and applications in the log -/

namespace Call

/-- The call updates a system or lets it apply a result. -/
def isStep : Call ρ → Bool
  | update _ | apply .. => true
  | _ => false

def steps (calls : List (Call ρ)) : List (Call ρ) := calls.filter isStep

def update? : Call ρ → Option (Visit (Option ρ))
  | update visit => some visit
  | _ => none

def updates (calls : List (Call ρ)) : List (Visit (Option ρ)) := calls.filterMap update?

@[simp] theorem steps_append (calls calls' : List (Call ρ)) : steps (calls ++ calls') = steps calls ++ steps calls' :=
  List.filter_append ..

theorem steps_flatMap {α : Type} (f : α → List (Call ρ)) (xs : List α) :
    steps (xs.flatMap f) = xs.flatMap fun x => steps (f x) := by
  induction xs with
  | nil => rfl
  | cons x rest ih => rw [List.flatMap_cons, List.flatMap_cons, steps_append, ih]

theorem steps_of_aside {calls : List (Call ρ)} (h : ∀ call ∈ calls, call.IsAside) : steps calls = [] := by
  refine List.filter_eq_nil_iff.mpr fun call hmem => ?_
  have haside := h call hmem
  cases call <;> first | exact Bool.false_ne_true | cases haside

end Call

open Call

theorem Turn.IsRegular.steps {sys : System σ ρ ε} {parallel : Bool} {turn : Turn ρ} (h : turn.IsRegular sys parallel) :
    steps turn.calls = [.update turn.visit] := by
  cases parallel with
  | false =>
    cases (h : turn.OnThread) with
    | @done visit _ follow _ htold =>
      have hnone : Call.steps follow = [] := steps_of_aside fun call hmem => (htold call hmem).isAside
      exact congrArg (Call.update visit :: ·) hnone
    | failed => rfl
  | true => cases (h : turn.OnWorker sys) <;> rfl

theorem Application.OnThread.steps {application : Application ρ} (h : application.OnThread) :
    steps application.calls = [.apply application.result application.visit] := by
  cases h with
  | @done result visit follow _ htold =>
    have hnone : Call.steps follow = [] := steps_of_aside fun call hmem => (htold call hmem).isAside
    exact congrArg (Call.apply result visit :: ·) hnone
  | failed => rfl

namespace PhaseRun

/-- The updates, and after them the applications. -/
def steps (run : PhaseRun ρ) : List (Call ρ) :=
  run.turns.map (fun turn => .update turn.visit) ++
    run.applications.map fun application => .apply application.result application.visit

/-- The systems that have made a result. -/
def makers (run : PhaseRun ρ) : List Nat := (made run.updating).map (·.1)

/-- A regular run in which nobody is updated twice, and in which those who have made a result apply one, in the order in
which they were updated: nobody if somebody has failed before, all of them if nobody fails. -/
structure KeepsOrder (sys : System σ ρ ε) (run : PhaseRun ρ) : Prop extends run.IsRegular sys where
  distinct : run.systems.Nodup
  withheld : firstFailure? run.updating ≠ none → run.applications = []
  makers : run.applications.map (·.visit.id) <+: run.makers
  allMakers : run.IsDone → run.applications.map (·.visit.id) = run.makers

variable {sys : System σ ρ ε} {run : PhaseRun ρ}

theorem IsRegular.steps (h : run.IsRegular sys) : Call.steps run.calls = run.steps := by
  have hopening : Call.steps run.opening = [] := steps_of_aside fun call hmem => (h.opening call hmem).isAside
  have hturns : (run.turns.flatMap fun turn => Call.steps turn.calls) =
      run.turns.map fun turn => .update turn.visit := by
    rw [List.map_eq_flatMap]
    exact List.flatMap_congr fun turn hmem => (h.turns turn hmem).steps
  have happlications : (run.applications.flatMap fun application => Call.steps application.calls) =
      run.applications.map fun application => .apply application.result application.visit := by
    rw [List.map_eq_flatMap]
    exact List.flatMap_congr fun application hmem => (h.applications application hmem).steps
  rw [calls, steps_append, steps_append, hopening, steps_flatMap, steps_flatMap, hturns, happlications]
  rfl

theorem IsRegular.makers_eq (h : run.IsRegular sys) : run.makers = run.waiting.map (·.1) := by
  obtain ⟨hmade, _⟩ := results_of_told h.opening
  obtain ⟨_, hids⟩ := Turn.made_ids h.turns
  rw [makers, updating, made_append, hmade]
  exact hids

theorem IsRegular.keepsOrder (h : run.IsRegular sys) (hdistinct : run.systems.Nodup) : run.KeepsOrder sys := by
  have hids : run.applications.map (·.visit.id) = (run.applications.map Application.due).map (·.1) :=
    (List.map_map (f := Application.due) (g := Prod.fst)).symm
  refine { h with distinct := hdistinct, withheld := fun hfailed => ?_, makers := ?_, allMakers := fun hdone => ?_ }
  · by_cases hopening : firstFailure? run.opening = none
    · refine h.joined fun hturns => hfailed ?_
      rw [updating, firstFailure?_append, hopening, hturns]
      rfl
    · have hnone : run.waiting = [] := by rw [waiting, h.opened hopening]; rfl
      have happlied := h.applied
      rw [hnone, List.prefix_nil, List.map_eq_nil_iff] at happlied
      exact happlied
  · rw [hids, h.makers_eq]
    exact h.applied.map _
  · rw [hids, h.makers_eq, h.finished hdone]

/-- The run is of the phase whose turn it is after so many runs, three of which make a frame. -/
def IsAt (run : PhaseRun ρ) (k : Nat) : Prop := Phase.all[k % 3]? = some run.phase ∧ run.frame = k / 3 + 1

theorem IsAt.unique {run run' : PhaseRun ρ} {k k' : Nat} (h : run.IsAt k) (h' : run'.IsAt k')
    (hframe : run.frame = run'.frame) (hphase : run.phase = run'.phase) : k = k' := by
  have hquotient : k / 3 + 1 = k' / 3 + 1 := h.2.symm.trans (hframe.trans h'.2)
  have hsame : Phase.all[k % 3]? = Phase.all[k' % 3]? := by rw [h.1, h'.1, hphase]
  have hlt : k % 3 < Phase.all.length := Nat.mod_lt k (by decide)
  have hrest : k % 3 = k' % 3 := (List.getElem?_inj hlt (by decide)).mp hsame
  omega

end PhaseRun

namespace Engine

variable {sys : System σ ρ ε} {e e' : Recorded σ ρ ε} {act : Act ρ} {acts : List (Act ρ)}

/-- The updates and applications among acts are those of the runs of phases. -/
theorem Act.steps (haside : ∀ act ∈ acts, act.run? = none → ∀ call ∈ act.calls, call.IsAside)
    (hregular : ∀ run ∈ Act.runs acts, run.IsRegular sys) :
    Call.steps (acts.flatMap Act.calls) = (Act.runs acts).flatMap PhaseRun.steps := by
  induction acts with
  | nil => rfl
  | cons act rest ih =>
    obtain ⟨hact, hrest⟩ := List.forall_mem_cons.mp haside
    rw [Act.runs_cons] at hregular ⊢
    obtain ⟨hfirst, hregular⟩ := List.forall_mem_append.mp hregular
    rw [List.flatMap_cons, steps_append, ih hrest hregular, List.flatMap_append]
    congr 1
    cases act with
    | phase run => exact (hfirst run (by simp [Act.run?])).steps.trans (List.append_nil _).symm
    | _ => exact steps_of_aside (hact rfl)

/-! ### Who is updated -/

/-- In acts of a frame every phase is run with those who were registered when the acts began. -/
theorem Story.systems (h : Story sys e acts e') (he : e.Orderly) (hacts : ∀ act ∈ acts, act.IsOfFrame) :
    ∀ run ∈ Act.runs acts, run.systems = e.ids run.phase := by
  induction h with
  | nil => nofun
  | @cons e e₁ e' act acts hfirst _ ih =>
    obtain ⟨hact, hrest⟩ := List.forall_mem_cons.mp hacts
    intro run hmem
    obtain ⟨act', hact', hrun⟩ := List.mem_filterMap.mp hmem
    obtain rfl | hact' := List.mem_cons.mp hact'
    · exact (hfirst.run he hrun).2
    · rw [ih (hfirst.orderly he) hrest run (List.mem_filterMap.mpr ⟨act', hact', hrun⟩), ids, ids,
        hfirst.cards he hact]

theorem ids_erase (e : Recorded σ ρ ε) (phase : Phase) :
    e.ids phase = ((Recorded.erase e).scheduler.slots.get phase).map (·.id) := by
  unfold ids cards Recorded.erase Recorded.eraseScheduler
  rw [ByPhase.get_map, List.map_map, List.map_map]
  rfl

/-! ### Phase after phase -/

/-- After so many runs of phases the next one is that of the phase whose turn it is. -/
def Awaits (e : Recorded σ ρ ε) (n : Nat) : Prop :=
  match e.scheduler.next with
  | .phase phase => Phase.all[n % 3]? = some phase
  | .endOfFrame => n % 3 = 0

/-- The runs of phases up to now are of one phase after the other, the last of them in the frame that has begun last, and
only the last of them may have failed, which poisons the scheduler. -/
structure InTurn (e : Recorded σ ρ ε) (runs : List (PhaseRun ρ)) : Prop where
  places : ∀ (k : Nat) (run : PhaseRun ρ), runs[k]? = some run → run.IsAt k
  frame : e.scheduler.frame = (runs.length + 2) / 3
  done : ∀ run ∈ runs.dropLast, run.IsDone
  awaits : e.scheduler.poisoned = false → (∀ run ∈ runs, run.IsDone) ∧ e.Awaits runs.length

variable {runs : List (PhaseRun ρ)}

theorem InTurn.congr (h : e.InTurn runs) (hnext : e'.scheduler.next = e.scheduler.next)
    (hframe : e'.scheduler.frame = e.scheduler.frame)
    (hpoisoned : e.scheduler.poisoned = true → e'.scheduler.poisoned = true) : e'.InTurn runs where
  places := h.places
  frame := hframe.trans h.frame
  done := h.done
  awaits hlive := by
    have hbefore : e.scheduler.poisoned = false := live_before hpoisoned hlive
    obtain ⟨hdone, hawaits⟩ := h.awaits hbefore
    refine ⟨hdone, ?_⟩
    unfold Awaits
    rw [hnext]
    exact hawaits

/-- The early phase is the first of a frame. -/
theorem frame_in_turn {n : Nat} {phase : Phase} (h : Phase.all[n % 3]? = some phase) :
    (if phase = .early then (n + 2) / 3 + 1 else (n + 2) / 3) = n / 3 + 1 := by
  have hlt := Nat.mod_lt n (by decide : 0 < 3)
  have hcases : n % 3 = 0 ∨ n % 3 = 1 ∨ n % 3 = 2 := by omega
  obtain hn | hn | hn := hcases <;> rw [hn] at h <;> cases h
  · rw [if_pos rfl]
    omega
  · rw [if_neg (by decide)]
    omega
  · rw [if_neg (by decide)]
    omega

/-- A phase that may run is the one whose turn it is. -/
theorem InTurn.concat (h : e.InTurn runs) {run : PhaseRun ρ} (hcheck : e.scheduler.check (.phase run.phase) = .ok ())
    (hframe : run.frame = (e.beginPhase run.phase).scheduler.frame) :
    (∀ (k : Nat) (run' : PhaseRun ρ), (runs ++ [run])[k]? = some run' → run'.IsAt k) ∧
      (e.beginPhase run.phase).scheduler.frame = ((runs ++ [run]).length + 2) / 3 ∧ ∀ run ∈ runs, run.IsDone := by
  obtain ⟨_, hlive, hnext⟩ := check_eq_ok hcheck
  obtain ⟨hdone, hawaits⟩ := h.awaits hlive
  unfold Awaits at hawaits
  rw [hnext] at hawaits
  have hbegun : (e.beginPhase run.phase).scheduler.frame = runs.length / 3 + 1 := by
    rw [scheduler_beginPhase]
    dsimp only
    rw [h.frame]
    exact frame_in_turn hawaits
  refine ⟨fun k run' hk => ?_, ?_, hdone⟩
  · rw [List.getElem?_append] at hk
    split at hk
    · exact h.places k run' hk
    -- beyond the runs up to now there is only the one that is made now
    · have hlast : k = runs.length := by
        obtain ⟨hlt, _⟩ := List.getElem?_eq_some_iff.mp hk
        rw [List.length_singleton] at hlt
        omega
      rw [hlast, Nat.sub_self] at hk
      cases hk
      rw [hlast]
      exact ⟨hawaits, hframe.trans hbegun⟩
  · rw [hbegun, List.length_append, List.length_singleton]
    omega

theorem next_awaits {n : Nat} {phase : Phase} (h : Phase.all[n % 3]? = some phase) :
    match (Step.phase phase).next with
    | .phase phase => Phase.all[(n + 1) % 3]? = some phase
    | .endOfFrame => (n + 1) % 3 = 0 := by
  have hlt := Nat.mod_lt n (by decide : 0 < 3)
  have hcases : n % 3 = 0 ∨ n % 3 = 1 ∨ n % 3 = 2 := by omega
  obtain hn | hn | hn := hcases <;> rw [hn] at h <;> cases h
  · have hnext : (n + 1) % 3 = 1 := by omega
    rw [hnext]
    rfl
  · have hnext : (n + 1) % 3 = 2 := by omega
    rw [hnext]
    rfl
  · have hnext : (n + 1) % 3 = 0 := by omega
    rw [hnext]
    rfl

/-- One act keeps the runs of phases in turn. -/
theorem Does.inTurn (h : Does sys e act e') (hturn : e.InTurn runs) : e'.InTurn (runs ++ act.run?.toList) := by
  cases h with
  | routing h =>
    show InTurn _ (runs ++ [])
    rw [List.append_nil]
    exact hturn.congr (h.accounts .early).next (h.accounts .early).frame (h.accounts .early).sticky
  | joining h =>
    show InTurn _ (runs ++ [])
    rw [List.append_nil]
    obtain ⟨_, _, _, hscheduler⟩ := h.exists_scheduler
    exact hturn.congr (by rw [hscheduler]) (by rw [hscheduler]) fun hpoisoned => by rw [hscheduler]; exact hpoisoned
  | @done e₁ run _ hcheck h =>
    obtain ⟨hplaces, hframe, hdone⟩ := hturn.concat hcheck h.frame
    have hrun : run.IsDone := h.verdict
    refine ⟨hplaces, h.accounts.frame.trans hframe, ?_,
      fun _ => ⟨List.forall_mem_append.mpr ⟨hdone, List.forall_mem_singleton.mpr hrun⟩, ?_⟩⟩
    · show ∀ before ∈ (runs ++ [run]).dropLast, before.IsDone
      rw [List.dropLast_concat]
      exact hdone
    · have hnext : e₁.scheduler.next = .phase run.phase := by
        rw [h.accounts.next, scheduler_beginPhase]
        exact (check_eq_ok hcheck).2.2
      have hlast := (hplaces runs.length run (by simp)).1
      show match e₁.scheduler.next.next with
        | .phase phase => Phase.all[(runs ++ [run]).length % 3]? = some phase
        | .endOfFrame => (runs ++ [run]).length % 3 = 0
      rw [hnext, List.length_append, List.length_singleton]
      exact next_awaits hlast
  | @broken e₁ run _ hcheck h =>
    obtain ⟨hplaces, hframe, hdone⟩ := hturn.concat hcheck h.frame
    refine ⟨hplaces, h.accounts.frame.trans hframe, ?_, nofun⟩
    show ∀ before ∈ (runs ++ [run]).dropLast, before.IsDone
    rw [List.dropLast_concat]
    exact hdone
  | ending hcheck =>
    show InTurn _ (runs ++ [])
    rw [List.append_nil]
    obtain ⟨_, hlive, hnext⟩ := check_eq_ok hcheck
    obtain ⟨hdone, hawaits⟩ := hturn.awaits hlive
    unfold Awaits at hawaits
    rw [hnext] at hawaits
    refine ⟨hturn.places, hturn.frame, hturn.done, fun _ => ⟨hdone, ?_⟩⟩
    unfold Awaits
    dsimp only
    rw [hnext]
    show Phase.all[runs.length % 3]? = some .early
    rw [hawaits]
    rfl
  | closing =>
    show InTurn _ (runs ++ [])
    rw [List.append_nil]
    exact hturn.congr rfl rfl id

theorem Story.inTurn (h : Story sys e acts e') (hturn : e.InTurn runs) : e'.InTurn (runs ++ Act.runs acts) := by
  induction h generalizing runs with
  | nil =>
    show InTurn _ (runs ++ [])
    rw [List.append_nil]
    exact hturn
  | @cons e e₁ e' act acts hfirst _ ih =>
    have hrest := ih (hfirst.inTurn hturn)
    rw [List.append_assoc] at hrest
    rw [Act.runs_cons]
    exact hrest

/-! ### Runs of operations -/

variable {ops : List (Op σ)} {chapters : List (List (Act ρ))}

theorem Chronicle.inTurn (h : Chronicle sys e ops chapters e') (hturn : e.InTurn runs) :
    e'.InTurn (runs ++ Act.runs chapters.flatten) := by
  induction h generalizing runs with
  | nil =>
    show InTurn _ (runs ++ [])
    rw [List.append_nil]
    exact hturn
  | cons hfirst _ ih =>
    have hrest := ih (hfirst.tale.story.inTurn (hturn.congr rfl rfl id))
    rw [List.append_assoc, ← Act.runs_append] at hrest
    exact hrest

theorem Chronicle.length (h : Chronicle sys e ops chapters e') : chapters.length = ops.length := by
  induction h with
  | nil => rfl
  | cons _ _ ih => exact congrArg (· + 1) ih

/-- The first chapters are about the first operations. -/
theorem Chronicle.take (h : Chronicle sys e ops chapters e') (i : Nat) :
    Chronicle sys e (ops.take i) (chapters.take i) (Engine.run sys.recorded e ((ops.take i).map Op.marked)) := by
  induction h generalizing i with
  | nil e =>
    rw [List.take_nil, List.take_nil]
    exact .nil e
  | @cons e e' op ops acts chapters hfirst _ ih =>
    cases i with
    | zero => exact .nil e
    | succ i => exact .cons hfirst (ih i)

/-- A chapter is about one operation, on the engine that those before have left. -/
theorem Chronicle.chapter (h : Chronicle sys e ops chapters e') {i : Nat} {op : Op σ} {acts : List (Act ρ)}
    (hop : ops[i]? = some op) (hacts : chapters[i]? = some acts) :
    let before := Engine.run sys.recorded e ((ops.take i).map Op.marked)
    Performed sys before op acts (perform sys.recorded before op.marked) := by
  induction h generalizing i with
  | nil => cases hop
  | cons hfirst _ ih =>
    cases i with
    | zero =>
      cases hop
      cases hacts
      exact hfirst
    | succ i => exact ih hop hacts

theorem Chronicle.settings (h : Chronicle sys e ops chapters e') : e'.scheduler.settings = e.scheduler.settings := by
  induction h with
  | nil => rfl
  | cons hfirst _ ih => exact ih.trans hfirst.tale.story.settings

/-- How the calls of a run are ordered. Every operation has a chapter of acts, which make its calls. The updates and
applications among them are those of the runs of phases, each made with the systems that are registered when its
operation begins. The phases are run in turn, none of them twice in a frame, and only the last run may have failed. -/
structure Sequenced (sys : System σ ρ ε) (settings : Settings.Scheduling) (screen : Screen) (host : ε)
    (ops : List (Op σ)) (chapters : List (List (Act ρ))) : Prop where
  length : chapters.length = ops.length
  log : ∀ i, (record sys settings screen host (ops.take i)).log = (chapters.take i).flatten.flatMap Act.calls
  aside : ∀ act ∈ chapters.flatten, act.run? = none → ∀ call ∈ act.calls, call.IsAside
  steps : Call.steps (record sys settings screen host ops).log = (Act.runs chapters.flatten).flatMap PhaseRun.steps
  runs : ∀ run ∈ Act.runs chapters.flatten, run.KeepsOrder sys
  registered : ∀ i op acts, ops[i]? = some op → chapters[i]? = some acts → ∀ phaseRun ∈ Act.runs acts,
    let before := run sys (start settings screen host) (ops.take i)
    phaseRun.parallel = op.inParallel settings phaseRun.phase ∧
      phaseRun.systems = (before.scheduler.slots.get phaseRun.phase).map (·.id)
  phases : ∀ k run, (Act.runs chapters.flatten)[k]? = some run → Phase.all[k % 3]? = some run.phase
  frames : ∀ k run, (Act.runs chapters.flatten)[k]? = some run → run.frame = k / 3 + 1
  once : ((Act.runs chapters.flatten).map fun run => (run.frame, run.phase)).Nodup
  done : ∀ run ∈ (Act.runs chapters.flatten).dropLast, run.IsDone

/-- Runs that come in turn are of different phases or different frames. -/
theorem InTurn.once (h : e.InTurn runs) : (runs.map fun run => (run.frame, run.phase)).Nodup := by
  refine List.pairwise_map.mpr (List.pairwise_iff_getElem.mpr fun i j hi hj hij hsame => ?_)
  obtain ⟨hframe, hphase⟩ := Prod.mk.inj hsame
  have hplace := h.places i _ (List.getElem?_eq_getElem hi)
  have hplace' := h.places j _ (List.getElem?_eq_getElem hj)
  exact Nat.ne_of_lt hij (hplace.unique hplace' hframe hphase)

/-- The acts of a run put its calls in order. -/
theorem Chronicle.sequenced {settings : Settings.Scheduling} {screen : Screen} {host : ε}
    (h : Chronicle sys (start settings screen (host, [])) ops chapters (record sys settings screen host ops)) :
    Sequenced sys settings screen host ops chapters := by
  have hstart := Orderly.start (σ := σ) settings screen (host, ([] : List (Call ρ)))
  have hruns : ∀ run ∈ Act.runs chapters.flatten, run.IsRegular sys ∧ run.systems.Nodup := h.runs hstart
  have hturn : (start settings screen (host, []) : Recorded σ ρ ε).InTurn [] := by
    refine ⟨nofun, ?_, nofun, fun _ => ⟨nofun, ?_⟩⟩
    · show 0 = (0 + 2) / 3
      rfl
    · show Phase.all[0 % 3]? = some .early
      rfl
  have hturns := h.inTurn hturn
  refine {
    length := h.length
    log := fun i => (h.take i).log
    aside := h.aside
    steps := ?_
    runs := fun run hmem => (hruns run hmem).1.keepsOrder (hruns run hmem).2
    registered := ?_
    phases := fun k run hk => (hturns.places k run hk).1
    frames := fun k run hk => (hturns.places k run hk).2
    once := hturns.once
    done := hturns.done }
  · have hlog : (record sys settings screen host ops).log = chapters.flatten.flatMap Act.calls := h.log
    rw [hlog]
    exact Act.steps h.aside fun run hmem => (hruns run hmem).1
  · intro i op acts hop hacts phaseRun hmem
    have hperformed := h.chapter hop hacts
    have horderly := orderly_record sys settings screen host (ops.take i)
    refine ⟨?_, ?_⟩
    · rw [hperformed.parallel phaseRun hmem, (h.take i).settings]
      rfl
    · have hframe : op.IsOfFrame := by
        by_contra hother
        rw [hperformed.notOfFrame hother] at hmem
        cases hmem
      rw [← erase_record, ← ids_erase]
      exact hperformed.tale.story.systems (horderly.congr (fun _ => rfl) rfl) (hperformed.ofFrame hframe) phaseRun hmem

end Engine

end Cadence
