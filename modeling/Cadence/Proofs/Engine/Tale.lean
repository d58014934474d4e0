import Cadence.Proofs.Engine.History

/-!
Every operation as a story: the acts it consists of, which of them end a frame, and whom its error names.
-/

namespace Cadence.Engine

variable {σ ρ ε α β : Type}

open Call

/-- The acts are what an operation has done. If it is done, nobody has failed in them; if it says that a system has
failed, this was the first to fail; and if it does not say so, nothing has been broken off. -/
structure Tale (sys : System σ ρ ε) (e : Recorded σ ρ ε) (acts : List (Act ρ))
    (r : Except EngineError α × Recorded σ ρ ε) : Prop where
  story : Story sys e acts r.2
  done : ∀ a, r.1 = .ok a → firstFailure? (acts.flatMap Act.calls) = none
  blames : ∀ phase name fault, r.1 = .error (.systemFailed phase name fault) →
    Blames e.members (acts.flatMap Act.calls) (.systemFailed phase name fault)
  clean : (∀ phase name fault, r.1 ≠ .error (.systemFailed phase name fault)) →
    r.2.scheduler.poisoned = e.scheduler.poisoned

namespace Tale

variable {sys : System σ ρ ε} {e e₁ : Recorded σ ρ ε} {acts acts' : List (Act ρ)}
  {r : Except EngineError α × Recorded σ ρ ε}

theorem nil (a : α) : Tale sys e [] (.ok a, e) := ⟨.nil e, fun _ _ => rfl, nofun, fun _ => rfl⟩

/-- A refusal does nothing and says so. -/
theorem refused {err : EngineError} (herr : ∀ phase name fault, err ≠ .systemFailed phase name fault) :
    Tale sys e [] ((.error err, e) : Except EngineError α × Recorded σ ρ ε) where
  story := .nil e
  done := nofun
  blames phase name fault h := absurd (Except.error.inj h) (herr phase name fault)
  clean _ := rfl

theorem error {err : EngineError} (h : Tale sys e acts ((.error err, e₁) : Except EngineError α × Recorded σ ρ ε)) :
    Tale sys e acts ((.error err, e₁) : Except EngineError β × Recorded σ ρ ε) where
  story := h.story
  done := nofun
  blames phase name fault herr := h.blames phase name fault (congrArg _ (Except.error.inj herr))
  clean hne := h.clean fun phase name fault herr => hne phase name fault (congrArg _ (Except.error.inj herr))

theorem map (h : Tale sys e acts r) (f : α → β) : Tale sys e acts (r.1.map f, r.2) := by
  obtain ⟨err | a, e₁⟩ := r
  · exact h.error
  · exact ⟨h.story, fun _ _ => h.done a rfl, nofun, fun _ => h.clean nofun⟩

/-- One operation after another that is done and has registered nobody. -/
theorem bind {a : α} {r : Except EngineError β × Recorded σ ρ ε} (h : Tale sys e acts (.ok a, e₁))
    (hmembers : e₁.members = e.members) (h' : Tale sys e₁ acts' r) : Tale sys e (acts ++ acts') r := by
  have hclean := h.done a rfl
  refine ⟨h.story.append h'.story, fun b hb => ?_, fun phase name fault herr => ?_, fun hne => ?_⟩
  · rw [List.flatMap_append, firstFailure?_append, hclean, h'.done b hb]
    rfl
  · rw [List.flatMap_append]
    -- nobody has failed before, so whoever fails now is the first
    have hblames := h'.blames phase name fault herr
    rw [hmembers] at hblames
    exact hblames.after hclean
  · exact (h'.clean hne).trans (h.clean nofun)

/-- One act, with the outcome that its calls tell. -/
theorem single {act : Act ρ} (hdoes : Does sys e act r.2) (hverdict : Verdict e.members act.calls r.1)
    (hclean : firstFailure? act.calls = none → r.2.scheduler.poisoned = e.scheduler.poisoned) : Tale sys e [act] r := by
  have hcalls : [act].flatMap Act.calls = act.calls := List.flatMap_singleton ..
  obtain ⟨err | a, e₁⟩ := r
  · refine ⟨.single hdoes, nofun, ?_, fun hne => ?_⟩
    · rintro phase name fault ⟨⟩
      rw [hcalls]
      exact hverdict
    · obtain ⟨card, _, fault, _, rfl⟩ := hverdict
      exact absurd rfl (hne _ _ _)
  · refine ⟨.single hdoes, fun _ _ => ?_, nofun, fun _ => hclean hverdict⟩
    rw [hcalls]
    exact hverdict

end Tale

section operations

variable (sys : System σ ρ ε)

theorem deliver_tale (e : Recorded σ ρ ε) :
    ∃ calls, Tale sys e [.routing calls] (deliver sys.recorded e) ∧
      Tells e calls (deliver sys.recorded e).2 := by
  obtain ⟨calls, htells, hverdict, _⟩ := deliver_tells sys e
  exact ⟨calls, .single (.routing htells) hverdict (htells.accounts .early).clean, htells⟩

theorem route_tale (e : Recorded σ ρ ε) (event : Event) :
    ∃ calls, Tale sys e [.routing calls] (route sys.recorded e event) := by
  obtain ⟨calls, htells, hverdict, hpoisoned, _⟩ := route_tells sys e event
  exact ⟨calls, .single (.routing htells) hverdict fun _ => hpoisoned⟩

theorem immediately_tale (e : Recorded σ ρ ε) (op : World → Except WorldError α × World) :
    ∃ acts, Tale sys { e with world := (op e.world).2 } acts (immediately sys.recorded e op) ∧
      ∀ act ∈ acts, ∃ calls, act = .routing calls := by
  unfold immediately
  rcases op e.world with ⟨err | a, world⟩
  · exact ⟨[], .refused nofun, by simp⟩
  · obtain ⟨calls, htale, _⟩ := deliver_tale sys { e with world }
    refine ⟨[.routing calls], ?_, by simp⟩
    dsimp only
    rcases hresult : deliver sys.recorded { e with world } with ⟨err | n, e₁⟩ <;> rw [hresult] at htale
    · exact htale.map fun _ => a
    · exact htale.map fun _ => a

/-! ### Phases -/

theorem check_refusal {e : Recorded σ ρ ε} {step : Step} {err : EngineError}
    (h : e.scheduler.check step = .error err) (phase : Phase) (name : String) (fault : Fault) :
    err ≠ .systemFailed phase name fault := by
  rintro rfl
  rw [Scheduler.check] at h
  split at h
  · cases h
  · split at h
    · cases h
    · split at h <;> cases h

/-- A phase that may run is one act; otherwise nothing happens. -/
theorem runPhase_tale {e : Recorded σ ρ ε} (he : e.Orderly) (phase : Phase) (dt : Float32) (parallel : Bool) :
    let r := runPhase sys.recorded e phase dt parallel
    ∃ runs : List (PhaseRun ρ), Tale sys e (runs.map .phase) r ∧
      (∀ run ∈ runs, run.phase = phase ∧ run.parallel = parallel) ∧
      ∀ report, r.1 = .ok report → ∃ run, runs = [run] ∧ run.IsDone ∧ report = run.report sys := by
  unfold runPhase
  cases hcheck : e.scheduler.check (.phase phase) with
  | error err => exact ⟨[], .refused (check_refusal hcheck), by simp, nofun⟩
  | ok _ =>
    obtain ⟨run, rfl, rfl, hran⟩ := phaseBody_ran sys (he.beginPhase phase).place (he.beginPhase phase).idle phase dt
      parallel
    have hverdict := hran.verdict
    rw [members_congr (roster_beginPhase run.phase e)] at hverdict
    dsimp only
    rcases hresult : phaseBody sys.recorded run.phase dt run.parallel (e.beginPhase run.phase) with
      ⟨err | report, e₁⟩ <;>
      rw [hresult] at hran hverdict
    · have hfailed : firstFailure? run.calls ≠ none := Blames.failed hverdict
      exact ⟨[run], .single (.broken hcheck hran) hverdict fun hclean => absurd hclean hfailed, by simp, nofun⟩
    · refine ⟨[run], .single (.done hcheck hran) hverdict fun hclean => ?_, by simp, ?_⟩
      · exact (hran.accounts.clean hclean).trans (by rw [scheduler_beginPhase])
      · rintro _ ⟨⟩
        exact ⟨run, rfl, hverdict, (hran.done report rfl).2⟩

theorem ofFrame_phases (runs : List (PhaseRun ρ)) : ∀ act ∈ runs.map Act.phase, act.IsOfFrame := by
  intro act hmem
  obtain ⟨run, _, rfl⟩ := List.mem_map.mp hmem
  trivial

theorem ending_not_mem_phases (runs : List (PhaseRun ρ)) : .ending ∉ runs.map Act.phase := by simp

theorem Story.members {sys : System σ ρ ε} {e e' : Recorded σ ρ ε} {acts : List (Act ρ)} (h : Story sys e acts e')
    (he : e.Orderly) (hacts : ∀ act ∈ acts, act.IsOfFrame) : e'.Orderly ∧ ∀ phase, e'.cards phase = e.cards phase := by
  refine h.preserves (I := fun e' => e'.Orderly ∧ ∀ phase, e'.cards phase = e.cards phase) ?_ ⟨he, fun _ => rfl⟩
  rintro e₁ act e₂ hmem hdoes ⟨h₁, hcards⟩
  exact ⟨hdoes.orderly h₁, fun phase => (hdoes.cards h₁ (hacts act hmem) phase).trans (hcards phase)⟩

/-- Phases one after the other are as many acts, up to the first that is not done. -/
theorem runPhases_tale {e : Recorded σ ρ ε} (he : e.Orderly) (dt : Float32) (phases : List Phase) :
    let r := runPhases sys.recorded e dt phases
    ∃ runs : List (PhaseRun ρ), Tale sys e (runs.map .phase) r ∧
      (∀ run ∈ runs, run.parallel = e.scheduler.settings.parallel.get run.phase) ∧
      ∀ reports, r.1 = .ok reports → (∀ run ∈ runs, run.IsDone) ∧ reports = runs.map (PhaseRun.report sys) := by
  induction phases generalizing e with
  | nil =>
    refine ⟨[], .nil _, by simp, ?_⟩
    rintro reports ⟨⟩
    exact ⟨by simp, rfl⟩
  | cons phase rest ih =>
    obtain ⟨runs, htale, hflags, hdone⟩ := runPhase_tale sys he phase dt (e.scheduler.settings.parallel.get phase)
    have hparallel : ∀ run ∈ runs, run.parallel = e.scheduler.settings.parallel.get run.phase := by
      intro run hmem
      obtain ⟨rfl, hflag⟩ := hflags run hmem
      exact hflag
    unfold runPhases
    rcases hresult : runPhase sys.recorded e phase dt (e.scheduler.settings.parallel.get phase) with
      ⟨err | report, e₁⟩ <;>
      rw [hresult] at htale hdone
    · exact ⟨runs, htale.error, hparallel, by rintro _ ⟨⟩⟩
    · obtain ⟨run, rfl, hrun, rfl⟩ := hdone report rfl
      obtain ⟨he₁, hcards⟩ := htale.story.members he (ofFrame_phases [run])
      obtain ⟨runs, hrest, hparallel', hdone⟩ := ih he₁
      rw [htale.story.settings] at hparallel'
      have hall := htale.bind (members_congr fun phase => roster_congr (hcards phase)) hrest
      refine ⟨run :: runs, hall.map (run.report sys :: ·),
        List.forall_mem_cons.mpr ⟨hparallel run List.mem_cons_self, hparallel'⟩, fun reports hreports => ?_⟩
      obtain ⟨reports, hok, rfl⟩ := exists_of_map_eq_ok hreports
      obtain ⟨hdone, rfl⟩ := hdone reports hok
      exact ⟨List.forall_mem_cons.mpr ⟨hrun, hdone⟩, rfl⟩

/-! ### The end of a frame -/

theorem Tells.abort {e e' : Recorded σ ρ ε} {calls : List (Call ρ)} (h : Tells e calls e') (he : e.IsIdle)
    (hfailed : firstFailure? calls ≠ none) (phase : Phase) : Tells e calls (e'.abort phase) where
  told := h.told
  accounts phase' := (h.accounts phase').abort hfailed phase
  cards phase' := by
    rw [cards_abort]
    split
    · rename_i hphase
      rw [hphase, (h.accounts phase).roster, he]
    · exact h.cards phase'

theorem Tells.check {e e' : Recorded σ ρ ε} {calls : List (Call ρ)} (h : Tells e calls e')
    (hclean : firstFailure? calls = none) (step : Step) : e'.scheduler.check step = e.scheduler.check step := by
  have haccounts := h.accounts .early
  unfold Scheduler.check
  rw [haccounts.closed, haccounts.next, haccounts.clean hclean]

theorem endFrame_tale {e : Recorded σ ρ ε} (he : e.Orderly) :
    let r := endFrame sys.recorded e
    ∃ acts, Tale sys e acts r ∧
      ((∃ a calls, r.1 = .ok a ∧ acts = [.routing calls, .ending]) ∨
        ((∃ err, r.1 = .error err) ∧ ∀ act ∈ acts, ∃ calls, act = .routing calls)) := by
  unfold endFrame
  cases hcheck : e.scheduler.check .endOfFrame with
  | error err => exact ⟨[], .refused (check_refusal hcheck), .inr ⟨⟨err, rfl⟩, by simp⟩⟩
  | ok _ =>
    obtain ⟨calls, htells, hverdict, _⟩ := deliver_tells sys e
    dsimp only
    rcases hresult : deliver sys.recorded e with ⟨err | n, e₁⟩ <;> rw [hresult] at htells hverdict
    · have hfailed : firstFailure? calls ≠ none := Blames.failed hverdict
      have hdoes : Does sys e (.routing calls) (e₁.abort .late) := .routing (htells.abort he.idle hfailed .late)
      exact ⟨[.routing calls], .single hdoes hverdict fun hclean => absurd hclean hfailed, .inr ⟨⟨err, rfl⟩, by simp⟩⟩
    · have hclean : firstFailure? calls = none := hverdict
      have hrouting : Tale sys e [.routing calls] ((.ok n, e₁) : Except EngineError Nat × Recorded σ ρ ε) :=
        .single (.routing htells) hverdict (htells.accounts .early).clean
      have hending : e₁.scheduler.check .endOfFrame = .ok () := (htells.check hclean _).trans hcheck
      exact ⟨[.routing calls, .ending],
        hrouting.bind (htells.accounts .early).members (.single (.ending hending) rfl fun _ => rfl),
        .inl ⟨_, calls, rfl, rfl⟩⟩

/-- A frame is its phases and its end, up to where it is broken off. -/
theorem runFrame_tale {e : Recorded σ ρ ε} (he : e.Orderly) (dt : Float32) :
    let r := runFrame sys.recorded e dt
    ∃ (runs : List (PhaseRun ρ)) (rest : List (Act ρ)), Tale sys e (runs.map .phase ++ rest) r ∧
      (∀ run ∈ runs, run.parallel = e.scheduler.settings.parallel.get run.phase) ∧
      ((∃ report calls, r.1 = .ok report ∧ rest = [.routing calls, .ending] ∧ (∀ run ∈ runs, run.IsDone) ∧
        report.phases = runs.map (PhaseRun.report sys)) ∨
      ((∃ err, r.1 = .error err) ∧ ∀ act ∈ rest, ∃ calls, act = .routing calls)) := by
  obtain ⟨runs, htale, hparallel, hdone⟩ := runPhases_tale sys he dt Phase.all
  unfold runFrame
  rcases hresult : runPhases sys.recorded e dt Phase.all with ⟨err | reports, e₁⟩ <;> rw [hresult] at htale hdone
  · refine ⟨runs, [], ?_, hparallel, .inr ⟨⟨err, rfl⟩, by simp⟩⟩
    rw [List.append_nil]
    exact htale.error
  · obtain ⟨hruns, rfl⟩ := hdone reports rfl
    obtain ⟨he₁, hcards⟩ := htale.story.members he (ofFrame_phases runs)
    obtain ⟨acts, hend, hends⟩ := endFrame_tale sys he₁
    have hall := htale.bind (members_congr fun phase => roster_congr (hcards phase)) hend
    refine ⟨runs, acts, ?_⟩
    dsimp only
    rcases hresult : endFrame sys.recorded e₁ with ⟨err | ⟨notice, flushed⟩, e₂⟩ <;> rw [hresult] at hall hends
    · refine ⟨hall.error, hparallel, .inr ⟨⟨err, rfl⟩, ?_⟩⟩
      obtain ⟨_, _, ⟨⟩, _⟩ | ⟨_, hacts⟩ := hends
      exact hacts
    · obtain ⟨_, calls, _, rfl⟩ | ⟨⟨_, ⟨⟩⟩, _⟩ := hends
      let report : FrameReport := ⟨e₂.scheduler.frame, runs.map (PhaseRun.report sys), notice, flushed⟩
      exact ⟨hall.map fun _ => report, hparallel, .inl ⟨report, calls, rfl, rfl, hruns, rfl⟩⟩

/-! ### Registration and shutdown -/

theorem offer_told (s : Marked σ) (host : ε × List (Call ρ)) (item : Handle × Entity × Component) :
    let r := offer sys.recorded (s, host) item
    ∃ calls, r.2.2.2 = host.2 ++ calls ∧ (∀ call ∈ calls, call.IsTold) ∧ r.2.1.id = s.id ∧
      ∀ a, r.1 = .ok a → firstFailure? calls = none := by
  obtain ⟨h, owner, c⟩ := item
  unfold offer
  dsimp only
  split
  · have hreply : sys.recorded.added h owner c s host =
        let reply := sys.added h owner c s.system host.1
        ⟨reply.outcome, ⟨reply.system, s.id⟩, reply.host,
          host.2 ++ [.told s.id (.attached h owner) reply.outcome]⟩ := rfl
    rw [hreply]
    generalize sys.added h owner c s.system host.1 = reply
    refine ⟨[.told s.id (.attached h owner) reply.outcome], rfl, by simp [IsTold], rfl, fun a ha => ?_⟩
    dsimp only at ha
    rw [ha]
    rfl
  · exact ⟨[], (List.append_nil _).symm, by simp, rfl, fun _ _ => rfl⟩

theorem offers_told (s : Marked σ) (host : ε × List (Call ρ)) (items : List (Handle × Entity × Component)) :
    let r := inOrder (offer sys.recorded) (s, host) items
    ∃ calls, r.2.2.2 = host.2 ++ calls ∧ (∀ call ∈ calls, call.IsTold) ∧ r.2.1.id = s.id ∧
      ∀ a, r.1 = .ok a → firstFailure? calls = none := by
  induction items generalizing s host with
  | nil => exact ⟨[], (List.append_nil _).symm, by simp, rfl, fun _ _ => rfl⟩
  | cons item rest ih =>
    obtain ⟨calls, hlog, htold, hid, hclean⟩ := offer_told sys s host item
    unfold inOrder
    rcases hresult : offer sys.recorded (s, host) item with ⟨fault | _, s', host'⟩ <;>
      rw [hresult] at hlog hid hclean
    · exact ⟨calls, hlog, htold, hid, by rintro _ ⟨⟩⟩
    · obtain ⟨calls', hlog', htold', hid', hclean'⟩ := ih s' host'
      refine ⟨calls ++ calls', ?_, List.forall_mem_append.mpr ⟨htold, htold'⟩, hid'.trans hid, fun a ha => ?_⟩
      · dsimp only at hlog hlog' ⊢
        rw [hlog', hlog, List.append_assoc]
      · rw [firstFailure?_append, hclean () rfl, hclean' a ha]
        rfl

/-- The acts in which a system is offered to the engine. -/
theorem Tale.joining {sys : System σ ρ ε} {e : Recorded σ ρ ε} {calls : List (Call ρ)}
    {r : Except EngineError α × Recorded σ ρ ε} (h : Joins e calls r.2)
    (hdone : ∀ a, r.1 = .ok a → firstFailure? calls = none)
    (herr : ∀ phase name fault, r.1 ≠ .error (.systemFailed phase name fault)) : Tale sys e [.joining calls] r where
  story := .single (.joining h)
  done a ha := by
    rw [List.flatMap_singleton]
    exact hdone a ha
  blames phase name fault h := absurd h (herr phase name fault)
  clean _ := by
    obtain ⟨_, _, _, hscheduler⟩ := h.exists_scheduler
    rw [hscheduler]

theorem register_tale (e : Recorded σ ρ ε) (phase : Phase) (s : σ) :
    ∃ acts, Tale sys e acts (register sys.recorded e phase ⟨s, 0⟩) ∧
      ∀ act ∈ acts, (∃ calls, act = .routing calls) ∨ ∃ calls, act = .joining calls := by
  unfold register
  dsimp only
  split
  · exact ⟨[], .refused nofun, by simp⟩
  split
  · exact ⟨[], .refused nofun, by simp⟩
  split
  · exact ⟨[], .refused nofun, by simp⟩
  obtain ⟨calls, htale, htells⟩ := deliver_tale sys e
  rcases hresult : deliver sys.recorded e with ⟨err | n, e₁⟩ <;> rw [hresult] at htale htells
  · exact ⟨[.routing calls], htale.error, by simp⟩
  have hinit : sys.recorded.init e₁.world phase e₁.scheduler.nextId ⟨s, 0⟩ e₁.host =
      let reply := sys.init e₁.world phase e₁.scheduler.nextId s e₁.host.1
      ⟨reply.outcome, ⟨reply.system, e₁.scheduler.nextId⟩, reply.host,
        e₁.log ++ [.init e₁.scheduler.nextId reply.outcome]⟩ := rfl
  dsimp only
  rw [hinit]
  generalize sys.init e₁.world phase e₁.scheduler.nextId s e₁.host.1 = reply
  have hmembers : e₁.members = e.members := (htells.accounts .early).members
  dsimp only
  cases houtcome : reply.outcome with
  | error fault =>
    refine ⟨[.routing calls, .joining [.init e₁.scheduler.nextId (.error fault)]], htale.bind hmembers ?_, by simp⟩
    exact .joining ⟨by simp [IsAside], rfl, rfl, rfl, .inl rfl⟩ nofun nofun
  | ok initialised =>
    obtain ⟨told, hlog, htold, hid, hclean⟩ := offers_told sys ⟨reply.system, e₁.scheduler.nextId⟩
      (reply.host, e₁.log ++ [.init e₁.scheduler.nextId (.ok initialised)]) e₁.world.store.attached
    have hjoin : ∀ call ∈ (.init e₁.scheduler.nextId (.ok initialised) : Call ρ) :: told, call.IsAside :=
      List.forall_mem_cons.mpr ⟨trivial, fun call hmem => (htold call hmem).isAside⟩
    dsimp only at hlog hid hclean ⊢
    rcases hresult : inOrder (offer sys.recorded) (⟨reply.system, e₁.scheduler.nextId⟩,
        reply.host, e₁.log ++ [.init e₁.scheduler.nextId (.ok initialised)]) e₁.world.store.attached with
        ⟨fault | _, s', host⟩ <;>
      rw [hresult] at hlog hid hclean ⊢
    · refine ⟨[.routing calls, .joining (.init e₁.scheduler.nextId (.ok initialised) :: told ++ [.shutdown s'.id])],
        htale.bind hmembers ?_, by simp⟩
      refine .joining ⟨?_, ?_, rfl, rfl, .inl rfl⟩ nofun nofun
      · exact List.forall_mem_append.mpr ⟨hjoin, by simp [IsAside]⟩
      · show host.2 ++ [.shutdown s'.id] = _
        dsimp only at hlog
        rw [hlog]
        simp
    · refine ⟨[.routing calls, .joining (.init e₁.scheduler.nextId (.ok initialised) :: told)],
        htale.bind hmembers ?_, by simp⟩
      refine .joining ⟨hjoin, ?_, rfl, rfl, .inr ⟨phase, _, ?_, rfl⟩⟩ (fun _ _ => hclean () rfl) nofun
      · show host.2 = _
        dsimp only at hlog
        rw [hlog]
        simp
      · dsimp only at hid
        simp [Slot.card, Slot.onSystem, hid]

theorem shutdowns_told (slots : List (Slot (Marked σ) ρ)) (host : ε × List (Call ρ)) :
    (slots.foldl (fun host slot => sys.recorded.shutdown slot.system host) host).2 =
      host.2 ++ slots.map fun slot => .shutdown slot.system.id := by
  induction slots generalizing host with
  | nil => exact (List.append_nil _).symm
  | cons slot rest ih =>
    rw [List.foldl_cons, ih]
    show host.2 ++ [.shutdown slot.system.id] ++ _ = _
    rw [List.append_assoc]
    rfl

theorem shutdown_tale (e : Recorded σ ρ ε) :
    ∃ acts, Tale sys e acts ((.ok .nothing, shutdown sys.recorded e) : Except EngineError Answer × Recorded σ ρ ε) ∧
      ∀ act ∈ acts, ∃ calls, act = .closing calls := by
  unfold shutdown
  split
  · exact ⟨[], .nil _, by simp⟩
  · let slots := e.scheduler.allSlots.mergeSort fun a b => b.id ≤ a.id
    let host := slots.foldl (fun host slot => sys.recorded.shutdown slot.system host) e.host
    let calls : List (Call ρ) := slots.map fun slot => .shutdown slot.system.id
    have haside : ∀ call ∈ calls, call.IsAside := by
      intro call hmem
      obtain ⟨slot, _, rfl⟩ := List.mem_map.mp hmem
      trivial
    have hhost : host = (host.1, e.log ++ calls) := Prod.ext rfl (shutdowns_told sys slots e.host)
    have hclosing : Does sys e (.closing calls) { e with
        scheduler := { e.scheduler with closed := true, slots := .const [], names := [] }
        host } := by
      rw [hhost]
      exact .closing host.1 haside
    have hclean : firstFailure? calls = none := by
      refine List.findSome?_eq_none_iff.mpr fun call hmem => ?_
      obtain ⟨slot, _, rfl⟩ := List.mem_map.mp hmem
      rfl
    exact ⟨[.closing calls], .single hclosing hclean fun _ => rfl, by simp⟩

end operations

/-! ### Operations -/

/-- The operation is there to end a frame. -/
def Op.EndsFrame : Op σ → Prop
  | endFrame | runFrame _ => True
  | _ => False

/-- The operation registers nobody and shuts nobody down. -/
def Op.IsOfFrame : Op σ → Prop
  | register .. | shutdown => False
  | _ => True

/-- A frame has been completed. -/
def Completed (op : Op σ) (answer : Except EngineError Answer) : Prop := op.EndsFrame ∧ ∃ a, answer = .ok a

/-- A frame ends with the last act of an operation, or it does not end. -/
inductive Ends (completed : Prop) : List (Act ρ) → Prop
  | last {rest : List (Act ρ)} (h : completed) (hrest : .ending ∉ rest) : Ends completed (rest ++ [.ending])
  | never {acts : List (Act ρ)} (h : ¬ completed) (hacts : .ending ∉ acts) : Ends completed acts

/-- What an operation answers about the phases it has run. -/
def Answer.reports : Answer → List PhaseReport
  | phase report => [report]
  | frame report => report.phases
  | _ => []

/-- Whether the updates of a phase are made on workers. -/
def Op.inParallel (settings : Settings.Scheduling) (phase : Phase) : Op σ → Bool
  | runPhase _ _ parallel => parallel
  | _ => settings.parallel.get phase

/-- The acts that an operation consists of, after its own change of the world. -/
structure Performed (sys : System σ ρ ε) (e : Recorded σ ρ ε) (op : Op σ) (acts : List (Act ρ))
    (r : Except EngineError Answer × Recorded σ ρ ε) : Prop where
  tale : Tale sys { e with world := op.edited e.world } acts r
  ofFrame : op.IsOfFrame → ∀ act ∈ acts, act.IsOfFrame
  notOfFrame : ¬ op.IsOfFrame → Act.runs acts = []
  parallel : ∀ run ∈ Act.runs acts, run.parallel = op.inParallel e.scheduler.settings run.phase
  ends : Ends (Completed op r.1) acts
  reports : ∀ answer, r.1 = .ok answer →
    (∀ run ∈ Act.runs acts, run.IsDone) ∧ answer.reports = (Act.runs acts).map (PhaseRun.report sys)

/-- Acts in which systems are only told of events run no phase and end no frame. -/
theorem routing_only {acts : List (Act ρ)} (h : ∀ act ∈ acts, ∃ calls, act = .routing calls) :
    .ending ∉ acts ∧ (∀ act ∈ acts, act.IsOfFrame) ∧ Act.runs acts = [] := by
  refine ⟨fun hmem => ?_, fun act hmem => ?_, List.filterMap_eq_nil_iff.mpr fun act hmem => ?_⟩
  · obtain ⟨_, ⟨⟩⟩ := h _ hmem
  · obtain ⟨_, rfl⟩ := h act hmem
    trivial
  · obtain ⟨_, rfl⟩ := h act hmem
    rfl

/-- An operation that runs no phase and ends no frame. -/
theorem performed_of_runs_eq_nil {sys : System σ ρ ε} {e : Recorded σ ρ ε} {op : Op σ} {acts : List (Act ρ)}
    {r : Except EngineError Answer × Recorded σ ρ ε} (htale : Tale sys { e with world := op.edited e.world } acts r)
    (hop : ¬ op.EndsFrame) (hframe : op.IsOfFrame → ∀ act ∈ acts, act.IsOfFrame) (hending : .ending ∉ acts)
    (hruns : Act.runs acts = []) (hreports : ∀ answer, r.1 = .ok answer → answer.reports = []) :
    Performed sys e op acts r := by
  refine ⟨htale, hframe, fun _ => hruns, by simp [hruns], .never (fun h => hop h.1) hending, fun answer hanswer => ?_⟩
  rw [hruns, hreports answer hanswer]
  exact ⟨by simp, rfl⟩

/-- An operation that tells systems of events, and does no more. -/
theorem performed_of_routing {sys : System σ ρ ε} {e : Recorded σ ρ ε} {op : Op σ} {acts : List (Act ρ)}
    {r : Except EngineError α × Recorded σ ρ ε} {f : α → Answer}
    (htale : Tale sys { e with world := op.edited e.world } acts r) (hop : ¬ op.EndsFrame)
    (hacts : ∀ act ∈ acts, ∃ calls, act = .routing calls) (hf : ∀ a, (f a).reports = []) :
    Performed sys e op acts (answered f r) := by
  obtain ⟨hends, hframe, hruns⟩ := routing_only hacts
  refine performed_of_runs_eq_nil (htale.map f) hop (fun _ => hframe) hends hruns fun answer hanswer => ?_
  obtain ⟨a, _, rfl⟩ := exists_of_map_eq_ok hanswer
  exact hf a

theorem performed_immediately (sys : System σ ρ ε) (e : Recorded σ ρ ε) {op : Op σ} (hop : ¬ op.EndsFrame)
    (change : World → Except WorldError α × World) (f : α → Answer) (hf : ∀ a, (f a).reports = [])
    (hworld : op.edited e.world = (change e.world).2) :
    ∃ acts, Performed sys e op acts (answered f (immediately sys.recorded e change)) := by
  obtain ⟨acts, htale, hacts⟩ := immediately_tale sys e change
  rw [← hworld] at htale
  exact ⟨acts, performed_of_routing htale hop hacts hf⟩

theorem exists_map_of_ok {x : Except EngineError α} {a : α} (h : x = .ok a) {f : α → β} : ∃ b, x.map f = .ok b := by
  rw [h]
  exact ⟨f a, rfl⟩

theorem not_map_of_error {x : Except EngineError α} {err : EngineError} (h : x = .error err) {f : α → β} :
    ¬ ∃ b, x.map f = .ok b := by
  rw [h]
  rintro ⟨_, ⟨⟩⟩

theorem performed_register (sys : System σ ρ ε) (e : Recorded σ ρ ε) (phase : Phase) (s : σ) :
    ∃ acts, Performed sys e (.register phase s) acts (perform sys.recorded e (Op.register phase s).marked) := by
  obtain ⟨acts, htale, hacts⟩ := register_tale sys e phase s
  have hruns : Act.runs acts = [] := by
    refine List.filterMap_eq_nil_iff.mpr fun act hmem => ?_
    obtain ⟨_, rfl⟩ | ⟨_, rfl⟩ := hacts act hmem <;> rfl
  refine ⟨acts, performed_of_runs_eq_nil (htale.map Answer.registered) id (fun h => h.elim) (fun hmem => ?_) hruns
    fun answer hanswer => ?_⟩
  · obtain ⟨_, ⟨⟩⟩ | ⟨_, ⟨⟩⟩ := hacts _ hmem
  · obtain ⟨id, _, rfl⟩ := exists_of_map_eq_ok hanswer
    rfl

theorem performed_runPhase (sys : System σ ρ ε) {e : Recorded σ ρ ε} (he : e.Orderly) (phase : Phase) (dt : Float32)
    (parallel : Bool) :
    ∃ acts, Performed sys e (.runPhase phase dt parallel) acts
      (perform sys.recorded e (Op.runPhase phase dt parallel).marked) := by
  obtain ⟨runs, htale, hflags, hdone⟩ := runPhase_tale sys he phase dt parallel
  refine ⟨runs.map .phase, htale.map Answer.phase, fun _ => ofFrame_phases runs, fun h => absurd trivial h, ?_,
    .never (fun h => h.1) (by simp), ?_⟩
  · rw [Act.runs_phases]
    exact fun run hmem => (hflags run hmem).2
  intro answer hanswer
  obtain ⟨report, hok, rfl⟩ := exists_of_map_eq_ok hanswer
  obtain ⟨run, rfl, hrun, rfl⟩ := hdone report hok
  rw [Act.runs_phases]
  exact ⟨List.forall_mem_singleton.mpr hrun, rfl⟩

theorem performed_endFrame (sys : System σ ρ ε) {e : Recorded σ ρ ε} (he : e.Orderly) :
    ∃ acts, Performed sys e .endFrame acts (perform sys.recorded e (Op.endFrame : Op σ).marked) := by
  obtain ⟨acts, htale, hends⟩ := endFrame_tale sys he
  have hall := htale.map fun ending => Answer.ended ending.1 ending.2
  obtain ⟨a, calls, hok, rfl⟩ | ⟨⟨err, herr⟩, hacts⟩ := hends
  · have hsplit : [Act.routing calls, .ending] = [.routing calls] ++ [.ending] := rfl
    have hruns : Act.runs [.routing calls, .ending] = ([] : List (PhaseRun ρ)) := rfl
    refine ⟨_, hall, by simp [Act.IsOfFrame], fun h => absurd trivial h, by simp [hruns], ?_, fun answer hanswer => ?_⟩
    · rw [hsplit]
      exact .last ⟨trivial, exists_map_of_ok hok⟩ (by simp)
    · obtain ⟨_, _, rfl⟩ := exists_of_map_eq_ok hanswer
      exact ⟨by simp [hruns], rfl⟩
  · obtain ⟨hending, hframe, hruns⟩ := routing_only hacts
    exact ⟨acts, hall, fun _ => hframe, fun h => absurd trivial h, by simp [hruns],
      .never (fun h => not_map_of_error herr h.2) hending,
      fun answer hanswer => absurd ⟨answer, hanswer⟩ (not_map_of_error herr)⟩

theorem performed_runFrame (sys : System σ ρ ε) {e : Recorded σ ρ ε} (he : e.Orderly) (dt : Float32) :
    ∃ acts, Performed sys e (.runFrame dt) acts (perform sys.recorded e (Op.runFrame dt).marked) := by
  obtain ⟨runs, rest, htale, hparallel, hends⟩ := runFrame_tale sys he dt
  have hruns (hrest : Act.runs rest = []) : Act.runs (runs.map Act.phase ++ rest) = runs := by
    rw [Act.runs_append, Act.runs_phases, hrest, List.append_nil]
  obtain ⟨report, calls, hok, rfl, hdone, hreport⟩ | ⟨⟨err, herr⟩, hacts⟩ := hends
  · have hsplit : runs.map Act.phase ++ [.routing calls, .ending] =
        runs.map Act.phase ++ [.routing calls] ++ [.ending] := by simp
    refine ⟨_, htale.map Answer.frame, fun _ => ?_, fun h => absurd trivial h, ?_, ?_, fun answer hanswer => ?_⟩
    · exact List.forall_mem_append.mpr ⟨ofFrame_phases runs, by simp [Act.IsOfFrame]⟩
    · rw [hruns rfl]
      exact hparallel
    · rw [hsplit]
      exact .last ⟨trivial, exists_map_of_ok hok⟩ (by simp)
    · obtain ⟨report', hok', rfl⟩ := exists_of_map_eq_ok hanswer
      cases hok.symm.trans hok'
      rw [hruns rfl]
      exact ⟨hdone, hreport⟩
  · obtain ⟨hnone, hframe, hrest⟩ := routing_only hacts
    refine ⟨_, htale.map Answer.frame, fun _ => List.forall_mem_append.mpr ⟨ofFrame_phases runs, hframe⟩,
      fun h => absurd trivial h, ?_,
      .never (fun h => not_map_of_error herr h.2) (List.not_mem_append (ending_not_mem_phases runs) hnone),
      fun answer hanswer => absurd ⟨answer, hanswer⟩ (not_map_of_error herr)⟩
    rw [hruns hrest]
    exact hparallel

theorem performed_shutdown (sys : System σ ρ ε) (e : Recorded σ ρ ε) :
    ∃ acts, Performed sys e .shutdown acts (perform sys.recorded e (Op.shutdown : Op σ).marked) := by
  obtain ⟨acts, htale, hacts⟩ := shutdown_tale sys e
  have hruns : Act.runs acts = [] := by
    refine List.filterMap_eq_nil_iff.mpr fun act hmem => ?_
    obtain ⟨_, rfl⟩ := hacts act hmem
    rfl
  refine ⟨acts, performed_of_runs_eq_nil htale id (fun h => h.elim) (fun hmem => ?_) hruns ?_⟩
  · obtain ⟨_, ⟨⟩⟩ := hacts _ hmem
  · rintro _ ⟨⟩
    rfl

/-- Every operation, after its own change of the world, is a list of acts. -/
theorem exists_performed (sys : System σ ρ ε) {e : Recorded σ ρ ε} (he : e.Orderly) (op : Op σ) :
    ∃ acts, Performed sys e op acts (perform sys.recorded e op.marked) := by
  cases op with
  | register phase s => exact performed_register sys e phase s
  | spawn persistent =>
    exact ⟨[], performed_of_routing
      (r := (.ok (e.world.spawn persistent).1, { e with world := (e.world.spawn persistent).2 }))
      (f := .entity) (.nil _) id (by simp) fun _ => rfl⟩
  | attach entity c => exact performed_immediately sys e id (·.attach entity c) .handle (fun _ => rfl) rfl
  | detach h => exact performed_immediately sys e id (·.detach h) .flag (fun _ => rfl) rfl
  | mark entity => exact performed_immediately sys e id (·.mark entity) .flag (fun _ => rfl) rfl
  | clear persistentToo => exact performed_immediately sys e id (·.clear persistentToo) .count (fun _ => rfl) rfl
  | edit change =>
    exact ⟨[], performed_of_routing
      (r := (.ok (e.world.perform change).1, { e with world := (e.world.perform change).2 }))
      (f := .edited) (.nil _) id (by simp) fun _ => rfl⟩
  | runPhase phase dt parallel => exact performed_runPhase sys he phase dt parallel
  | endFrame => exact performed_endFrame sys he
  | runFrame dt => exact performed_runFrame sys he dt
  | deliver =>
    obtain ⟨calls, htale, _⟩ := deliver_tale sys e
    exact ⟨[.routing calls], performed_of_routing (f := .count) htale id (by simp) fun _ => rfl⟩
  | route event =>
    obtain ⟨calls, htale⟩ := route_tale sys e event
    exact ⟨[.routing calls], performed_of_routing (f := fun _ => .nothing) htale id (by simp) fun _ => rfl⟩
  | shutdown => exact performed_shutdown sys e

/-! ### Runs -/

theorem Orderly.perform {e : Recorded σ ρ ε} (he : e.Orderly) (sys : System σ ρ ε) (op : Op σ) :
    (Engine.perform sys.recorded e op.marked).2.Orderly := by
  obtain ⟨acts, hperformed⟩ := exists_performed sys he op
  exact hperformed.tale.story.orderly (he.congr (fun _ => rfl) rfl)

theorem Orderly.run {e : Recorded σ ρ ε} (he : e.Orderly) (sys : System σ ρ ε) (ops : List (Op σ)) :
    (Engine.run sys.recorded e (ops.map Op.marked)).Orderly := by
  induction ops generalizing e with
  | nil => exact he
  | cons op rest ih => exact ih (he.perform sys op)

theorem orderly_record (sys : System σ ρ ε) (settings : Settings.Scheduling) (screen : Screen) (host : ε)
    (ops : List (Op σ)) : (record sys settings screen host ops).Orderly :=
  (Orderly.start settings screen (host, [])).run sys ops

/-- A run as the acts of its operations. -/
inductive Chronicle (sys : System σ ρ ε) : Recorded σ ρ ε → List (Op σ) → List (List (Act ρ)) → Recorded σ ρ ε → Prop
  | nil (e : Recorded σ ρ ε) : Chronicle sys e [] [] e
  | cons {e e' : Recorded σ ρ ε} {op : Op σ} {ops : List (Op σ)} {acts : List (Act ρ)} {chapters : List (List (Act ρ))}
      (hfirst : Performed sys e op acts (Engine.perform sys.recorded e op.marked))
      (hrest : Chronicle sys (Engine.perform sys.recorded e op.marked).2 ops chapters e') :
      Chronicle sys e (op :: ops) (acts :: chapters) e'

theorem exists_chronicle (sys : System σ ρ ε) {e : Recorded σ ρ ε} (he : e.Orderly) (ops : List (Op σ)) :
    ∃ chapters, Chronicle sys e ops chapters (Engine.run sys.recorded e (ops.map Op.marked)) := by
  induction ops generalizing e with
  | nil => exact ⟨[], .nil e⟩
  | cons op rest ih =>
    obtain ⟨acts, hfirst⟩ := exists_performed sys he op
    obtain ⟨chapters, hrest⟩ := ih (he.perform sys op)
    exact ⟨acts :: chapters, .cons hfirst hrest⟩

namespace Chronicle

variable {sys : System σ ρ ε} {e e' e'' : Recorded σ ρ ε} {ops ops' : List (Op σ)}
  {chapters chapters' : List (List (Act ρ))}

theorem append (h : Chronicle sys e ops chapters e') (h' : Chronicle sys e' ops' chapters' e'') :
    Chronicle sys e (ops ++ ops') (chapters ++ chapters') e'' := by
  induction h with
  | nil => exact h'
  | cons hfirst _ ih => exact .cons hfirst (ih h')

theorem log (h : Chronicle sys e ops chapters e') : e'.log = e.log ++ chapters.flatten.flatMap Act.calls := by
  induction h with
  | nil => exact (List.append_nil _).symm
  | cons hfirst _ ih =>
    rw [ih, hfirst.tale.story.log, List.flatten_cons, List.flatMap_append, List.append_assoc]
    rfl

theorem aside (h : Chronicle sys e ops chapters e') :
    ∀ act ∈ chapters.flatten, act.run? = none → ∀ call ∈ act.calls, call.IsAside := by
  induction h with
  | nil => nofun
  | cons hfirst _ ih => exact List.forall_mem_append.mpr ⟨hfirst.tale.story.aside, ih⟩

theorem runs (h : Chronicle sys e ops chapters e') (he : e.Orderly) :
    ∀ run ∈ Act.runs chapters.flatten, run.IsRegular sys ∧ run.systems.Nodup := by
  induction h with
  | nil => nofun
  | @cons e e' op _ _ _ hfirst _ ih =>
    rw [List.flatten_cons, Act.runs_append]
    exact List.forall_mem_append.mpr ⟨hfirst.tale.story.runs (he.congr (fun _ => rfl) rfl), ih (he.perform sys op)⟩

end Chronicle

end Cadence.Engine
