import Cadence.Engine.Op
import Cadence.Proofs.Engine.Callback
import Cadence.Proofs.World.Routable

/-!
The rule by which an invariant of engines is proved. The invariant may depend on how far a phase has come; the rule
asks what each callback makes of it, and answers that it holds between all operations of a run and at every call that
an operation makes.
-/

namespace Cadence

variable {σ ρ ε : Type}

namespace Engine

/-- How far a run has come: it is between two operations, or in a phase that has made so many updates, `failed` if one
of them was in vain, or has gone through the results of so many systems, or something has been broken off. -/
inductive Stage
  | between
  | updating (phase : Phase) (done : Nat) (failed : Bool)
  | applying (phase : Phase) (done : Nat)
  | broken

/-- An operation whose changes to the world are all routed, and that registers systems only where `fits` allows. -/
def Op.IsRouted (fits : Phase → σ → Prop) : Op σ → Prop
  | register phase s => fits phase s
  | edit change => change.IsRouted
  | route _ => False
  | _ => True

/-- An operation that flushes the world at the end of a frame only, but may take the queue away. -/
def Op.IsUnflushed (fits : Phase → σ → Prop) : Op σ → Prop
  | register phase s => fits phase s
  | edit .flush => False
  | route _ => False
  | _ => True

/-- What has to be shown of an invariant for it to hold through a phase. -/
structure PhaseRule (sys : System σ ρ ε) (I : Stage → Engine σ ρ ε → Prop) : Prop where
  deliver : ∀ {stage e}, I stage e → Leaves (fun _ e' => I stage e') (fun _ e' => I .broken e') (deliver sys e)
  begin : ∀ {phase e}, I .between e → e.scheduler.check (.phase phase) = .ok () →
    I (.updating phase 0 false) (e.beginPhase phase)
  serial : ∀ {phase dt i e slot reply result}, I (.updating phase i false) e → e.world.events = #[] →
    e.slotAt? phase i = some slot → sys.updateSerial (e.context phase false) dt slot.system e.host = reply →
    reply.outcome = .ok result → I (.updating phase (i + 1) false)
      (e.after phase i reply.world reply.host reply.drawn ({ · with system := reply.system, pending := result }))
  serial_error : ∀ {phase dt i e slot reply fault}, I (.updating phase i false) e → e.world.events = #[] →
    e.slotAt? phase i = some slot → sys.updateSerial (e.context phase false) dt slot.system e.host = reply →
    reply.outcome = .error fault →
    I .broken (e.after phase i reply.world reply.host reply.drawn ({ · with system := reply.system }))
  worker : ∀ {phase dt i failed e slot reply result}, I (.updating phase i failed) e → e.world.events = #[] →
    e.slotAt? phase i = some slot → sys.update (e.context phase true) dt slot.system e.host = reply →
    reply.outcome = .ok result → I (.updating phase (i + 1) failed)
      (e.after phase i e.world (sys.handOff result reply.host).2 reply.drawn
        ({ · with system := reply.system, pending := (sys.handOff result reply.host).1 }))
  worker_error : ∀ {phase dt i failed e slot reply fault}, I (.updating phase i failed) e → e.world.events = #[] →
    e.slotAt? phase i = some slot → sys.update (e.context phase true) dt slot.system e.host = reply →
    reply.outcome = .error fault → I (.updating phase (i + 1) true)
      (e.after phase i e.world reply.host reply.drawn ({ · with system := reply.system }))
  join : ∀ {phase n e}, I (.updating phase n true) e → I .broken e
  turn : ∀ {phase n e}, I (.updating phase n false) e → n = (e.labels phase).length → I (.applying phase 0) e
  skip : ∀ {phase i e slot}, I (.applying phase i) e → e.slotAt? phase i = some slot → slot.pending = none →
    I (.applying phase (i + 1)) e
  apply : ∀ {phase i e slot result reply}, I (.applying phase i) e → e.world.events = #[] →
    e.slotAt? phase i = some slot → slot.pending = some result →
    sys.apply result (e.context phase false) slot.system e.host = reply → reply.outcome = .ok () →
    I (.applying phase (i + 1))
      (e.after phase i reply.world reply.host reply.drawn ({ · with pending := none, system := reply.system }))
  apply_error : ∀ {phase i e slot result reply fault}, I (.applying phase i) e → e.world.events = #[] →
    e.slotAt? phase i = some slot → slot.pending = some result →
    sys.apply result (e.context phase false) slot.system e.host = reply → reply.outcome = .error fault →
    I .broken
      (e.after phase i reply.world reply.host reply.drawn ({ · with pending := none, system := reply.system }))
  finish : ∀ {phase n e}, I (.applying phase n) e → n = (e.labels phase).length →
    I .between { e with scheduler := { e.scheduler with next := e.scheduler.next.next } }
  abort : ∀ {phase e}, I .broken e → I .between (e.abort phase)

/-- The host that is left when a registration fails in a callback. -/
inductive Refuses (sys : System σ ρ ε) (e : Engine σ ρ ε) (phase : Phase) (id : Nat) (s : σ) : ε → Prop
  | init {fault : Fault} (hinit : (sys.init e.world phase id s e.host).outcome = .error fault) :
      Refuses sys e phase id s (sys.init e.world phase id s e.host).host
  | offer {fault : Fault} {s' : σ} {host : ε}
      (hoffers : inOrder (offer sys)
        ((sys.init e.world phase id s e.host).system, (sys.init e.world phase id s e.host).host)
        e.world.store.attached = (.error fault, s', host)) : Refuses sys e phase id s (sys.shutdown s' host)

/-- What has to be shown of an invariant for it to hold through all operations, if they change the world only as
`edits` allows. -/
structure RuleFor (edits : World → World → Prop) (sys : System σ ρ ε) (fits : Phase → σ → Prop)
    (I : Stage → Engine σ ρ ε → Prop) : Prop extends PhaseRule sys I where
  settle : ∀ {e}, I .broken e → e.scheduler.poisoned = true → I .between e
  edit : ∀ {e world}, I .between e → edits e.world world → I .between { e with world }
  host : ∀ {phase s e id host}, I .between e → Refuses sys e phase id s host → I .between { e with host }
  register : ∀ {phase s e id host}, I .between e → e.world.events = #[] → fits phase s →
    sys.name s ∉ e.scheduler.names → (sys.init e.world phase id s e.host).outcome = .ok () →
    inOrder (offer sys) ((sys.init e.world phase id s e.host).system, (sys.init e.world phase id s e.host).host)
      e.world.store.attached = (.ok (), host) →
    I .between { e with
      scheduler := { e.scheduler with
        slots := e.scheduler.slots.modify phase (· ++ [{ id, name := sys.name s, phase, system := host.1 }])
        names := e.scheduler.names ++ [sys.name s]
        nextId := id + 1 }
      host := host.2 }
  endFrame : ∀ {e screen}, I .between e → e.world.events = #[] → I .between { e with
    scheduler := { e.scheduler with next := e.scheduler.next.next }, world := e.world.flush.2, screen }
  shutdown : ∀ {e}, I .between e → I .between (shutdown sys e)

/-- The rule for operations whose changes to the world are all routed. -/
abbrev Rule (sys : System σ ρ ε) (fits : Phase → σ → Prop) (I : Stage → Engine σ ρ ε → Prop) : Prop :=
  RuleFor World.Edited sys fits I

namespace PhaseRule

variable {sys : System σ ρ ε} {I : Stage → Engine σ ρ ε → Prop}

/-- Routing empties the queue and leaves everybody registered. -/
theorem delivered (rule : PhaseRule sys I) {stage : Stage} {e : Engine σ ρ ε} (h : I stage e) :
    Leaves (fun _ e' => I stage e' ∧ e'.world.events = #[] ∧ ∀ phase, e'.labels phase = e.labels phase)
      (fun _ e' => I .broken e' ∧ e'.scheduler.poisoned = true) (Engine.deliver sys e) := by
  refine ((rule.deliver h).and (leaves_deliver sys e)).mono ?_ ?_
  · rintro _ e' ⟨hstage, hframe, hhears⟩
    exact ⟨hstage, by rw [hframe.world]; rfl, hhears.labels⟩
  · rintro _ e' ⟨hbroken, _, hpoisoned, _⟩
    exact ⟨hbroken, hpoisoned⟩

/-! ### One step of a phase -/

/-- What holds between two steps of a phase in which `n` systems are registered. -/
def At (I : Stage → Engine σ ρ ε → Prop) (phase : Phase) (n : Nat) (stage : Stage) (e : Engine σ ρ ε) : Prop :=
  I stage e ∧ e.world.events = #[] ∧ (e.labels phase).length = n

theorem At.slot {phase : Phase} {n i : Nat} {stage : Stage} {e : Engine σ ρ ε} (h : At I phase n stage e) (hi : i < n) :
    ∃ slot, e.slotAt? phase i = some slot := by
  have hlength := h.2.2
  rw [length_labels] at hlength
  exact ⟨_, List.getElem?_eq_getElem (by omega)⟩

/-- A worker has nothing to route. -/
theorem At.after {phase : Phase} {n i : Nat} {stage stage' : Stage} {e : Engine σ ρ ε} {host : ε}
    {drawn : Array Primitive} {f : Slot σ ρ → Slot σ ρ} (h : At I phase n stage e)
    (hf : ∀ slot, ((f slot).id, (f slot).name, (f slot).phase) = (slot.id, slot.name, slot.phase))
    (hstage : I stage' (e.after phase i e.world host drawn f)) :
    At I phase n stage' (e.after phase i e.world host drawn f) := by
  refine ⟨hstage, ?_, ?_⟩
  · rw [world_after]
    exact h.2.1
  · rw [labels_after e phase i e.world host drawn f hf]
    exact h.2.2

/-- After a callback everybody is still registered, and so after its changes have been routed. -/
theorem delivered_after (rule : PhaseRule sys I) {phase : Phase} {n i : Nat} {stage : Stage} {e : Engine σ ρ ε}
    {world : World} {host : ε} {drawn : Array Primitive} {f : Slot σ ρ → Slot σ ρ}
    (hn : (e.labels phase).length = n) (h : I stage (e.after phase i world host drawn f))
    (hf : ∀ slot, ((f slot).id, (f slot).name, (f slot).phase) = (slot.id, slot.name, slot.phase)) :
    Leaves (fun _ e' => At I phase n stage e') (fun _ e' => I .broken e')
      (ignore (Engine.deliver sys (e.after phase i world host drawn f))) := by
  refine leaves_ignore ((rule.delivered h).mono ?_ ?_)
  · rintro _ e' ⟨hstage, hevents, hlabels⟩
    refine ⟨hstage, hevents, ?_⟩
    rw [hlabels, labels_after e phase i world host drawn f hf]
    exact hn
  · rintro _ e' ⟨hbroken, _⟩
    exact hbroken

theorem leaves_updateSerial (rule : PhaseRule sys I) {phase : Phase} {n i : Nat} (dt : Float32) {e : Engine σ ρ ε}
    (hi : i < n) (h : At I phase n (.updating phase i false) e) :
    Leaves (fun _ e' => At I phase n (.updating phase (i + 1) false) e') (fun _ e' => I .broken e')
      (updateSerial sys phase dt e i) := by
  obtain ⟨slot, hslot⟩ := h.slot hi
  obtain ⟨hstage, hevents, hn⟩ := h
  rw [updateSerial_eq hslot]
  dsimp only
  cases houtcome : (sys.updateSerial (e.context phase false) dt slot.system e.host).outcome with
  | error fault => exact rule.serial_error hstage hevents hslot rfl houtcome
  | ok result => exact rule.delivered_after hn (rule.serial hstage hevents hslot rfl houtcome) fun _ => rfl

theorem at_updateParallel (rule : PhaseRule sys I) {phase : Phase} {n i : Nat} (dt : Float32)
    {state : Option EngineError × Engine σ ρ ε} (hi : i < n)
    (h : At I phase n (.updating phase i state.1.isSome) state.2) :
    At I phase n (.updating phase (i + 1) (updateParallel sys phase dt state i).1.isSome)
      (updateParallel sys phase dt state i).2 := by
  obtain ⟨failure, e⟩ := state
  obtain ⟨slot, hslot⟩ := h.slot hi
  rw [updateParallel_eq hslot]
  dsimp only
  cases houtcome : (sys.update (e.context phase true) dt slot.system e.host).outcome with
  | error fault =>
    have hsome : (failure.or (some (.systemFailed phase slot.name fault))).isSome = true := by cases failure <;> rfl
    dsimp only
    rw [hsome]
    exact h.after (fun _ => rfl) (rule.worker_error h.1 h.2.1 hslot rfl houtcome)
  | ok result => exact h.after (fun _ => rfl) (rule.worker h.1 h.2.1 hslot rfl houtcome)

theorem leaves_applyResult (rule : PhaseRule sys I) {phase : Phase} {n i : Nat} {a : Applied σ ρ ε} (hi : i < n)
    (h : At I phase n (.applying phase i) a.engine) :
    Leaves (fun _ a' => At I phase n (.applying phase (i + 1)) a'.engine) (fun _ a' => I .broken a'.engine)
      (applyResult sys phase a i) := by
  obtain ⟨slot, hslot⟩ := h.slot hi
  obtain ⟨hstage, hevents, hn⟩ := h
  cases hpending : slot.pending with
  | none =>
    have hnone : (a.engine.slotAt? phase i).bind (·.pending) = none := by rw [hslot]; exact hpending
    rw [applyResult_of_none hnone]
    exact ⟨rule.skip hstage hslot hpending, hevents, hn⟩
  | some result =>
    rw [applyResult_eq hslot hpending]
    dsimp only
    cases houtcome : (sys.apply result (a.engine.context phase false) slot.system a.engine.host).outcome with
    | error fault => exact rule.apply_error hstage hevents hslot hpending rfl houtcome
    | ok _ =>
      have hdelivered := rule.delivered_after hn (rule.apply hstage hevents hslot hpending rfl houtcome)
        fun _ => rfl
      revert hdelivered
      generalize ignore _ = r
      obtain ⟨_ | _, e⟩ := r
      · exact id
      · exact id

/-! ### A whole phase -/

theorem leaves_updateSerials (rule : PhaseRule sys I) {phase : Phase} {n i : Nat} (dt : Float32) {e : Engine σ ρ ε}
    (hi : i ≤ n) (h : At I phase n (.updating phase 0 false) e) :
    Leaves (fun _ e' => At I phase n (.updating phase i false) e') (fun _ e' => I .broken e')
      (inOrder (updateSerial sys phase dt) e (List.range i)) := by
  refine leaves_inOrder_range (I := fun i e => At I phase n (.updating phase i false) e) (fun j s hj h => ?_) h
  exact rule.leaves_updateSerial dt (by omega) h

theorem at_updateParallels (rule : PhaseRule sys I) {phase : Phase} {n i : Nat} (dt : Float32) {e : Engine σ ρ ε}
    (hi : i ≤ n) (h : At I phase n (.updating phase 0 false) e) :
    At I phase n (.updating phase i ((List.range i).foldl (updateParallel sys phase dt) (none, e)).1.isSome)
      ((List.range i).foldl (updateParallel sys phase dt) (none, e)).2 := by
  have hstart : At I phase n (.updating phase 0 (none : Option EngineError).isSome) e := h
  let J (i : Nat) (state : Option EngineError × Engine σ ρ ε) : Prop :=
    At I phase n (.updating phase i state.1.isSome) state.2
  refine foldl_range (I := J) (fun j state hj h => ?_) hstart
  exact rule.at_updateParallel dt (by omega) h

theorem leaves_updateAll (rule : PhaseRule sys I) {phase : Phase} {n : Nat} (dt : Float32) (parallel : Bool)
    {e : Engine σ ρ ε} (h : At I phase n (.updating phase 0 false) e) :
    Leaves (fun _ e' => At I phase n (.updating phase n false) e') (fun _ e' => I .broken e')
      (updateAll sys phase dt parallel e) := by
  have hn : (e.scheduler.slots.get phase).length = n := by
    rw [← length_labels]
    exact h.2.2
  unfold updateAll
  rw [hn]
  cases parallel with
  | false => exact rule.leaves_updateSerials dt (Nat.le_refl n) h
  | true =>
    have hall := rule.at_updateParallels dt (Nat.le_refl n) h
    dsimp only
    rw [if_pos rfl]
    revert hall
    generalize (List.range n).foldl (updateParallel sys phase dt) (none, e) = state
    obtain ⟨_ | err, e'⟩ := state
    · exact id
    · exact fun hall => rule.join hall.1

theorem leaves_applyResults (rule : PhaseRule sys I) {phase : Phase} {n i : Nat} {e : Engine σ ρ ε} (hi : i ≤ n)
    (h : At I phase n (.applying phase 0) e) :
    Leaves (fun _ a => At I phase n (.applying phase i) a.engine) (fun _ a => I .broken a.engine)
      (inOrder (applyResult sys phase) { engine := e } (List.range i)) := by
  let J (i : Nat) (a : Applied σ ρ ε) : Prop := At I phase n (.applying phase i) a.engine
  refine leaves_inOrder_range (I := J) (fun j a hj h => ?_) h
  exact rule.leaves_applyResult (by omega) h

/-- A phase starts its updates when the queue has been routed. -/
theorem leaves_begin (rule : PhaseRule sys I) {phase : Phase} {e : Engine σ ρ ε} (h : I .between e)
    (hcheck : e.scheduler.check (.phase phase) = .ok ()) :
    Leaves (fun _ e' => At I phase (e'.labels phase).length (.updating phase 0 false) e') (fun _ e' => I .broken e')
      (Engine.deliver sys (e.beginPhase phase)) :=
  (rule.delivered (rule.begin h hcheck)).mono (fun _ _ h => ⟨h.1, h.2.1, rfl⟩) fun _ _ h => h.1

theorem At.turn (rule : PhaseRule sys I) {phase : Phase} {n : Nat} {e : Engine σ ρ ε}
    (h : At I phase n (.updating phase n false) e) : At I phase n (.applying phase 0) e :=
  ⟨rule.turn h.1 h.2.2.symm, h.2.1, h.2.2⟩

theorem leaves_phaseBody (rule : PhaseRule sys I) {phase : Phase} (dt : Float32) (parallel : Bool) {e : Engine σ ρ ε}
    (h : I .between e) (hcheck : e.scheduler.check (.phase phase) = .ok ()) :
    Leaves (fun _ e' => ∃ n, At I phase n (.applying phase n) e') (fun _ e' => I .broken e')
      (phaseBody sys phase dt parallel (e.beginPhase phase)) := by
  have hbegin := rule.leaves_begin h hcheck
  rw [phaseBody]
  rcases hdeliver : Engine.deliver sys (e.beginPhase phase) with ⟨err | count, e₁⟩
  · exact hbegin.of_error hdeliver
  have hupdate := rule.leaves_updateAll dt parallel (hbegin.of_ok hdeliver)
  dsimp only
  rcases hresult : updateAll sys phase dt parallel e₁ with ⟨err | _, e₂⟩
  · exact hupdate.of_error hresult
  have hturn := (hupdate.of_ok hresult).turn rule
  have happly := rule.leaves_applyResults (Nat.le_refl _) hturn
  have hn : (e₂.scheduler.slots.get phase).length = (e₁.labels phase).length := by
    rw [← length_labels]
    exact hturn.2.2
  dsimp only
  rw [applyAll]
  rw [hn]
  rcases hall : inOrder (applyResult sys phase) { engine := e₂ } (List.range (e₁.labels phase).length) with ⟨err | _, a⟩
  · exact happly.of_error hall
  · exact ⟨_, happly.of_ok hall⟩

theorem between_runPhase (rule : PhaseRule sys I) {e : Engine σ ρ ε} (h : I .between e) (phase : Phase)
    (dt : Float32) (parallel : Bool) : I .between (runPhase sys e phase dt parallel).2 := by
  rw [runPhase]
  cases hcheck : e.scheduler.check (.phase phase) with
  | error err => exact h
  | ok _ =>
    have hbody := rule.leaves_phaseBody dt parallel h hcheck
    dsimp only
    rcases hresult : phaseBody sys phase dt parallel (e.beginPhase phase) with ⟨err | report, e'⟩
    · exact rule.abort (hbody.of_error hresult)
    · obtain ⟨n, hstage, _, hn⟩ := hbody.of_ok hresult
      exact rule.finish hstage hn.symm

end PhaseRule

end Engine

end Cadence
