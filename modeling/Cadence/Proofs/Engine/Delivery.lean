import Cadence.Proofs.Engine.Erasure

/-!
Who exactly is told of what when the queue is delivered. Every event is brought to every registered system, phase by
phase and within a phase in the order of registration; a system that accepts the component at that moment is called,
and the first call that fails is the last one.
-/

namespace Cadence

variable {σ ρ ε : Type}

/-- A call that tells a system of an event, with the slot of the system as it was found. -/
structure Telling (σ ρ : Type) where
  event : Event
  slot : Slot σ ρ
  outcome : Except Fault Unit

namespace Telling

/-- What a call that has failed is reported as. -/
def error? (telling : Telling σ ρ) : Option EngineError :=
  match telling.outcome with
  | .ok () => none
  | .error fault => some (.systemFailed telling.slot.phase telling.slot.name fault)

def call (telling : Telling (Marked σ) ρ) : Call ρ := .told telling.slot.system.id telling.event telling.outcome

/-- The calls up to the first that has failed. -/
def upToFailure : List (Telling σ ρ) → List (Telling σ ρ)
  | [] => []
  | telling :: rest => if telling.error?.isSome then [telling] else telling :: upToFailure rest

end Telling

open Telling

namespace Engine

/-! ### Errands -/

/-- An event that is to be brought to a system, given by its place. -/
abbrev Errand : Type := Event × Phase × Nat

/-- The places of all systems, phase by phase and in the order of registration. -/
def places (e : Engine σ ρ ε) : List (Phase × Nat) :=
  Phase.all.flatMap fun phase => (List.range (e.scheduler.slots.get phase).length).map (phase, ·)

/-- What a delivery has to do: each event is brought to each system. -/
def errands (e : Engine σ ρ ε) (events : List Event) : List Errand := events.flatMap fun event => e.places.map (event, ·)

/-- Calls the system if the component of the event is still stored and the system accepts it. -/
def bring (sys : System σ ρ ε) (e : Engine σ ρ ε) : Errand → Option (Telling σ ρ) × Engine σ ρ ε
  | (event, phase, i) =>
    match e.world.store.get? event.handle, e.slotAt? phase i with
    | some c, some slot =>
      if sys.accepts slot.system c then
        let reply := sys.notify event c slot.system e.host
        (some ⟨event, slot, reply.outcome⟩,
          { e.modifySlot phase i fun slot => { slot with system := reply.system } with host := reply.host })
      else (none, e)
    | _, _ => (none, e)

/-- All calls that are to be made, as if none of them were to fail. -/
def bringAll (sys : System σ ρ ε) (e : Engine σ ρ ε) : List Errand → List (Telling σ ρ) × Engine σ ρ ε
  | [] => ([], e)
  | errand :: rest =>
    let (first, e) := bring sys e errand
    let (others, e) := bringAll sys e rest
    (first.toList ++ others, e)

/-- One errand of a delivery that stops at a failure. -/
def hear (sys : System σ ρ ε) (e : Engine σ ρ ε) (errand : Errand) : Except EngineError Unit × Engine σ ρ ε :=
  match (bring sys e errand).1.bind error? with
  | some err => (.error err, (bring sys e errand).2)
  | none => (.ok (), (bring sys e errand).2)

/-! ### Routing as errands -/

variable (sys : System σ ρ ε) {e e' : Engine σ ρ ε} {event : Event} {c : Component} {phase : Phase} {i : Nat}
  {slot : Slot σ ρ}

theorem hear_of_released (h : e.world.store.get? event.handle = none) (place : Phase × Nat) :
    hear sys e (event, place) = (.ok (), e) := by
  simp [hear, bring, h]

theorem hear_of_not_accepts (h : e.world.store.get? event.handle = some c) (hslot : e.slotAt? phase i = some slot)
    (haccepts : sys.accepts slot.system c = false) : hear sys e (event, phase, i) = (.ok (), e) := by
  simp [hear, bring, h, hslot, haccepts]

theorem hear_of_accepts (h : e.world.store.get? event.handle = some c) (hslot : e.slotAt? phase i = some slot)
    (haccepts : sys.accepts slot.system c = true) :
    hear sys e (event, phase, i) =
      let reply := sys.notify event c slot.system e.host
      (reply.outcome.mapError (.systemFailed slot.phase slot.name),
        { e.modifySlot phase i fun slot => { slot with system := reply.system } with host := reply.host }) := by
  simp only [hear, bring, h, hslot, haccepts, if_true, Option.bind_some, error?]
  cases (sys.notify event c slot.system e.host).outcome <;> rfl

/-- The engine once the slots of a phase have been told. -/
def toldIn (e : Engine σ ρ ε) (phase : Phase) (slots : List (Slot σ ρ)) (host : ε) : Engine σ ρ ε :=
  { e with scheduler := { e.scheduler with slots := e.scheduler.slots.modify phase fun _ => slots }, host }

@[simp] theorem host_toldIn (slots : List (Slot σ ρ)) (host : ε) : (e.toldIn phase slots host).host = host := rfl

@[simp] theorem toldIn_toldIn (slots slots' : List (Slot σ ρ)) (host host' : ε) :
    (e.toldIn phase slots host).toldIn phase slots' host' = e.toldIn phase slots' host' := by
  simp only [toldIn, ByPhase.modify_modify]
  rfl

theorem toldIn_self (e : Engine σ ρ ε) (phase : Phase) : e.toldIn phase (e.scheduler.slots.get phase) e.host = e := by
  obtain ⟨⟨_, ⟨_, _, _⟩, _, _, _, _, _, _⟩, _, _, _⟩ := e
  cases phase <;> rfl

theorem get_toldIn (slots : List (Slot σ ρ)) (host : ε) :
    (e.toldIn phase slots host).scheduler.slots.get phase = slots := ByPhase.get_modify_self ..

theorem modifySlot_eq_toldIn {before rest : List (Slot σ ρ)}
    (hslots : e.scheduler.slots.get phase = before ++ slot :: rest) (f : Slot σ ρ → Slot σ ρ) (host : ε) :
    { e.modifySlot phase before.length f with host } = e.toldIn phase (before ++ f slot :: rest) host := by
  have hlist : (e.scheduler.slots.get phase).modify before.length f = before ++ f slot :: rest := by
    rw [hslots]
    simp [List.modify_eq_take_drop]
  have hmodify : e.scheduler.slots.modify phase (·.modify before.length f) =
      e.scheduler.slots.modify phase fun _ => before ++ f slot :: rest := by
    rw [← hlist]
    cases phase <;> rfl
  simp only [modifySlot, toldIn, hmodify]

/-- The errands to the last slots of a phase. -/
theorem inOrder_hear_notifyAll (h : e.world.store.get? event.handle = some c) (before rest : List (Slot σ ρ))
    (hslots : e.scheduler.slots.get phase = before ++ rest) :
    inOrder (hear sys) e ((List.range' before.length rest.length).map fun i => (event, phase, i)) =
      let told := sys.notifyAll event c rest e.host
      (told.1, e.toldIn phase (before ++ told.2.1) told.2.2) := by
  induction rest generalizing before e with
  | nil =>
    simp only [System.notifyAll, List.length_nil, List.range'_zero, List.map_nil, inOrder_nil]
    rw [← hslots, toldIn_self]
  | cons slot rest ih =>
    have hslot : e.slotAt? phase before.length = some slot := by
      rw [slotAt?, hslots]
      simp
    have hlength (slot : Slot σ ρ) : before.length + 1 = (before ++ [slot]).length := by simp
    rw [List.length_cons, List.range'_succ, List.map_cons, inOrder, System.notifyAll]
    cases haccepts : sys.accepts slot.system c with
    | false =>
      rw [hear_of_not_accepts sys h hslot haccepts, hlength slot]
      dsimp only
      rw [ih h (before ++ [slot]) (by simp [hslots])]
      simp
    | true =>
      rw [hear_of_accepts sys h hslot haccepts]
      dsimp only
      rw [modifySlot_eq_toldIn hslots]
      obtain ⟨outcome, system, host⟩ := sys.notify event c slot.system e.host
      cases outcome with
      | error fault => rfl
      | ok =>
        have hrest := ih (e := e.toldIn phase (before ++ { slot with system } :: rest) host) h
          (before ++ [{ slot with system }]) (by simp [get_toldIn])
        rw [← hlength] at hrest
        refine hrest.trans ?_
        simp [toldIn_toldIn]

/-- An event is to be brought to the systems of a phase. -/
def errandsIn (e : Engine σ ρ ε) (event : Event) (phase : Phase) : List Errand :=
  (List.range (e.scheduler.slots.get phase).length).map fun i => (event, phase, i)

theorem inOrder_hear_phase (h : e.world.store.get? event.handle = some c) (phase : Phase) :
    inOrder (hear sys) e (e.errandsIn event phase) =
      let told := sys.notifyAll event c (e.scheduler.slots.get phase) e.host
      (told.1, e.toldIn phase told.2.1 told.2.2) := by
  rw [errandsIn, List.range_eq_range']
  exact inOrder_hear_notifyAll sys h [] _ rfl

/-- Routing an event is bringing it to all systems, one after the other. -/
theorem route_eq (sys : System σ ρ ε) (e : Engine σ ρ ε) (event : Event) :
    route sys e event = inOrder (hear sys) e (e.places.map (event, ·)) := by
  rw [route]
  cases h : e.world.store.get? event.handle with
  | none =>
    refine (inOrder_eq_self fun errand hmem => ?_).symm
    obtain ⟨place, _, rfl⟩ := List.mem_map.mp hmem
    exact hear_of_released sys h place
  | some c =>
    have hplaces : e.places.map (event, ·) =
        e.errandsIn event .early ++ (e.errandsIn event .script ++ e.errandsIn event .late) := by
      simp [places, Phase.all, errandsIn]
      rfl
    have hearly : inOrder (hear sys) e (e.errandsIn event .early) =
        let told := sys.notifyAll event c e.scheduler.slots.early e.host
        (told.1, e.toldIn .early told.2.1 told.2.2) := inOrder_hear_phase sys h .early
    have hscript (early host) : inOrder (hear sys) (e.toldIn .early early host) (e.errandsIn event .script) =
        let told := sys.notifyAll event c e.scheduler.slots.script host
        (told.1, (e.toldIn .early early host).toldIn .script told.2.1 told.2.2) :=
      inOrder_hear_phase sys (e := e.toldIn .early early host) h .script
    have hlate (early script host host') :
        inOrder (hear sys) ((e.toldIn .early early host).toldIn .script script host') (e.errandsIn event .late) =
          let told := sys.notifyAll event c e.scheduler.slots.late host'
          (told.1, ((e.toldIn .early early host).toldIn .script script host').toldIn .late told.2.1 told.2.2) :=
      inOrder_hear_phase sys (e := (e.toldIn .early early host).toldIn .script script host') h .late
    simp only [System.notifyPhases]
    rw [hplaces, inOrder_append, hearly]
    obtain ⟨err | _, early, host₁⟩ := sys.notifyAll event c e.scheduler.slots.early e.host
    · rfl
    dsimp only
    rw [inOrder_append, hscript]
    obtain ⟨err | _, script, host₂⟩ := sys.notifyAll event c e.scheduler.slots.script host₁
    · rfl
    dsimp only
    rw [hlate]
    rfl

/-- Routing events is doing all errands, one after the other. -/
theorem inOrder_route (sys : System σ ρ ε) (e : Engine σ ρ ε) (events : List Event) :
    inOrder (route sys) e events = inOrder (hear sys) e (e.errands events) := by
  induction events generalizing e with
  | nil => rfl
  | cons event rest ih =>
    have hroute := leaves_route sys e event
    rw [inOrder, errands, List.flatMap_cons, inOrder_append, ← route_eq]
    rcases hresult : route sys e event with ⟨_ | _, e'⟩
    · rfl
    · obtain ⟨_, hhears⟩ := hroute.of_ok hresult
      have hplaces : e'.places = e.places := by
        simp only [places, ← length_labels, hhears.labels]
      dsimp only
      rw [ih, errands, hplaces]

/-! ### Stopping at a failure -/

/-- Every call is written down, and nothing else is. -/
theorem log_bring (sys : System σ ρ ε) (e : Recorded σ ρ ε) (errand : Errand) :
    (bring sys.recorded e errand).2.log = e.log ++ (bring sys.recorded e errand).1.toList.map call := by
  obtain ⟨event, phase, i⟩ := errand
  simp only [bring]
  split
  · split
    · simp [log, System.recorded_notify, call]
    · simp
  · simp

/-- Who stops at a failure has made the calls up to it, and otherwise all calls that were to be made. -/
theorem inOrder_hear (sys : System σ ρ ε) (e : Recorded σ ρ ε) (errands : List Errand) :
    let all := bringAll sys.recorded e errands
    let done := inOrder (hear sys.recorded) e errands
    done.2.log = e.log ++ (upToFailure all.1).map call ∧
      match all.1.findSome? error? with
      | none => done = (.ok (), all.2)
      | some err => done.1 = .error err := by
  induction errands generalizing e with
  | nil => exact ⟨(List.append_nil _).symm, rfl⟩
  | cons errand rest ih =>
    have hlog := log_bring sys e errand
    have hrest := ih (bring sys.recorded e errand).2
    simp only [bringAll, inOrder, hear] at hrest ⊢
    generalize bring sys.recorded e errand = brought at hlog hrest ⊢
    obtain ⟨first, e'⟩ := brought
    cases first with
    | none =>
      rw [hlog] at hrest
      simpa using hrest
    | some telling =>
      cases herror : telling.error? with
      | none =>
        rw [hlog] at hrest
        simpa [upToFailure, herror] using hrest
      | some err => simp [upToFailure, herror, hlog]

/-- This is exactly who is called when the queue is delivered: whoever accepts the component of an event that is still
stored, at the moment the event is brought to it, and nobody after a failure. -/
theorem deliveries_are_exact (sys : System σ ρ ε) (e : Recorded σ ρ ε) :
    let all := bringAll sys.recorded { e with world := e.world.drain.2 } (e.errands e.world.events.toList)
    let done := deliver sys.recorded e
    deliver sys (Recorded.erase e) = (done.1, Recorded.erase done.2) ∧
      done.2.log = e.log ++ (upToFailure all.1).map call ∧
      done.2.world = { e.world with events := #[] } ∧
      match all.1.findSome? error? with
      | none => done = (.ok e.world.events.size, all.2)
      | some err => done.1 = .error err ∧ done.2.scheduler.poisoned = true := by
  intro all done
  have herased : deliver sys (Recorded.erase e) = (done.1, Recorded.erase done.2) :=
    (projected_deliver sys.recorded_simulates e).symm
  have hworld : done.2.world = { e.world with events := #[] } :=
    ((leaves_deliver sys.recorded e).mono (fun _ _ h => h.1.world) fun _ _ h => h.1).snd
  have hroutes : inOrder (route sys.recorded) { e with world := e.world.drain.2 } e.world.events.toList =
      inOrder (hear sys.recorded) { e with world := e.world.drain.2 } (e.errands e.world.events.toList) :=
    inOrder_route ..
  obtain ⟨hlog, hall⟩ := inOrder_hear sys { e with world := e.world.drain.2 } (e.errands e.world.events.toList)
  have hdone : done = _ := deliver_eq sys.recorded e
  rw [hroutes] at hdone
  generalize inOrder (hear sys.recorded) { e with world := e.world.drain.2 } (e.errands e.world.events.toList) = routed
    at hlog hall hdone
  have hall : match all.1.findSome? error? with
    | none => routed = (.ok (), all.2)
    | some err => routed.1 = .error err := hall
  refine ⟨herased, ?_, hworld, ?_⟩
  · rw [hdone]
    obtain ⟨_ | _, e'⟩ := routed <;> exact hlog
  · cases hfailed : all.1.findSome? error? with
    | none =>
      rw [hfailed] at hall
      rw [hdone, hall]
    | some err =>
      rw [hfailed] at hall
      obtain ⟨_, e'⟩ := routed
      obtain rfl := hall
      rw [hdone]
      exact ⟨rfl, rfl⟩

end Engine

end Cadence
