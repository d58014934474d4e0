import Cadence.Engine.Phase
import Cadence.Proofs.Engine.Routing

/-!
The steps of a phase as equations. Each of them calls one system, takes over what it answers and, on the thread of the
scheduler, routes what it has changed.
-/

namespace Cadence

theorem ByPhase.modify_modify {α : Type} (m : ByPhase α) (phase : Phase) (f g : α → α) :
    (m.modify phase f).modify phase g = m.modify phase (g ∘ f) := by
  cases phase <;> rfl

/-- What becomes of the result of a worker: its copy waits to be applied, and the result itself is released. -/
def System.handOff {σ ρ ε : Type} (sys : System σ ρ ε) (result : Option ρ) (host : ε) : Option ρ × ε :=
  match result with
  | none => (none, host)
  | some result =>
    let (copy, host) := sys.duplicate result host
    (some copy, sys.release result host)

namespace Engine

variable {σ ρ ε : Type}

/-- The engine once it has taken over what a callback answers: the world and the host it leaves, what it has drawn, and
the change of its slot. -/
def after (e : Engine σ ρ ε) (phase : Phase) (i : Nat) (world : World) (host : ε) (drawn : Array Primitive)
    (f : Slot σ ρ → Slot σ ρ) : Engine σ ρ ε :=
  ({ e with world, host }.draw phase drawn).modifySlot phase i f

section after

variable (e : Engine σ ρ ε) (phase : Phase) (i : Nat) (world : World) (host : ε) (drawn : Array Primitive)
  (f : Slot σ ρ → Slot σ ρ)

@[simp] theorem world_after : (e.after phase i world host drawn f).world = world := by
  rw [after, world_modifySlot, world_draw]

@[simp] theorem host_after : (e.after phase i world host drawn f).host = host := by
  show ({ e with world, host }.draw phase drawn).host = host
  rw [host_draw]

theorem scheduler_after :
    (e.after phase i world host drawn f).scheduler =
      { e.scheduler with slots := e.scheduler.slots.modify phase (·.modify i f) } := by
  unfold after modifySlot
  rw [scheduler_draw]

theorem slotAt?_after (phase' : Phase) (j : Nat) :
    (e.after phase i world host drawn f).slotAt? phase' j =
      if phase' = phase ∧ j = i then (e.slotAt? phase i).map f else e.slotAt? phase' j := by
  have hsame : ∀ (phase' : Phase) (j : Nat), ({ e with world, host }.draw phase drawn).slotAt? phase' j =
      e.slotAt? phase' j := fun phase' j => slotAt?_congr (by rw [scheduler_draw]) phase' j
  rw [after, slotAt?_modifySlot, hsame, hsame]

variable {e phase i} in
/-- A slot read after a callback is the slot of the system that was called, or was there before. -/
theorem slotAt?_after_cases {phase' : Phase} {j : Nat} {slot slot' : Slot σ ρ} (hslot : e.slotAt? phase i = some slot)
    (h : (e.after phase i world host drawn f).slotAt? phase' j = some slot') :
    (phase' = phase ∧ j = i ∧ slot' = f slot) ∨ (¬ (phase' = phase ∧ j = i) ∧ e.slotAt? phase' j = some slot') := by
  rw [slotAt?_after] at h
  split at h
  · rename_i hpos
    rw [hslot] at h
    cases h
    exact .inl ⟨hpos.1, hpos.2, rfl⟩
  · exact .inr ⟨‹_›, h⟩

theorem labels_after (hf : ∀ slot, ((f slot).id, (f slot).name, (f slot).phase) = (slot.id, slot.name, slot.phase))
    (phase' : Phase) : (e.after phase i world host drawn f).labels phase' = e.labels phase' := by
  unfold labels
  rw [scheduler_after, ByPhase.get_modify]
  split
  · rename_i hp
    subst hp
    apply List.ext_getElem?
    intro j
    rw [List.getElem?_map, List.getElem?_map, List.getElem?_modify]
    split <;> simp [Function.comp_def, hf]
  · rfl

theorem modifySlot_after (g : Slot σ ρ → Slot σ ρ) :
    (e.after phase i world host drawn f).modifySlot phase i g = e.after phase i world host drawn (g ∘ f) := by
  unfold after modifySlot
  dsimp only
  rw [ByPhase.modify_modify]
  congr 3
  funext l
  exact List.modify_modify_eq ..

/-- A slot that is changed before the callback instead of afterwards. -/
theorem after_modifySlot (g : Slot σ ρ → Slot σ ρ) :
    (e.modifySlot phase i g).after phase i world host drawn f = e.after phase i world host drawn (f ∘ g) := by
  have hslots : (e.scheduler.slots.modify phase (·.modify i g)).modify phase (·.modify i f) =
      e.scheduler.slots.modify phase (·.modify i (f ∘ g)) := by
    rw [ByPhase.modify_modify]
    congr 1
    funext l
    exact List.modify_modify_eq ..
  unfold after modifySlot draw
  split <;> simp only [hslots]

theorem after_withHost (host' : ε) :
    { e.after phase i world host drawn f with host := host' } = e.after phase i world host' drawn f := by
  unfold after modifySlot draw
  split <;> rfl

end after

theorem leaves_ignore {α : Type} {done : Engine σ ρ ε → Prop} {failed : EngineError → Engine σ ρ ε → Prop}
    {r : Except EngineError α × Engine σ ρ ε} (h : Leaves (fun _ e => done e) failed r) :
    Leaves (fun _ e => done e) failed (ignore r) := by
  obtain ⟨_ | _, e⟩ := r
  · exact h
  · exact h

theorem agree_ignore {α : Type} {done failed : Engine σ ρ ε → Engine σ ρ ε → Prop}
    {r r' : Except EngineError α × Engine σ ρ ε} (h : Agree done failed r r') :
    Agree done failed (ignore r) (ignore r') := h.map fun _ => ()

variable {sys : System σ ρ ε} {phase : Phase} {i : Nat} {e : Engine σ ρ ε} {slot : Slot σ ρ}

theorem updateSerial_eq (hslot : e.slotAt? phase i = some slot) (dt : Float32) :
    updateSerial sys phase dt e i =
      let reply := sys.updateSerial (e.context phase false) dt slot.system e.host
      match reply.outcome with
      | .error fault => (.error (.systemFailed phase slot.name fault),
          e.after phase i reply.world reply.host reply.drawn ({ · with system := reply.system }))
      | .ok result => ignore (deliver sys
          (e.after phase i reply.world reply.host reply.drawn
            ({ · with system := reply.system, pending := result }))) := by
  rw [updateSerial]
  rw [hslot]
  dsimp only
  cases houtcome : (sys.updateSerial (e.context phase false) dt slot.system e.host).outcome with
  | error fault => rfl
  | ok result =>
    have hafter := modifySlot_after e phase i (sys.updateSerial (e.context phase false) dt slot.system e.host).world
      (sys.updateSerial (e.context phase false) dt slot.system e.host).host
      (sys.updateSerial (e.context phase false) dt slot.system e.host).drawn
      ({ · with system := (sys.updateSerial (e.context phase false) dt slot.system e.host).system })
      ({ · with pending := result })
    exact congrArg (fun e => ignore (deliver sys e)) hafter

/-- A worker leaves the world alone; the copy of its result waits in its slot. -/
theorem updateParallel_eq (hslot : e.slotAt? phase i = some slot) (dt : Float32) (failure : Option EngineError) :
    updateParallel sys phase dt (failure, e) i =
      let reply := sys.update (e.context phase true) dt slot.system e.host
      match reply.outcome with
      | .error fault => (failure.or (some (.systemFailed phase slot.name fault)),
          e.after phase i e.world reply.host reply.drawn ({ · with system := reply.system }))
      | .ok result => (failure,
          e.after phase i e.world (sys.handOff result reply.host).2 reply.drawn
            ({ · with system := reply.system, pending := (sys.handOff result reply.host).1 })) := by
  rw [updateParallel]
  dsimp only
  rw [hslot]
  dsimp only
  generalize sys.update (e.context phase true) dt slot.system e.host = reply
  cases houtcome : reply.outcome with
  | error fault => rfl
  | ok result =>
    -- two changes of one slot are made one
    cases result with
    | none =>
      have hafter := modifySlot_after e phase i e.world reply.host reply.drawn ({ · with system := reply.system })
        ({ · with pending := none })
      exact congrArg (failure, ·) hafter
    | some result =>
      have hhost := host_after e phase i e.world reply.host reply.drawn ({ · with system := reply.system })
      have hafter := modifySlot_after e phase i e.world (sys.release result (sys.duplicate result reply.host).2)
        reply.drawn ({ · with system := reply.system })
        ({ · with pending := some (sys.duplicate result reply.host).1 })
      have hwith := after_withHost e phase i e.world reply.host reply.drawn ({ · with system := reply.system })
        (sys.release result (sys.duplicate result reply.host).2)
      rw [← hwith] at hafter
      rw [after] at hhost hafter
      dsimp only at hhost hafter ⊢
      rw [hhost]
      exact congrArg (failure, ·) hafter

/-- Where nothing waits there is nothing to apply. -/
theorem applyResult_of_none {a : Applied σ ρ ε} (hnone : (a.engine.slotAt? phase i).bind (·.pending) = none) :
    applyResult sys phase a i = (.ok (), a) := by
  rw [applyResult]
  cases hslot : a.engine.slotAt? phase i with
  | none => rfl
  | some slot =>
    have hpending : slot.pending = none := by rwa [hslot] at hnone
    dsimp only
    rw [hpending]

theorem applyResult_eq {a : Applied σ ρ ε} {result : ρ} (hslot : a.engine.slotAt? phase i = some slot)
    (hpending : slot.pending = some result) :
    applyResult sys phase a i =
      let reply := sys.apply result (a.engine.context phase false) slot.system a.engine.host
      let e := a.engine.after phase i reply.world reply.host reply.drawn
        ({ · with pending := none, system := reply.system })
      match reply.outcome with
      | .error fault => (.error (.systemFailed phase slot.name fault), { a with engine := e })
      | .ok () =>
        let r := ignore (deliver sys e)
        (r.1, ⟨r.2, a.count + 1, a.bytes + sys.byteSize result⟩) := by
  rw [applyResult]
  rw [hslot]
  dsimp only
  rw [hpending]
  dsimp only
  have hcontext : (a.engine.modifySlot phase i ({ · with pending := none })).context phase false =
      a.engine.context phase false := rfl
  have hhost : (a.engine.modifySlot phase i ({ · with pending := none })).host = a.engine.host := rfl
  rw [hcontext, hhost]
  generalize sys.apply result (a.engine.context phase false) slot.system a.engine.host = reply
  have hafter := after_modifySlot a.engine phase i reply.world reply.host reply.drawn
    ({ · with system := reply.system }) ({ · with pending := none })
  rw [after] at hafter
  rw [hafter]
  rfl

end Engine

end Cadence
