import Cadence.Engine.Routing
import Cadence.Proofs.InOrder

/-!
What routing does to the slots of an engine. Every slot hears the events in their order, and nothing changes but the
states of the systems that are told, the host, and the queue, which is empty afterwards.
-/

namespace Cadence

variable {σ ρ ε : Type}

/-! ### Slots by their positions -/

namespace Engine

theorem slotAt?_modifySlot (e : Engine σ ρ ε) (phase phase' : Phase) (i j : Nat) (f : Slot σ ρ → Slot σ ρ) :
    (e.modifySlot phase i f).slotAt? phase' j =
      if phase' = phase ∧ j = i then (e.slotAt? phase i).map f else e.slotAt? phase' j := by
  unfold slotAt? modifySlot
  dsimp only
  rw [ByPhase.get_modify]
  by_cases hp : phase' = phase
  · subst hp
    by_cases hj : j = i
    · simp [hj]
    · simp [hj, Ne.symm hj]
  · simp [hp]

@[simp] theorem world_modifySlot (e : Engine σ ρ ε) (phase : Phase) (i : Nat) (f : Slot σ ρ → Slot σ ρ) :
    (e.modifySlot phase i f).world = e.world := rfl

@[simp] theorem world_draw (e : Engine σ ρ ε) (phase : Phase) (drawn : Array Primitive) :
    (e.draw phase drawn).world = e.world := by
  rw [draw]
  split <;> rfl

@[simp] theorem host_draw (e : Engine σ ρ ε) (phase : Phase) (drawn : Array Primitive) :
    (e.draw phase drawn).host = e.host := by
  rw [draw]
  split <;> rfl

@[simp] theorem scheduler_draw (e : Engine σ ρ ε) (phase : Phase) (drawn : Array Primitive) :
    (e.draw phase drawn).scheduler = e.scheduler := by
  rw [draw]
  split <;> rfl

theorem slotAt?_congr {e e' : Engine σ ρ ε} (h : e'.scheduler.slots = e.scheduler.slots) (phase : Phase) (i : Nat) :
    e'.slotAt? phase i = e.slotAt? phase i := by
  unfold slotAt?
  rw [h]

/-- A slot read after one slot has been appended is that slot, or was there before. -/
theorem slotAt?_of_append {e e' : Engine σ ρ ε} {phase phase' : Phase} {i : Nat} {slot slot' : Slot σ ρ}
    (hslots : e'.scheduler.slots = e.scheduler.slots.modify phase (· ++ [slot]))
    (h : e'.slotAt? phase' i = some slot') : e.slotAt? phase' i = some slot' ∨ (phase' = phase ∧ slot' = slot) := by
  rw [slotAt?] at h ⊢
  rw [hslots, ByPhase.get_modify] at h
  split at h
  · rename_i hphase
    subst hphase
    rw [List.getElem?_append] at h
    split at h
    · exact .inl h
    · exact .inr ⟨rfl, List.mem_singleton.mp (List.mem_of_getElem? h)⟩
  · exact .inl h

/-- Who is registered, phase by phase. -/
def labels (e : Engine σ ρ ε) (phase : Phase) : List (Nat × String × Phase) :=
  (e.scheduler.slots.get phase).map fun slot => (slot.id, slot.name, slot.phase)

theorem length_labels (e : Engine σ ρ ε) (phase : Phase) :
    (e.labels phase).length = (e.scheduler.slots.get phase).length := List.length_map ..

end Engine

/-! ### One event -/

namespace System

/-- What one slot hears of an event about a component: its system is told and copes, or does not accept it. -/
inductive Told (sys : System σ ρ ε) (event : Event) (c : Component) (slot : Slot σ ρ) : Slot σ ρ → Prop
  | passed (h : sys.accepts slot.system c = false) : Told sys event c slot slot
  | told (host : ε) (haccepts : sys.accepts slot.system c = true)
      (hok : (sys.notify event c slot.system host).outcome = .ok ()) :
      Told sys event c slot { slot with system := (sys.notify event c slot.system host).system }

theorem leaves_notifyAll (sys : System σ ρ ε) (event : Event) (c : Component) (slots : List (Slot σ ρ)) (host : ε) :
    Leaves (fun _ left => ∀ i : Nat, Option.Rel (sys.Told event c) slots[i]? left.1[i]?)
      (fun err _ => ∃ phase name fault, err = .systemFailed phase name fault) (sys.notifyAll event c slots host) := by
  induction slots generalizing host with
  | nil => exact fun i => .none
  | cons slot rest ih =>
    rw [notifyAll]
    split
    · rename_i haccepts
      dsimp only
      split
      · exact ⟨_, _, _, rfl⟩
      · rename_i hok
        have hrest := ih (sys.notify event c slot.system host).host
        rcases hresult : sys.notifyAll event c rest (sys.notify event c slot.system host).host with
          ⟨err | _, rest', host'⟩
        · exact hrest.of_error hresult
        · intro i
          cases i with
          | zero => exact .some (.told host haccepts hok)
          | succ i => exact hrest.of_ok hresult i
    · rename_i haccepts
      have hrest := ih host
      rcases hresult : sys.notifyAll event c rest host with ⟨err | _, rest', host'⟩
      · exact hrest.of_error hresult
      · intro i
        cases i with
        | zero => exact .some (.passed (by simpa using haccepts))
        | succ i => exact hrest.of_ok hresult i

theorem leaves_notifyPhases (sys : System σ ρ ε) (event : Event) (c : Component) (slots : ByPhase (List (Slot σ ρ)))
    (host : ε) :
    Leaves (fun _ left => ∀ phase (i : Nat), Option.Rel (sys.Told event c) (slots.get phase)[i]? (left.1.get phase)[i]?)
      (fun err _ => ∃ phase name fault, err = .systemFailed phase name fault)
      (sys.notifyPhases event c slots host) := by
  rw [notifyPhases]
  have hearly := leaves_notifyAll sys event c slots.early host
  rcases hresult : sys.notifyAll event c slots.early host with ⟨err | _, early, host₁⟩
  · exact hearly.of_error hresult
  have hscript := leaves_notifyAll sys event c slots.script host₁
  dsimp only
  rcases hresult₁ : sys.notifyAll event c slots.script host₁ with ⟨err | _, script, host₂⟩
  · exact hscript.of_error hresult₁
  have hlate := leaves_notifyAll sys event c slots.late host₂
  dsimp only
  rcases hresult₂ : sys.notifyAll event c slots.late host₂ with ⟨err | _, late, host₃⟩
  · exact hlate.of_error hresult₂
  intro phase i
  cases phase with
  | early => exact hearly.of_ok hresult i
  | script => exact hscript.of_ok hresult₁ i
  | late => exact hlate.of_ok hresult₂ i

/-- What one slot hears of the events of a queue, in their order; events about components that are stored no longer
are passed over. -/
inductive Heard (sys : System σ ρ ε) (store : Store) : List Event → Slot σ ρ → Slot σ ρ → Prop
  | nil (slot : Slot σ ρ) : Heard sys store [] slot slot
  | skip {event : Event} {events : List Event} {slot slot' : Slot σ ρ} (hnone : store.get? event.handle = none)
      (hrest : Heard sys store events slot slot') : Heard sys store (event :: events) slot slot'
  | cons {event : Event} {events : List Event} {c : Component} {slot slot₁ slot' : Slot σ ρ}
      (hsome : store.get? event.handle = some c) (hfirst : sys.Told event c slot slot₁)
      (hrest : Heard sys store events slot₁ slot') : Heard sys store (event :: events) slot slot'

theorem Heard.append {sys : System σ ρ ε} {store : Store} {xs ys : List Event} {slot slot₁ slot' : Slot σ ρ}
    (h : sys.Heard store xs slot slot₁) (h' : sys.Heard store ys slot₁ slot') :
    sys.Heard store (xs ++ ys) slot slot' := by
  induction h with
  | nil => exact h'
  | skip hnone _ ih => exact .skip hnone (ih h')
  | cons hsome hfirst _ ih => exact .cons hsome hfirst (ih h')

/-- A callback changes nothing in a slot but the state of its system. -/
theorem Told.frame {sys : System σ ρ ε} {event : Event} {c : Component} {slot slot' : Slot σ ρ}
    (h : sys.Told event c slot slot') : slot' = { slot with system := slot'.system } := by
  cases h <;> rfl

theorem Heard.frame {sys : System σ ρ ε} {store : Store} {events : List Event} {slot slot' : Slot σ ρ}
    (h : sys.Heard store events slot slot') : slot' = { slot with system := slot'.system } := by
  induction h with
  | nil => rfl
  | skip _ _ ih => exact ih
  | cons _ hfirst _ ih => rw [ih, hfirst.frame]

end System

/-! ### The whole queue -/

namespace Engine

/-- `e'` is `e` but for the states of the systems and the host. -/
def SameFrame (e e' : Engine σ ρ ε) : Prop :=
  ∃ slots host, e' = { e with scheduler := { e.scheduler with slots }, host }

theorem SameFrame.refl (e : Engine σ ρ ε) : e.SameFrame e := ⟨e.scheduler.slots, e.host, rfl⟩

theorem SameFrame.trans {e e' e'' : Engine σ ρ ε} (h : e.SameFrame e') (h' : e'.SameFrame e'') : e.SameFrame e'' := by
  obtain ⟨_, _, rfl⟩ := h
  obtain ⟨slots, host, rfl⟩ := h'
  exact ⟨slots, host, rfl⟩

theorem SameFrame.world {e e' : Engine σ ρ ε} (h : e.SameFrame e') : e'.world = e.world := by
  obtain ⟨_, _, rfl⟩ := h
  rfl

/-- Every slot of `e'` is the slot of `e` at its position once that has heard the events. -/
def Hears (sys : System σ ρ ε) (events : List Event) (e e' : Engine σ ρ ε) : Prop :=
  ∀ phase i, Option.Rel (sys.Heard e.world.store events) (e.slotAt? phase i) (e'.slotAt? phase i)

theorem Hears.slot {sys : System σ ρ ε} {events : List Event} {e e' : Engine σ ρ ε} (h : Hears sys events e e')
    {phase : Phase} {i : Nat} {slot' : Slot σ ρ} (hslot' : e'.slotAt? phase i = some slot') :
    ∃ slot, e.slotAt? phase i = some slot ∧ sys.Heard e.world.store events slot slot' := by
  have hheard := h phase i
  rw [hslot'] at hheard
  revert hheard
  cases e.slotAt? phase i with
  | none => rintro ⟨⟩
  | some slot =>
    rintro ⟨hheard⟩
    exact ⟨slot, rfl, hheard⟩

theorem Hears.append {sys : System σ ρ ε} {xs ys : List Event} {e e' e'' : Engine σ ρ ε} (h : Hears sys xs e e')
    (hworld : e'.world = e.world) (h' : Hears sys ys e' e'') : Hears sys (xs ++ ys) e e'' := by
  intro phase i
  have hxs := h phase i
  have hys := h' phase i
  revert hxs hys
  cases e.slotAt? phase i <;> cases e'.slotAt? phase i <;> cases e''.slotAt? phase i <;> rintro ⟨hxs⟩ ⟨hys⟩
  · exact .none
  · exact .some (hxs.append (hworld ▸ hys))

theorem Hears.labels {sys : System σ ρ ε} {events : List Event} {e e' : Engine σ ρ ε} (h : Hears sys events e e')
    (phase : Phase) : e'.labels phase = e.labels phase := by
  apply List.ext_getElem?
  intro i
  have hi := h phase i
  simp only [Engine.labels, List.getElem?_map]
  unfold slotAt? at hi
  revert hi
  cases (e.scheduler.slots.get phase)[i]? <;> cases (e'.scheduler.slots.get phase)[i]? <;> rintro ⟨hi⟩
  · rfl
  · rw [hi.frame]
    rfl

theorem leaves_route (sys : System σ ρ ε) (e : Engine σ ρ ε) (event : Event) :
    Leaves (fun _ e' => e.SameFrame e' ∧ Hears sys [event] e e')
      (fun err e' => e.SameFrame e' ∧ ∃ phase name fault, err = .systemFailed phase name fault) (route sys e event) := by
  rw [route]
  split
  · rename_i hnone
    refine ⟨.refl e, fun phase i => ?_⟩
    cases e.slotAt? phase i with
    | none => exact .none
    | some slot => exact .some (.skip hnone (.nil slot))
  · rename_i c hsome
    have hphases := sys.leaves_notifyPhases event c e.scheduler.slots e.host
    rcases hresult : sys.notifyPhases event c e.scheduler.slots e.host with ⟨err | _, slots, host⟩
    · exact ⟨⟨slots, host, rfl⟩, hphases.of_error hresult⟩
    · refine ⟨⟨slots, host, rfl⟩, fun phase i => ?_⟩
      have htold := hphases.of_ok hresult phase i
      unfold slotAt?
      dsimp only at htold ⊢
      revert htold
      cases (e.scheduler.slots.get phase)[i]? <;> cases (slots.get phase)[i]? <;> rintro ⟨htold⟩
      · exact .none
      · exact .some (.cons hsome htold (.nil _))

theorem leaves_routeAll (sys : System σ ρ ε) (e : Engine σ ρ ε) (events : List Event) :
    Leaves (fun _ e' => e.SameFrame e' ∧ Hears sys events e e')
      (fun err e' => e.SameFrame e' ∧ ∃ phase name fault, err = .systemFailed phase name fault)
      (inOrder (route sys) e events) := by
  induction events generalizing e with
  | nil =>
    refine ⟨.refl e, fun phase i => ?_⟩
    cases e.slotAt? phase i with
    | none => exact .none
    | some slot => exact .some (.nil slot)
  | cons event rest ih =>
    have hfirst := leaves_route sys e event
    rw [inOrder]
    rcases hresult : route sys e event with ⟨err | _, e₁⟩
    · exact hfirst.of_error hresult
    · obtain ⟨hframe, hhears⟩ := hfirst.of_ok hresult
      refine (ih e₁).mono (fun _ e' h => ?_) fun err e' h => ?_
      · exact ⟨hframe.trans h.1, hhears.append hframe.world h.2⟩
      · exact ⟨hframe.trans h.1, h.2⟩

theorem deliver_eq (sys : System σ ρ ε) (e : Engine σ ρ ε) :
    deliver sys e =
      match inOrder (route sys) { e with world := e.world.drain.2 } e.world.events.toList with
      | (.error err, e) => (.error err, { e with scheduler := { e.scheduler with poisoned := true } })
      | (.ok (), e') => (.ok e.world.events.size, e') := rfl

/-- The queue is taken; either every slot hears all of it, or a callback fails and the scheduler is poisoned. -/
theorem leaves_deliver (sys : System σ ρ ε) (e : Engine σ ρ ε) :
    Leaves (fun _ e' => { e with world := e.world.drain.2 }.SameFrame e' ∧ Hears sys e.world.events.toList e e')
      (fun err e' => e'.world = e.world.drain.2 ∧ e'.scheduler.poisoned = true ∧
        ∃ phase name fault, err = .systemFailed phase name fault)
      (deliver sys e) := by
  have hall := leaves_routeAll sys { e with world := e.world.drain.2 } e.world.events.toList
  rw [deliver_eq]
  rcases hresult : inOrder (route sys) { e with world := e.world.drain.2 } e.world.events.toList with ⟨err | _, e'⟩
  · obtain ⟨hframe, herr⟩ := hall.of_error hresult
    exact ⟨hframe.world, rfl, herr⟩
  · exact hall.of_ok hresult

end Engine

end Cadence
