import Cadence.Proofs.Engine.Lifecycle
import Cadence.Proofs.Engine.Parallel
import Cadence.Proofs.Engine.Tale

/-!
Registration is all or nothing. Before the queue is delivered nothing has happened; the delivery is about those who are
registered already; and what comes after it, the initialisation of the newcomer and the components that it is offered,
is about the newcomer alone, which is entered with its name, its phase and the next id when all of it has gone well.

So along a run the ids are given out in order, and the systems of each phase, found by their names or by their ids, are
those whose registration has succeeded, as long as the scheduler has not been shut down.
-/

namespace Cadence

variable {σ ρ ε : Type}

/-! ### What a delivery depends on -/

namespace System

/-- Two systems do the same when they are told of components. -/
structure ListensAs (sys sys' : System σ ρ ε) : Prop where
  accepts : sys'.accepts = sys.accepts
  added : sys'.added = sys.added
  removed : sys'.removed = sys.removed

namespace ListensAs

variable {sys sys' : System σ ρ ε}

theorem notifyAll_eq (h : sys.ListensAs sys') (event : Event) (c : Component) (slots : List (Slot σ ρ)) (host : ε) :
    sys'.notifyAll event c slots host = sys.notifyAll event c slots host := by
  have hnotify : sys'.notify event c = sys.notify event c := by
    funext s host
    cases event <;> simp only [notify, h.added, h.removed]
  induction slots generalizing host with
  | nil => rfl
  | cons slot rest ih =>
    unfold notifyAll
    simp only [h.accepts, hnotify, ih]

theorem deliver_eq (h : sys.ListensAs sys') (e : Engine σ ρ ε) : e.deliver sys' = e.deliver sys := by
  have hroute : Engine.route sys' = Engine.route sys := by
    funext e event
    simp only [Engine.route, notifyPhases, h.notifyAll_eq]
  rw [Engine.deliver_eq, Engine.deliver_eq, hroute]

end ListensAs

end System

namespace Engine

/-! ### One registration -/

section one

variable {sys : System σ ρ ε} {e e' : Engine σ ρ ε} {phase : Phase} {s : σ}

/-- Nothing speaks against a registration before it is begun. -/
structure Admits (sys : System σ ρ ε) (e : Engine σ ρ ε) (s : σ) : Prop where
  isOpen : e.scheduler.closed = false
  fresh : sys.name s ∉ e.scheduler.names
  compatible : isApiCompatible (sys.version s) apiVersion = true

/-- All that a registration can come to. -/
inductive Registers (sys : System σ ρ ε) (e : Engine σ ρ ε) (phase : Phase) (s : σ) :
    Except EngineError Nat → Engine σ ρ ε → Prop
  | shutDown (hclosed : e.scheduler.closed = true) : Registers sys e phase s (.error .shutDown) e
  | duplicate (hopen : e.scheduler.closed = false) (hname : sys.name s ∈ e.scheduler.names) :
      Registers sys e phase s (.error (.duplicateSystem (sys.name s))) e
  | incompatible (hopen : e.scheduler.closed = false) (hfresh : sys.name s ∉ e.scheduler.names)
      (hversion : isApiCompatible (sys.version s) apiVersion = false) :
      Registers sys e phase s (.error (.incompatibleApi (sys.name s) (sys.version s))) e
  | undelivered {err : EngineError} {e' : Engine σ ρ ε} (hadmits : Admits sys e s)
      (hdeliver : deliver sys e = (.error err, e')) : Registers sys e phase s (.error err) e'
  | refused {n : Nat} {e₁ : Engine σ ρ ε} {fault : Fault} {host : ε} (hadmits : Admits sys e s)
      (hdeliver : deliver sys e = (.ok n, e₁)) (hrefuses : Refuses sys e₁ phase e₁.scheduler.nextId s host) :
      Registers sys e phase s (.error (.initFailed (sys.name s) fault)) { e₁ with host }
  | joined {n : Nat} {e₁ : Engine σ ρ ε} {host : ε} {slot : Slot σ ρ} (hadmits : Admits sys e s)
      (hdeliver : deliver sys e = (.ok n, e₁))
      (hlabel : (slot.id, slot.name, slot.phase) = (e₁.scheduler.nextId, sys.name s, phase)) :
      Registers sys e phase s (.ok e₁.scheduler.nextId)
        { e₁ with
          scheduler := { e₁.scheduler with
            slots := e₁.scheduler.slots.modify phase (· ++ [slot])
            names := e₁.scheduler.names ++ [sys.name s]
            nextId := e₁.scheduler.nextId + 1 }
          host }

theorem registers (sys : System σ ρ ε) (e : Engine σ ρ ε) (phase : Phase) (s : σ) :
    Registers sys e phase s (register sys e phase s).1 (register sys e phase s).2 := by
  unfold register
  dsimp only
  split
  · rename_i hclosed
    exact .shutDown hclosed
  rename_i hclosed
  have hopen : e.scheduler.closed = false := by simpa using hclosed
  split
  · rename_i hname
    exact .duplicate hopen (by simpa using hname)
  rename_i hname
  have hfresh : sys.name s ∉ e.scheduler.names := by simpa using hname
  split
  · rename_i hversion
    exact .incompatible hopen hfresh (by simpa using hversion)
  rename_i hversion
  have hadmits : Admits sys e s := ⟨hopen, hfresh, by simpa using hversion⟩
  rcases hdeliver : deliver sys e with ⟨err | n, e₁⟩
  · exact .undelivered hadmits hdeliver
  dsimp only
  cases hinit : (sys.init e₁.world phase e₁.scheduler.nextId s e₁.host).outcome with
  | error fault => exact .refused hadmits hdeliver (.init hinit)
  | ok _ =>
    dsimp only
    split
    · rename_i hoffers
      exact .refused hadmits hdeliver (.offer hoffers)
    · exact .joined hadmits hdeliver rfl

/-- The register of the systems is as before: who is in it, the names and the next id. Nothing else has changed but that
the queue has been taken out of the world, and what the systems and the host have made of it. -/
structure SameRegister (e e' : Engine σ ρ ε) : Prop where
  labels : ∀ phase, e'.labels phase = e.labels phase
  scheduler : ∃ slots, e'.scheduler = { e.scheduler with slots }
  world : e'.world = e.world.drain.2
  screen : e'.screen = e.screen

theorem sameRegister_of_deliver {n : Nat} (hdeliver : deliver sys e = (.ok n, e')) (host : ε) :
    SameRegister e { e' with host } := by
  obtain ⟨⟨slots, _, hframe⟩, hhears⟩ := (leaves_deliver sys e).of_ok hdeliver
  refine ⟨hhears.labels, ⟨slots, ?_⟩, ?_, ?_⟩
  · rw [hframe]
  · rw [hframe]
  · rw [hframe]

/-- Where nothing speaks against it and nothing is queued, a registration succeeds unless the newcomer fails. -/
theorem register_of_admits (hadmits : Admits sys e s) (hevents : e.world.events = #[]) (phase : Phase) :
    (∃ e', register sys e phase s = (.ok e.scheduler.nextId, e')) ∨
      ∃ host, Refuses sys e phase e.scheduler.nextId s host := by
  have hdelivered := deliver_of_empty sys hevents
  have hregisters := registers sys e phase s
  rcases hresult : register sys e phase s with ⟨r, e'⟩
  rw [hresult] at hregisters
  cases hregisters with
  | shutDown hclosed => exact absurd (hadmits.isOpen.symm.trans hclosed) nofun
  | duplicate _ hname => exact absurd hname hadmits.fresh
  | incompatible _ _ hversion => exact absurd (hadmits.compatible.symm.trans hversion) nofun
  | undelivered _ hdeliver => exact absurd (hdelivered.symm.trans hdeliver) nofun
  | refused _ hdeliver hrefuses =>
    cases hdelivered.symm.trans hdeliver
    exact .inr ⟨_, hrefuses⟩
  | joined _ hdeliver _ =>
    cases hdelivered.symm.trans hdeliver
    exact .inl ⟨_, rfl⟩

/-- What a registration that fails leaves behind. A refusal leaves the engine as it is and depends on the name and the
version of the newcomer only, so no callback is made; if the delivery fails, the scheduler is poisoned, and nothing that
the newcomer does when it is initialised makes a difference; and if the newcomer fails, its name is free as before. -/
inductive Fails (sys : System σ ρ ε) (e : Engine σ ρ ε) (phase : Phase) (s : σ) : EngineError → Engine σ ρ ε → Prop
  | refused {err : EngineError}
      (kind : err = .shutDown ∨ err = .duplicateSystem (sys.name s) ∨
        err = .incompatibleApi (sys.name s) (sys.version s))
      (uncalled : ∀ sys' : System σ ρ ε, sys'.name s = sys.name s → sys'.version s = sys.version s →
        register sys' e phase s = (.error err, e)) : Fails sys e phase s err e
  | systemFailed {phase' : Phase} {name : String} {fault : Fault} {e' : Engine σ ρ ε}
      (delivered : deliver sys e = (.error (.systemFailed phase' name fault), e'))
      (poisoned : e'.scheduler.poisoned = true)
      (uncalled : ∀ sys' : System σ ρ ε, sys'.name s = sys.name s → sys'.version s = sys.version s →
        sys.ListensAs sys' → register sys' e phase s = (.error (.systemFailed phase' name fault), e')) :
      Fails sys e phase s (.systemFailed phase' name fault) e'
  | initFailed {n : Nat} {e₁ : Engine σ ρ ε} {fault : Fault} {host : ε} (delivered : deliver sys e = (.ok n, e₁))
      (same : SameRegister e { e₁ with host })
      (again : ∀ (phase' : Phase) (s' : σ), sys.name s' = sys.name s →
        isApiCompatible (sys.version s') apiVersion = true →
        (∃ e', register sys { e₁ with host } phase' s' = (.ok e.scheduler.nextId, e')) ∨
          ∃ host', Refuses sys { e₁ with host } phase' e.scheduler.nextId s' host') :
      Fails sys e phase s (.initFailed (sys.name s) fault) { e₁ with host }

theorem fails_of_register {err : EngineError} (h : register sys e phase s = (.error err, e')) :
    Fails sys e phase s err e' := by
  have hregisters := registers sys e phase s
  rw [h] at hregisters
  dsimp only at hregisters
  cases hregisters with
  | shutDown hclosed =>
    exact .refused (.inl rfl) fun sys' _ _ => register_of_closed sys' hclosed phase s
  | duplicate hopen hname =>
    refine .refused (.inr (.inl rfl)) fun sys' hsame _ => ?_
    simp [register, hopen, hsame, hname]
  | incompatible hopen hfresh hversion =>
    refine .refused (.inr (.inr rfl)) fun sys' hsame hsame' => ?_
    simp [register, hopen, hsame, hfresh, hsame', hversion]
  | undelivered hadmits hdeliver =>
    obtain ⟨_, hpoisoned, phase', name, fault, rfl⟩ := (leaves_deliver sys e).of_error hdeliver
    refine .systemFailed hdeliver hpoisoned fun sys' hsame hsame' hlistens => ?_
    simp [register, hadmits.isOpen, hsame, hadmits.fresh, hsame', hadmits.compatible, hlistens.deliver_eq, hdeliver]
  | @refused _ e₁ _ host hadmits hdeliver _ =>
    have hsame := sameRegister_of_deliver hdeliver host
    refine .initFailed hdeliver hsame fun phase' s' hname hversion => ?_
    obtain ⟨_, hscheduler⟩ := hsame.scheduler
    have hadmits' : Admits sys { e₁ with host } s' := by
      refine ⟨?_, ?_, hversion⟩
      · rw [hscheduler]
        exact hadmits.isOpen
      · rw [hscheduler, hname]
        exact hadmits.fresh
    have hnext : e₁.scheduler.nextId = e.scheduler.nextId := (congrArg Scheduler.nextId hscheduler :)
    rw [← hnext]
    exact register_of_admits hadmits' (congrArg World.events hsame.world) phase'

end one

/-! ### Runs -/

/-- The label of the system that an operation has registered: its id, its name and its phase. -/
def newcomer (sys : System σ ρ ε) : Op σ → Except EngineError Answer → List (Nat × String × Phase)
  | .register phase s, .ok (.registered id) => [(id, sys.name s, phase)]
  | _, _ => []

/-- The labels of all systems that a run registers. -/
def newcomers (sys : System σ ρ ε) (e : Engine σ ρ ε) : List (Op σ) → List (Nat × String × Phase)
  | [] => []
  | op :: rest => newcomer sys op (perform sys e op).1 ++ newcomers sys (perform sys e op).2 rest

/-- The register holds those that have been made members, with ids in the order in which they were, and nobody else. -/
structure Enlists (made : List (Nat × String × Phase)) (e : Engine σ ρ ε) : Prop where
  isOpen : e.scheduler.closed = false
  ids : made.map (·.1) = List.range made.length
  nextId : e.scheduler.nextId = made.length
  names : e.scheduler.names = made.map (·.2.1)
  distinct : (made.map (·.2.1)).Nodup
  labels : ∀ phase, e.labels phase = made.filter (·.2.2 = phase)

namespace Enlists

variable {made : List (Nat × String × Phase)} {e e' : Engine σ ρ ε}

theorem start (settings : Settings.Scheduling) (screen : Screen) (host : ε) :
    Enlists [] (start settings screen host : Engine σ ρ ε) where
  isOpen := rfl
  ids := rfl
  nextId := rfl
  names := rfl
  distinct := .nil
  labels phase := by cases phase <;> rfl

theorem congr (h : Enlists made e) (hlabels : ∀ phase, e'.labels phase = e.labels phase)
    (hscheduler : ∃ slots next frame poisoned, e'.scheduler = { e.scheduler with slots, next, frame, poisoned }) :
    Enlists made e' := by
  obtain ⟨_, _, _, _, hscheduler⟩ := hscheduler
  refine ⟨?_, h.ids, ?_, ?_, h.distinct, fun phase => (hlabels phase).trans (h.labels phase)⟩
  · rw [hscheduler, h.isOpen]
  · rw [hscheduler, h.nextId]
  · rw [hscheduler, h.names]

/-- A newcomer comes last in its phase and gets the next id. -/
theorem joined (h : Enlists made e) {name : String} {phase : Phase} {slot : Slot σ ρ}
    (hfresh : name ∉ e.scheduler.names) (hlabel : (slot.id, slot.name, slot.phase) = (e.scheduler.nextId, name, phase))
    (hscheduler : e'.scheduler = { e.scheduler with
      slots := e.scheduler.slots.modify phase (· ++ [slot])
      names := e.scheduler.names ++ [name]
      nextId := e.scheduler.nextId + 1 }) : Enlists (made ++ [(e.scheduler.nextId, name, phase)]) e' where
  isOpen := by rw [hscheduler, h.isOpen]
  ids := by simp [h.ids, h.nextId, List.range_succ]
  nextId := by simp [hscheduler, h.nextId]
  names := by simp [hscheduler, h.names]
  distinct := by
    rw [h.names] at hfresh
    rw [List.map_append, List.nodup_append]
    refine ⟨h.distinct, List.nodup_singleton _, fun a ha b hb => ?_⟩
    rw [List.map_singleton, List.mem_singleton] at hb
    rintro rfl
    rw [hb] at ha
    exact hfresh ha
  labels phase' := by
    have hbefore := h.labels phase'
    rw [Engine.labels] at hbefore
    rw [Engine.labels, hscheduler, ByPhase.get_modify, List.filter_append]
    split
    · rename_i hphase
      rw [List.map_append, ← hphase, hbefore, List.map_singleton, hlabel]
      simp [hphase]
    · rename_i hphase
      rw [hbefore]
      simp [Ne.symm hphase]

/-! #### Looking systems up -/

theorem label_of_mem (h : Enlists made e) {slot : Slot σ ρ} (hmem : slot ∈ e.scheduler.allSlots) :
    (slot.id, slot.name, slot.phase) ∈ made := by
  obtain ⟨slots, hslots, hin⟩ := List.mem_flatten.mp hmem
  have hphase : ∃ phase, slots = e.scheduler.slots.get phase := by
    simp only [ByPhase.toList, List.mem_cons, List.not_mem_nil, or_false] at hslots
    rcases hslots with rfl | rfl | rfl
    · exact ⟨.early, rfl⟩
    · exact ⟨.script, rfl⟩
    · exact ⟨.late, rfl⟩
  obtain ⟨phase, rfl⟩ := hphase
  have hlabel : (slot.id, slot.name, slot.phase) ∈ e.labels phase := List.mem_map.mpr ⟨slot, hin, rfl⟩
  rw [h.labels] at hlabel
  exact (List.mem_filter.mp hlabel).1

theorem exists_slot (h : Enlists made e) {label : Nat × String × Phase} (hmem : label ∈ made) :
    ∃ slot ∈ e.scheduler.allSlots, (slot.id, slot.name, slot.phase) = label := by
  have hlabel : label ∈ e.labels label.2.2 := by
    rw [h.labels]
    exact List.mem_filter.mpr ⟨hmem, by simp⟩
  obtain ⟨slot, hin, rfl⟩ := List.mem_map.mp hlabel
  refine ⟨slot, List.mem_flatten.mpr ⟨_, ?_, hin⟩, rfl⟩
  cases slot.phase <;> simp [ByPhase.toList, ByPhase.get]

/-- Whoever asks for a system by something that tells systems apart finds it. -/
theorem find?_of_mem (h : Enlists made e) {α : Type} [BEq α] [LawfulBEq α] {key : Nat × String × Phase → α}
    (hkey : (made.map key).Nodup) {label : Nat × String × Phase} (hmem : label ∈ made) :
    ∃ slot, e.scheduler.allSlots.find? (fun slot => key (slot.id, slot.name, slot.phase) == key label) = some slot ∧
      (slot.id, slot.name, slot.phase) = label := by
  obtain ⟨slot, hin, hlabel⟩ := h.exists_slot hmem
  cases hfind : e.scheduler.allSlots.find? fun slot => key (slot.id, slot.name, slot.phase) == key label with
  | none => exact absurd (congrArg key hlabel) (by simpa using List.find?_eq_none.mp hfind slot hin)
  | some found =>
    refine ⟨found, rfl, List.inj_on_of_nodup_map hkey (h.label_of_mem (List.mem_of_find?_eq_some hfind)) hmem ?_⟩
    simpa using List.find?_some hfind

theorem systemId?_of_mem (h : Enlists made e) {id : Nat} {name : String} {phase : Phase}
    (hmem : (id, name, phase) ∈ made) : e.scheduler.systemId? name = some id := by
  obtain ⟨slot, hfind, hlabel⟩ := h.find?_of_mem h.distinct hmem
  rw [Scheduler.systemId?, hfind]
  exact congrArg (fun label => some label.1) hlabel

theorem phaseOf?_of_mem (h : Enlists made e) {id : Nat} {name : String} {phase : Phase}
    (hmem : (id, name, phase) ∈ made) : e.scheduler.phaseOf? id = some phase := by
  have hids : (made.map (·.1)).Nodup := by
    rw [h.ids]
    exact List.nodup_range
  obtain ⟨slot, hfind, hlabel⟩ := h.find?_of_mem hids hmem
  rw [Scheduler.phaseOf?, Scheduler.slot?, hfind]
  exact congrArg (fun label => some label.2.2) hlabel

theorem namesIn_eq (h : Enlists made e) (phase : Phase) :
    e.scheduler.namesIn phase = (made.filter (·.2.2 = phase)).map (·.2.1) := by
  rw [← h.labels, Engine.labels, List.map_map]
  rfl

theorem pairwise_ids (h : Enlists made e) (phase : Phase) :
    (e.scheduler.slots.get phase).Pairwise (·.id < ·.id) := by
  have hids : (made.map (·.1)).Pairwise (· < ·) := by
    rw [h.ids]
    exact List.pairwise_lt_range
  have hphase := (List.pairwise_map.mp hids).filter (·.2.2 = phase)
  rw [← h.labels, Engine.labels, List.pairwise_map] at hphase
  exact hphase

end Enlists

/-! ### Who is registered in the course of a run -/

section recorded

variable {sys : System σ ρ ε} {e e' : Recorded σ ρ ε} {made : List (Nat × String × Phase)}

theorem labels_eq_cards (e : Recorded σ ρ ε) (phase : Phase) :
    e.labels phase = (e.cards phase).map fun card => (card.id, card.name, card.phase) := by
  rw [labels, cards, List.map_map]
  rfl

theorem labels_congr (hcards : ∀ phase, e'.cards phase = e.cards phase) (phase : Phase) :
    e'.labels phase = e.labels phase := by
  rw [labels_eq_cards, labels_eq_cards, hcards]

/-- What happens in a frame leaves the names, the next id and the scheduler open. -/
theorem Does.scheduler {act : Act ρ} (h : Does sys e act e') (hact : act.IsOfFrame) :
    ∃ slots next frame poisoned, e'.scheduler = { e.scheduler with slots, next, frame, poisoned } := by
  cases h with
  | routing h =>
    obtain ⟨_, _, hscheduler⟩ := (h.accounts .early).scheduler
    exact ⟨_, _, _, _, hscheduler⟩
  | joining => cases hact
  | done _ h =>
    obtain ⟨_, _, hscheduler⟩ := h.accounts.scheduler
    rw [scheduler_beginPhase] at hscheduler
    exact ⟨_, _, _, _, congrArg (fun s => { s with next := s.next.next }) hscheduler⟩
  | @broken e₁ run _ _ h =>
    obtain ⟨_, _, hscheduler⟩ := h.accounts.scheduler
    rw [scheduler_beginPhase] at hscheduler
    refine ⟨(e₁.abort run.phase).scheduler.slots, e.scheduler.next, e₁.scheduler.frame, true, ?_⟩
    rw [abort, hscheduler]
  | ending => exact ⟨_, _, _, _, rfl⟩
  | closing => cases hact

theorem Story.scheduler {acts : List (Act ρ)} (h : Story sys e acts e') (hacts : ∀ act ∈ acts, act.IsOfFrame) :
    ∃ slots next frame poisoned, e'.scheduler = { e.scheduler with slots, next, frame, poisoned } := by
  induction h with
  | nil => exact ⟨_, _, _, _, rfl⟩
  | cons hfirst _ ih =>
    obtain ⟨_, _, _, _, hscheduler⟩ := hfirst.scheduler (hacts _ List.mem_cons_self)
    obtain ⟨slots, next, frame, poisoned, hscheduler'⟩ := ih fun act hmem => hacts act (List.mem_cons_of_mem _ hmem)
    exact ⟨slots, next, frame, poisoned, by rw [hscheduler', hscheduler]⟩

theorem Enlists.delivered (h : Enlists made e) (sys : System σ ρ ε) : Enlists made (deliver sys.recorded e).2 := by
  obtain ⟨calls, htells, _, _⟩ := deliver_tells sys e
  obtain ⟨_, _, hscheduler⟩ := (htells.accounts .early).scheduler
  exact h.congr (labels_congr htells.cards) ⟨_, _, _, _, hscheduler⟩

theorem Enlists.register (h : Enlists made e) (sys : System σ ρ ε) (phase : Phase) (s : σ) :
    let r := Engine.register sys.recorded e phase ⟨s, 0⟩
    Enlists (made ++ newcomer sys (.register phase s) (r.1.map .registered)) r.2 := by
  have hdelivered := h.delivered sys
  have hregisters := registers sys.recorded e phase ⟨s, 0⟩
  rcases hresult : Engine.register sys.recorded e phase ⟨s, 0⟩ with ⟨r, e'⟩
  rw [hresult] at hregisters
  have hkept : Enlists made e' → Enlists (made ++ []) e' := by
    rw [List.append_nil]
    exact id
  cases hregisters with
  | shutDown | duplicate | incompatible => exact hkept h
  | undelivered _ hdeliver =>
    rw [hdeliver] at hdelivered
    exact hkept hdelivered
  | refused _ hdeliver _ =>
    rw [hdeliver] at hdelivered
    exact hkept (hdelivered.congr (fun _ => rfl) ⟨_, _, _, _, rfl⟩)
  | joined hadmits hdeliver hlabel =>
    have hnames := h.names
    rw [hdeliver] at hdelivered
    refine hdelivered.joined ?_ hlabel rfl
    rw [hdelivered.names, ← hnames]
    exact hadmits.fresh

theorem Enlists.perform (h : Enlists made e) (he : e.Orderly) (sys : System σ ρ ε) {op : Op σ} (hop : op ≠ .shutdown) :
    let r := Engine.perform sys.recorded e op.marked
    Enlists (made ++ newcomer sys op r.1) r.2 := by
  have hframe : op.IsOfFrame → Enlists made (Engine.perform sys.recorded e op.marked).2 := by
    intro hofFrame
    obtain ⟨acts, hperformed⟩ := exists_performed sys he op
    have hstory := hperformed.tale.story
    have hacts := hperformed.ofFrame hofFrame
    have hbefore : ({ e with world := op.edited e.world } : Recorded σ ρ ε).Orderly := he.congr (fun _ => rfl) rfl
    exact h.congr (labels_congr (hstory.members hbefore hacts).2) (hstory.scheduler hacts)
  cases op with
  | register phase s => exact h.register sys phase s
  | shutdown => exact absurd rfl hop
  | _ =>
    dsimp only
    rw [newcomer, List.append_nil]
    · exact hframe trivial
    · nofun

theorem Enlists.run (h : Enlists made e) (he : e.Orderly) (sys : System σ ρ ε) {ops : List (Op σ)}
    (hops : .shutdown ∉ ops) :
    Enlists (made ++ newcomers sys (Recorded.erase e) ops) (Engine.run sys.recorded e (ops.map Op.marked)) := by
  induction ops generalizing made e with
  | nil =>
    rw [newcomers, List.append_nil]
    exact h
  | cons op rest ih =>
    have hfirst : op ≠ .shutdown := fun heq => hops (heq ▸ List.mem_cons_self)
    have hrest := ih (h.perform he sys hfirst) (he.perform sys op) fun hmem => hops (List.mem_cons_of_mem _ hmem)
    rw [newcomers, ← erased_perform, ← List.append_assoc]
    exact hrest

theorem Enlists.erase (h : Enlists made e) : Enlists made (Recorded.erase e) where
  isOpen := h.isOpen
  ids := h.ids
  nextId := h.nextId
  names := h.names
  distinct := h.distinct
  labels phase := by
    have hslots : (Recorded.erase e).scheduler.slots.get phase = (e.scheduler.slots.get phase).map Slot.erase :=
      ByPhase.get_map ..
    rw [← h.labels, Engine.labels, Engine.labels, hslots, List.map_map]
    rfl

end recorded

/-- Registration is atomic. A registration that fails leaves what `Fails` says: nothing has happened if it is refused,
only the queue has been delivered if the newcomer fails, and the scheduler is poisoned if the delivery fails. In a run
without a shutdown the registrations that succeed get the ids 0, 1, 2 and so on and different names; each phase lists
those that were registered into it, in the order of their ids; and a system is found by its name and by its id as it was
registered. -/
theorem registration_is_atomic (sys : System σ ρ ε) :
    (∀ (e e' : Engine σ ρ ε) (phase : Phase) (s : σ) (err : EngineError),
      register sys e phase s = (.error err, e') → Fails sys e phase s err e') ∧
    ∀ (settings : Settings.Scheduling) (screen : Screen) (host : ε) (ops : List (Op σ)), .shutdown ∉ ops →
      let e := run sys (start settings screen host) ops
      let made := newcomers sys (start settings screen host) ops
      made.map (·.1) = List.range made.length ∧ e.scheduler.nextId = made.length ∧
      (made.map (·.2.1)).Nodup ∧ e.scheduler.names = made.map (·.2.1) ∧
      (∀ phase, e.labels phase = made.filter (·.2.2 = phase) ∧
        (e.scheduler.slots.get phase).Pairwise (·.id < ·.id) ∧
        e.scheduler.namesIn phase = (made.filter (·.2.2 = phase)).map (·.2.1)) ∧
      ∀ id name phase, (id, name, phase) ∈ made →
        e.scheduler.systemId? name = some id ∧ e.scheduler.phaseOf? id = some phase := by
  refine ⟨fun _ _ _ _ _ => fails_of_register, fun settings screen host ops hops => ?_⟩
  have hrecorded := Enlists.run (.start settings screen (host, [])) (.start settings screen (host, [])) sys hops
  have hrun := hrecorded.erase
  rw [erase_run] at hrun
  have h : Enlists (newcomers sys (start settings screen host) ops) (run sys (start settings screen host) ops) := hrun
  exact ⟨h.ids, h.nextId, h.distinct, h.names, fun phase => ⟨h.labels phase, h.pairwise_ids phase, h.namesIn_eq phase⟩,
    fun _ _ _ hmem => ⟨h.systemId?_of_mem hmem, h.phaseOf?_of_mem hmem⟩⟩

end Engine

end Cadence
