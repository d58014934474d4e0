import Cadence.Proofs.Engine.Run

/-!
Systems that do what others do and keep something more in their states or in the host. Forgetting what they keep leads
from a run with them to the run with the others.
-/

namespace Cadence

variable {σ τ ρ ε η α β : Type}

/-! ### Forgetting -/

namespace Reply

def project (f : τ → σ) (g : η → ε) (r : Reply τ η α) : Reply σ ε α := ⟨r.outcome, f r.system, g r.host⟩

end Reply

namespace DrawReply

def project (f : τ → σ) (g : η → ε) (r : DrawReply τ η α) : DrawReply σ ε α :=
  { r.toReply.project f g with drawn := r.drawn }

end DrawReply

namespace WriteReply

def project (f : τ → σ) (g : η → ε) (r : WriteReply τ η α) : WriteReply σ ε α :=
  { r.toDrawReply.project f g with world := r.world }

end WriteReply

namespace Slot

def onSystem (f : σ → τ) (slot : Slot σ ρ) : Slot τ ρ :=
  ⟨slot.id, slot.name, slot.phase, f slot.system, slot.pending⟩

end Slot

namespace ByPhase

def map (f : α → β) (m : ByPhase α) : ByPhase β := ⟨f m.early, f m.script, f m.late⟩

@[simp] theorem get_map (f : α → β) (m : ByPhase α) (phase : Phase) : (m.map f).get phase = f (m.get phase) := by
  cases phase <;> rfl

theorem map_modify {f : α → β} (g : α → α) (g' : β → β) (h : ∀ a, f (g a) = g' (f a)) (m : ByPhase α) (phase : Phase) :
    (m.modify phase g).map f = (m.map f).modify phase g' := by
  cases phase <;> simp [modify, map, h]

end ByPhase

namespace Scheduler

def onSystems (f : τ → σ) (s : Scheduler τ ρ) : Scheduler σ ρ :=
  { settings := s.settings, slots := s.slots.map (·.map (Slot.onSystem f)), names := s.names, nextId := s.nextId
    next := s.next, frame := s.frame, poisoned := s.poisoned, closed := s.closed }

end Scheduler

namespace Engine

def project (f : τ → σ) (g : η → ε) (e : Engine τ ρ η) : Engine σ ρ ε :=
  { scheduler := e.scheduler.onSystems f, world := e.world, screen := e.screen, host := g e.host }

/-- What an operation answers, and the projection of the engine it leaves. -/
def projected (f : τ → σ) (g : η → ε) (r : Except EngineError α × Engine τ ρ η) :
    Except EngineError α × Engine σ ρ ε := (r.1, r.2.project f g)

def Op.map (f : τ → σ) : Op τ → Op σ
  | register phase s => register phase (f s)
  | spawn persistent => spawn persistent
  | attach entity c => attach entity c
  | detach h => detach h
  | mark entity => mark entity
  | clear persistentToo => clear persistentToo
  | edit change => edit change
  | runPhase phase dt parallel => runPhase phase dt parallel
  | endFrame => endFrame
  | runFrame dt => runFrame dt
  | deliver => deliver
  | route event => route event
  | shutdown => shutdown

end Engine

/-- Every callback of `sys'` does what that of `sys` does, on the projections of its state and of the host. -/
structure Simulates (sys' : System τ ρ η) (sys : System σ ρ ε) (f : τ → σ) (g : η → ε) : Prop where
  name : ∀ s, sys'.name s = sys.name (f s)
  version : ∀ s, sys'.version s = sys.version (f s)
  init : ∀ w phase id s host, (sys'.init w phase id s host).project f g = sys.init w phase id (f s) (g host)
  accepts : ∀ s c, sys'.accepts s c = sys.accepts (f s) c
  added : ∀ h owner c s host, (sys'.added h owner c s host).project f g = sys.added h owner c (f s) (g host)
  removed : ∀ h owner c s host, (sys'.removed h owner c s host).project f g = sys.removed h owner c (f s) (g host)
  update : ∀ ctx dt s host, (sys'.update ctx dt s host).project f g = sys.update ctx dt (f s) (g host)
  updateSerial : ∀ ctx dt s host,
    (sys'.updateSerial ctx dt s host).project f g = sys.updateSerial ctx dt (f s) (g host)
  apply : ∀ result ctx s host, (sys'.apply result ctx s host).project f g = sys.apply result ctx (f s) (g host)
  shutdown : ∀ s host, g (sys'.shutdown s host) = sys.shutdown (f s) (g host)
  duplicate : ∀ result host, (sys'.duplicate result host).map id g = sys.duplicate result (g host)
  release : ∀ result host, g (sys'.release result host) = sys.release result (g host)
  byteSize : ∀ result, sys'.byteSize result = sys.byteSize result

namespace Engine

variable {f : τ → σ} {g : η → ε}

theorem projected_cases {r : Except EngineError α × Engine τ ρ η} {r' : Except EngineError α × Engine σ ρ ε}
    (h : projected f g r = r') : (∃ a e, r = (.ok a, e) ∧ r' = (.ok a, e.project f g)) ∨
      ∃ err e, r = (.error err, e) ∧ r' = (.error err, e.project f g) := by
  subst h
  obtain ⟨_ | _, e⟩ := r
  · exact .inr ⟨_, _, rfl, rfl⟩
  · exact .inl ⟨_, _, rfl, rfl⟩

theorem slotAt?_project (e : Engine τ ρ η) (phase : Phase) (i : Nat) :
    (e.project f g).slotAt? phase i = (e.slotAt? phase i).map (Slot.onSystem f) := by
  unfold slotAt? project Scheduler.onSystems
  dsimp only
  rw [ByPhase.get_map, List.getElem?_map]

theorem length_slots_project (e : Engine τ ρ η) (phase : Phase) :
    ((e.project f g).scheduler.slots.get phase).length = (e.scheduler.slots.get phase).length := by
  unfold project Scheduler.onSystems
  dsimp only
  rw [ByPhase.get_map, List.length_map]

theorem project_draw (e : Engine τ ρ η) (phase : Phase) (drawn : Array Primitive) :
    (e.draw phase drawn).project f g = (e.project f g).draw phase drawn := by
  unfold draw
  split <;> rfl

theorem map_modify {f : α → β} {g : α → α} {g' : β → β} (h : ∀ a, f (g a) = g' (f a)) (l : List α) (i : Nat) :
    (l.modify i g).map f = (l.map f).modify i g' := by
  apply List.ext_getElem?
  intro j
  rw [List.getElem?_map, List.getElem?_modify, List.getElem?_modify, List.getElem?_map]
  cases l[j]? with
  | none => simp
  | some a => by_cases hj : i = j <;> simp [hj, h]

/-- A change of one element, seen through a map, if the map makes of it what `g` does. -/
theorem map_modify_at {l : List α} {i : Nat} {a : α} (hi : l[i]? = some a) {f : α → α} {h : α → β} {g : β → β}
    (ha : h (f a) = g (h a)) : (l.modify i f).map h = (l.map h).modify i g := by
  induction l generalizing i with
  | nil => cases hi
  | cons b rest ih =>
    cases i with
    | zero =>
      cases hi
      exact congrArg (· :: rest.map h) ha
    | succ i => exact congrArg (h b :: ·) (ih hi)

theorem project_after (e : Engine τ ρ η) (phase : Phase) (i : Nat) (world : World) (host : η)
    (drawn : Array Primitive) {k : Slot τ ρ → Slot τ ρ} {k' : Slot σ ρ → Slot σ ρ}
    (h : ∀ slot, (k slot).onSystem f = k' (slot.onSystem f)) :
    (e.after phase i world host drawn k).project f g = (e.project f g).after phase i world (g host) drawn k' := by
  have hmodify (e : Engine τ ρ η) : (e.modifySlot phase i k).project f g = (e.project f g).modifySlot phase i k' := by
    unfold project Scheduler.onSystems modifySlot
    dsimp only
    rw [ByPhase.map_modify _ (·.modify i k') fun l => map_modify h l i]
  unfold after
  rw [hmodify, project_draw]
  rfl

theorem project_beginPhase (phase : Phase) (e : Engine τ ρ η) :
    (e.beginPhase phase).project f g = (e.project f g).beginPhase phase := by
  unfold beginPhase
  split <;> rfl

theorem project_abort (e : Engine τ ρ η) (phase : Phase) :
    (e.abort phase).project f g = (e.project f g).abort phase := by
  unfold abort project Scheduler.onSystems
  dsimp only
  rw [ByPhase.map_modify _ (·.map ({ · with pending := none })) fun slots => ?_]
  rw [List.map_map, List.map_map]
  rfl

/-- Steps that come out the same on the projections do so one after the other. -/
theorem projected_inOrder {step : Engine τ ρ η → α → Except EngineError Unit × Engine τ ρ η}
    {step' : Engine σ ρ ε → α → Except EngineError Unit × Engine σ ρ ε}
    (hstep : ∀ e a, projected f g (step e a) = step' (e.project f g) a) (e : Engine τ ρ η) (xs : List α) :
    projected f g (inOrder step e xs) = inOrder step' (e.project f g) xs := by
  induction xs generalizing e with
  | nil => rfl
  | cons a rest ih =>
    unfold inOrder
    rw [← hstep]
    obtain ⟨_ | _, e'⟩ := step e a
    · rfl
    · exact ih e'

end Engine

/-! ### Callbacks -/

namespace Simulates

section

theorem refl (sys : System σ ρ ε) : Simulates sys sys id id where
  name _ := rfl
  version _ := rfl
  init _ _ _ _ _ := rfl
  accepts _ _ := rfl
  added _ _ _ _ _ := rfl
  removed _ _ _ _ _ := rfl
  update _ _ _ _ := rfl
  updateSerial _ _ _ _ := rfl
  apply _ _ _ _ := rfl
  shutdown _ _ := rfl
  duplicate _ _ := rfl
  release _ _ := rfl
  byteSize _ := rfl

variable {σ₁ σ₂ τ₁ τ₂ ρ₁ ρ₂ : Type} {a' : System τ₁ ρ₁ η} {a : System σ₁ ρ₁ ε} {b' : System τ₂ ρ₂ η}
  {b : System σ₂ ρ₂ ε} {f : τ₁ → σ₁} {f' : τ₂ → σ₂} {g : η → ε}

/-- Side by side each system does what the one that it simulates does. -/
theorem sum (ha : Simulates a' a f g) (hb : Simulates b' b f' g) :
    Simulates (a'.sum b') (a.sum b) (Sum.map f f') g where
  name
    | .inl s => ha.name s
    | .inr s => hb.name s
  version
    | .inl s => ha.version s
    | .inr s => hb.version s
  init w phase number s host := by
    cases s with
    | inl s => exact congrArg (Reply.map Sum.inl id) (ha.init w phase number s host)
    | inr s => exact congrArg (Reply.map Sum.inr id) (hb.init w phase number s host)
  accepts
    | .inl s, c => ha.accepts s c
    | .inr s, c => hb.accepts s c
  added h owner c s host := by
    cases s with
    | inl s => exact congrArg (Reply.map Sum.inl id) (ha.added h owner c s host)
    | inr s => exact congrArg (Reply.map Sum.inr id) (hb.added h owner c s host)
  removed h owner c s host := by
    cases s with
    | inl s => exact congrArg (Reply.map Sum.inl id) (ha.removed h owner c s host)
    | inr s => exact congrArg (Reply.map Sum.inr id) (hb.removed h owner c s host)
  update ctx dt s host := by
    cases s with
    | inl s => exact congrArg (DrawReply.map Sum.inl (·.map Sum.inl)) (ha.update ctx dt s host)
    | inr s => exact congrArg (DrawReply.map Sum.inr (·.map Sum.inr)) (hb.update ctx dt s host)
  updateSerial ctx dt s host := by
    cases s with
    | inl s => exact congrArg (WriteReply.map Sum.inl (·.map Sum.inl)) (ha.updateSerial ctx dt s host)
    | inr s => exact congrArg (WriteReply.map Sum.inr (·.map Sum.inr)) (hb.updateSerial ctx dt s host)
  apply result ctx s host := by
    cases result with
    | inl result =>
      cases s with
      | inl s => exact congrArg (WriteReply.map Sum.inl id) (ha.apply result ctx s host)
      | inr s => rfl
    | inr result =>
      cases s with
      | inl s => rfl
      | inr s => exact congrArg (WriteReply.map Sum.inr id) (hb.apply result ctx s host)
  shutdown
    | .inl s, host => ha.shutdown s host
    | .inr s, host => hb.shutdown s host
  duplicate
    | .inl r, host => congrArg (Prod.map Sum.inl id) (ha.duplicate r host)
    | .inr r, host => congrArg (Prod.map Sum.inr id) (hb.duplicate r host)
  release
    | .inl r, host => ha.release r host
    | .inr r, host => hb.release r host
  byteSize
    | .inl r => ha.byteSize r
    | .inr r => hb.byteSize r

end

variable {sys' : System τ ρ η} {sys : System σ ρ ε} {f : τ → σ} {g : η → ε}

theorem notify (h : Simulates sys' sys f g) (event : Event) (c : Component) (s : τ) (host : η) :
    (sys'.notify event c s host).project f g = sys.notify event c (f s) (g host) := by
  cases event with
  | attached handle owner => exact h.added handle owner c s host
  | detached handle owner => exact h.removed handle owner c s host

theorem notifyAll (h : Simulates sys' sys f g) (event : Event) (c : Component) (slots : List (Slot τ ρ)) (host : η) :
    sys.notifyAll event c (slots.map (Slot.onSystem f)) (g host) =
      let r := sys'.notifyAll event c slots host
      (r.1, r.2.1.map (Slot.onSystem f), g r.2.2) := by
  induction slots generalizing host with
  | nil => rfl
  | cons slot rest ih =>
    have hreply := h.notify event c slot.system host
    rw [List.map_cons]
    unfold System.notifyAll
    have hsystem : (slot.onSystem f).system = f slot.system := rfl
    rw [hsystem, ← h.accepts, ← hreply]
    split
    · generalize sys'.notify event c slot.system host = reply
      obtain ⟨_ | _, s, host'⟩ := reply
      · rfl
      · dsimp only [Reply.project]
        rw [ih]
        rfl
    · dsimp only
      rw [ih]
      rfl

theorem notifyPhases (h : Simulates sys' sys f g) (event : Event) (c : Component) (slots : ByPhase (List (Slot τ ρ)))
    (host : η) :
    sys.notifyPhases event c (slots.map (·.map (Slot.onSystem f))) (g host) =
      let r := sys'.notifyPhases event c slots host
      (r.1, r.2.1.map (·.map (Slot.onSystem f)), g r.2.2) := by
  unfold System.notifyPhases
  dsimp only [ByPhase.map]
  rw [h.notifyAll]
  obtain ⟨_ | _, early, host₁⟩ := sys'.notifyAll event c slots.early host
  · rfl
  dsimp only
  rw [h.notifyAll]
  obtain ⟨_ | _, script, host₂⟩ := sys'.notifyAll event c slots.script host₁
  · rfl
  dsimp only
  rw [h.notifyAll]

theorem handOff (h : Simulates sys' sys f g) (result : Option ρ) (host : η) :
    (sys'.handOff result host).map id g = sys.handOff result (g host) := by
  cases result with
  | none => rfl
  | some result =>
    show (some (sys'.duplicate result host).1, g (sys'.release result (sys'.duplicate result host).2)) =
      (some (sys.duplicate result (g host)).1, sys.release result (sys.duplicate result (g host)).2)
    rw [h.release, ← h.duplicate]
    rfl

theorem offer (h : Simulates sys' sys f g) (s : τ) (host : η) (item : Handle × Entity × Component) :
    Engine.offer sys (f s, g host) item =
      let r := Engine.offer sys' (s, host) item
      (r.1, f r.2.1, g r.2.2) := by
  obtain ⟨handle, owner, c⟩ := item
  unfold Engine.offer
  dsimp only
  rw [← h.accepts, ← h.added]
  split <;> rfl

theorem offers (h : Simulates sys' sys f g) (items : List (Handle × Entity × Component)) (s : τ) (host : η) :
    inOrder (Engine.offer sys) (f s, g host) items =
      let r := inOrder (Engine.offer sys') (s, host) items
      (r.1, f r.2.1, g r.2.2) := by
  induction items generalizing s host with
  | nil => rfl
  | cons item rest ih =>
    unfold inOrder
    rw [h.offer]
    obtain ⟨_ | _, s', host'⟩ := Engine.offer sys' (s, host) item
    · rfl
    · exact ih s' host'

theorem told (h : Simulates sys' sys f g) {event : Event} {c : Component} {slot slot' : Slot τ ρ}
    (htold : sys'.Told event c slot slot') : sys.Told event c (slot.onSystem f) (slot'.onSystem f) := by
  cases htold with
  | passed hnot => exact .passed ((h.accepts slot.system c).symm.trans hnot)
  | told host haccepts hok =>
    have hreply := h.notify event c slot.system host
    have haccepts' : sys.accepts (slot.onSystem f).system c = true := (h.accepts slot.system c).symm.trans haccepts
    have hok' : (sys.notify event c (slot.onSystem f).system (g host)).outcome = .ok () := by
      show (sys.notify event c (f slot.system) (g host)).outcome = .ok ()
      rw [← hreply]
      exact hok
    have hsystem : f (sys'.notify event c slot.system host).system =
        (sys.notify event c (slot.onSystem f).system (g host)).system := congrArg Reply.system hreply
    show sys.Told event c (slot.onSystem f) { slot.onSystem f with system := _ }
    rw [hsystem]
    exact .told (g host) haccepts' hok'

/-- What a system hears, the one that it simulates hears too. -/
theorem heard (h : Simulates sys' sys f g) {store : Store} {events : List Event} {slot slot' : Slot τ ρ}
    (hheard : sys'.Heard store events slot slot') : sys.Heard store events (slot.onSystem f) (slot'.onSystem f) := by
  induction hheard with
  | nil slot => exact .nil _
  | skip hnone _ ih => exact .skip hnone ih
  | cons hsome hfirst _ ih => exact .cons hsome (h.told hfirst) ih

end Simulates

namespace Engine

variable {sys' : System τ ρ η} {sys : System σ ρ ε} {f : τ → σ} {g : η → ε}

/-! ### Routing -/

theorem projected_route (h : Simulates sys' sys f g) (e : Engine τ ρ η) (event : Event) :
    projected f g (route sys' e event) = route sys (e.project f g) event := by
  unfold route
  have hworld : (e.project f g).world = e.world := rfl
  rw [hworld]
  split
  · rfl
  · rename_i c _
    have hslots : (e.project f g).scheduler.slots = e.scheduler.slots.map (·.map (Slot.onSystem f)) := rfl
    have hhost : (e.project f g).host = g e.host := rfl
    rw [hslots, hhost, h.notifyPhases]
    rfl

theorem projected_deliver (h : Simulates sys' sys f g) (e : Engine τ ρ η) :
    projected f g (deliver sys' e) = deliver sys (e.project f g) := by
  have hall := projected_inOrder (projected_route h) { e with world := e.world.drain.2 } e.world.events.toList
  have hworld : (e.project f g).world = e.world := rfl
  have hdrained : ({ e with world := e.world.drain.2 } : Engine τ ρ η).project f g =
      { e.project f g with world := e.world.drain.2 } := rfl
  rw [deliver_eq, deliver_eq, hworld, ← hdrained, ← hall]
  obtain ⟨_ | _, e'⟩ := inOrder (route sys') { e with world := e.world.drain.2 } e.world.events.toList <;> rfl

theorem projected_ignore_deliver (h : Simulates sys' sys f g) (e : Engine τ ρ η) :
    projected f g (ignore (deliver sys' e)) = ignore (deliver sys (e.project f g)) :=
  congrArg ignore (projected_deliver h e)

/-! ### Phases -/

theorem projected_updateSerial (h : Simulates sys' sys f g) (phase : Phase) (dt : Float32) (e : Engine τ ρ η)
    (i : Nat) : projected f g (updateSerial sys' phase dt e i) = updateSerial sys phase dt (e.project f g) i := by
  have hslot' := slotAt?_project (f := f) (g := g) e phase i
  cases hslot : e.slotAt? phase i with
  | none =>
    rw [hslot] at hslot'
    unfold updateSerial
    rw [hslot, hslot']
    rfl
  | some slot =>
    rw [hslot] at hslot'
    rw [updateSerial_eq hslot, updateSerial_eq hslot']
    have hreply : sys.updateSerial ((e.project f g).context phase false) dt (slot.onSystem f).system
        (e.project f g).host = _ := (h.updateSerial (e.context phase false) dt slot.system e.host).symm
    rw [hreply]
    obtain ⟨⟨⟨outcome, s, host⟩, drawn⟩, world⟩ := sys'.updateSerial (e.context phase false) dt slot.system e.host
    cases outcome with
    | error fault => exact congrArg (Prod.mk _) (project_after e phase i world host drawn fun _ => rfl)
    | ok result =>
      refine (projected_ignore_deliver h _).trans (congrArg (fun e => ignore (deliver sys e)) ?_)
      exact project_after e phase i world host drawn fun _ => rfl

theorem project_updateParallel (h : Simulates sys' sys f g) (phase : Phase) (dt : Float32)
    (failure : Option EngineError) (e : Engine τ ρ η) (i : Nat) :
    updateParallel sys phase dt (failure, e.project f g) i =
      let r := updateParallel sys' phase dt (failure, e) i
      (r.1, r.2.project f g) := by
  have hslot' := slotAt?_project (f := f) (g := g) e phase i
  cases hslot : e.slotAt? phase i with
  | none =>
    rw [hslot] at hslot'
    unfold updateParallel
    dsimp only
    rw [hslot, hslot']
    rfl
  | some slot =>
    rw [hslot] at hslot'
    rw [updateParallel_eq hslot, updateParallel_eq hslot']
    have hreply : sys.update ((e.project f g).context phase true) dt (slot.onSystem f).system (e.project f g).host =
        _ := (h.update (e.context phase true) dt slot.system e.host).symm
    rw [hreply]
    obtain ⟨⟨outcome, s, host⟩, drawn⟩ := sys'.update (e.context phase true) dt slot.system e.host
    cases outcome with
    | error fault =>
      refine congrArg (Prod.mk _) (Eq.symm ?_)
      exact project_after e phase i e.world host drawn fun _ => rfl
    | ok result =>
      dsimp only [DrawReply.project, Reply.project]
      rw [← h.handOff]
      refine congrArg (Prod.mk _) (Eq.symm ?_)
      exact project_after e phase i e.world (sys'.handOff result host).2 drawn fun _ => rfl

theorem project_updateParallels (h : Simulates sys' sys f g) (phase : Phase) (dt : Float32) (positions : List Nat)
    (failure : Option EngineError) (e : Engine τ ρ η) :
    positions.foldl (updateParallel sys phase dt) (failure, e.project f g) =
      let r := positions.foldl (updateParallel sys' phase dt) (failure, e)
      (r.1, r.2.project f g) := by
  induction positions generalizing failure e with
  | nil => rfl
  | cons i rest ih =>
    rw [List.foldl_cons, List.foldl_cons, project_updateParallel h]
    exact ih _ _

theorem projected_updateAll (h : Simulates sys' sys f g) (phase : Phase) (dt : Float32) (parallel : Bool)
    (e : Engine τ ρ η) :
    projected f g (updateAll sys' phase dt parallel e) = updateAll sys phase dt parallel (e.project f g) := by
  unfold updateAll
  dsimp only
  rw [length_slots_project]
  cases parallel with
  | false => exact projected_inOrder (projected_updateSerial h phase dt) e _
  | true =>
    rw [if_pos rfl, if_pos rfl, project_updateParallels h]
    obtain ⟨_ | _, e'⟩ := (List.range (e.scheduler.slots.get phase).length).foldl (updateParallel sys' phase dt)
      (none, e) <;> rfl

def Applied.project (f : τ → σ) (g : η → ε) (a : Applied τ ρ η) : Applied σ ρ ε :=
  ⟨a.engine.project f g, a.count, a.bytes⟩

theorem project_applyResult (h : Simulates sys' sys f g) (phase : Phase) (a : Applied τ ρ η) (i : Nat) :
    applyResult sys phase (a.project f g) i =
      let r := applyResult sys' phase a i
      (r.1, r.2.project f g) := by
  have hslot' : (a.project f g).engine.slotAt? phase i = _ := slotAt?_project a.engine phase i
  cases hslot : a.engine.slotAt? phase i with
  | none =>
    rw [hslot] at hslot'
    have hnone : (a.engine.slotAt? phase i).bind (·.pending) = none := by rw [hslot]; rfl
    have hnone' : ((a.project f g).engine.slotAt? phase i).bind (·.pending) = none := by rw [hslot']; rfl
    rw [applyResult_of_none hnone, applyResult_of_none hnone']
  | some slot =>
    rw [hslot] at hslot'
    cases hpending : slot.pending with
    | none =>
      have hnone : (a.engine.slotAt? phase i).bind (·.pending) = none := by rw [hslot]; exact hpending
      have hnone' : ((a.project f g).engine.slotAt? phase i).bind (·.pending) = none := by rw [hslot']; exact hpending
      rw [applyResult_of_none hnone, applyResult_of_none hnone']
    | some result =>
      have hpending' : (slot.onSystem f).pending = some result := hpending
      rw [applyResult_eq hslot hpending, applyResult_eq hslot' hpending', ← h.byteSize]
      have hreply : sys.apply result ((a.project f g).engine.context phase false) (slot.onSystem f).system
          (a.project f g).engine.host = _ :=
        (h.apply result (a.engine.context phase false) slot.system a.engine.host).symm
      rw [hreply]
      obtain ⟨⟨⟨outcome, s, host⟩, drawn⟩, world⟩ :=
        sys'.apply result (a.engine.context phase false) slot.system a.engine.host
      have hafter : (a.engine.after phase i world host drawn ({ · with pending := none, system := s })).project f g =
          (a.project f g).engine.after phase i world (g host) drawn ({ · with pending := none, system := f s }) :=
        project_after a.engine phase i world host drawn fun _ => rfl
      cases outcome with
      | error fault =>
        dsimp only [WriteReply.project, DrawReply.project, Reply.project]
        rw [← hafter]
        rfl
      | ok _ =>
        have hdelivered := projected_ignore_deliver h
          (a.engine.after phase i world host drawn ({ · with pending := none, system := s }))
        rw [hafter] at hdelivered
        dsimp only [WriteReply.project, DrawReply.project, Reply.project]
        rw [← hdelivered]
        rfl

theorem project_applyAll (h : Simulates sys' sys f g) (phase : Phase) (e : Engine τ ρ η) :
    applyAll sys phase (e.project f g) =
      let r := applyAll sys' phase e
      (r.1, r.2.project f g) := by
  have hall (positions : List Nat) (a : Applied τ ρ η) :
      inOrder (applyResult sys phase) (a.project f g) positions =
        let r := inOrder (applyResult sys' phase) a positions
        (r.1, r.2.project f g) := by
    induction positions generalizing a with
    | nil => rfl
    | cons i rest ih =>
      unfold inOrder
      rw [project_applyResult h]
      obtain ⟨_ | _, a'⟩ := applyResult sys' phase a i
      · rfl
      · exact ih a'
  unfold applyAll
  rw [length_slots_project]
  exact hall _ { engine := e }

theorem projected_phaseBody (h : Simulates sys' sys f g) (phase : Phase) (dt : Float32) (parallel : Bool)
    (e : Engine τ ρ η) :
    projected f g (phaseBody sys' phase dt parallel e) = phaseBody sys phase dt parallel (e.project f g) := by
  unfold phaseBody
  obtain ⟨_, e₁, hr, hr'⟩ | ⟨_, e₁, hr, hr'⟩ := projected_cases (projected_deliver h e) <;> rw [hr, hr']
  · dsimp only
    rw [length_slots_project]
    obtain ⟨_, e₂, hr, hr'⟩ | ⟨_, e₂, hr, hr'⟩ := projected_cases (projected_updateAll h phase dt parallel e₁) <;>
      rw [hr, hr']
    · dsimp only
      rw [project_applyAll h]
      obtain ⟨_ | _, a⟩ := applyAll sys' phase e₂ <;> rfl
    · rfl
  · rfl

theorem projected_runPhase (h : Simulates sys' sys f g) (e : Engine τ ρ η) (phase : Phase) (dt : Float32)
    (parallel : Bool) :
    projected f g (runPhase sys' e phase dt parallel) = runPhase sys (e.project f g) phase dt parallel := by
  unfold runPhase
  have hcheck : (e.project f g).scheduler.check (.phase phase) = e.scheduler.check (.phase phase) := rfl
  rw [hcheck]
  cases e.scheduler.check (.phase phase) with
  | error err => rfl
  | ok _ =>
    dsimp only
    rw [← project_beginPhase]
    obtain ⟨_, e₁, hr, hr'⟩ | ⟨_, e₁, hr, hr'⟩ :=
        projected_cases (projected_phaseBody h phase dt parallel (e.beginPhase phase)) <;>
      rw [hr, hr']
    · rfl
    · exact congrArg (Prod.mk _) (project_abort e₁ phase)

/-! ### Frames -/

theorem projected_endFrame (h : Simulates sys' sys f g) (e : Engine τ ρ η) :
    projected f g (endFrame sys' e) = endFrame sys (e.project f g) := by
  unfold endFrame
  have hcheck : (e.project f g).scheduler.check .endOfFrame = e.scheduler.check .endOfFrame := rfl
  rw [hcheck]
  cases e.scheduler.check .endOfFrame with
  | error err => rfl
  | ok _ =>
    dsimp only
    obtain ⟨_, e₁, hr, hr'⟩ | ⟨_, e₁, hr, hr'⟩ := projected_cases (projected_deliver h e) <;> rw [hr, hr']
    · rfl
    · exact congrArg (Prod.mk _) (project_abort e₁ .late)

theorem projected_runPhases (h : Simulates sys' sys f g) (e : Engine τ ρ η) (dt : Float32) (phases : List Phase) :
    projected f g (runPhases sys' e dt phases) = runPhases sys (e.project f g) dt phases := by
  induction phases generalizing e with
  | nil => rfl
  | cons phase rest ih =>
    have hphase := projected_runPhase h e phase dt (e.scheduler.settings.parallel.get phase)
    have hsettings : (e.project f g).scheduler.settings = e.scheduler.settings := rfl
    unfold runPhases
    rw [hsettings]
    obtain ⟨_, e₁, hr, hr'⟩ | ⟨_, e₁, hr, hr'⟩ := projected_cases hphase <;> rw [hr, hr']
    · dsimp only
      rw [← ih e₁]
      rfl
    · rfl

theorem projected_runFrame (h : Simulates sys' sys f g) (e : Engine τ ρ η) (dt : Float32) :
    projected f g (runFrame sys' e dt) = runFrame sys (e.project f g) dt := by
  unfold runFrame
  obtain ⟨_, e₁, hr, hr'⟩ | ⟨_, e₁, hr, hr'⟩ := projected_cases (projected_runPhases h e dt Phase.all) <;> rw [hr, hr']
  · dsimp only
    obtain ⟨⟨_, _⟩, e₂, hr, hr'⟩ | ⟨_, e₂, hr, hr'⟩ := projected_cases (projected_endFrame h e₁) <;>
      rw [hr, hr'] <;> rfl
  · rfl

/-! ### Operations -/

theorem projected_immediately (h : Simulates sys' sys f g) (e : Engine τ ρ η)
    (op : World → Except WorldError α × World) :
    projected f g (immediately sys' e op) = immediately sys (e.project f g) op := by
  unfold immediately
  have hworld : (e.project f g).world = e.world := rfl
  rw [hworld]
  obtain ⟨_ | a, world⟩ := op e.world
  · rfl
  · have hedited : { e.project f g with world } = ({ e with world } : Engine τ ρ η).project f g := rfl
    dsimp only
    rw [hedited]
    obtain ⟨_, e₁, hr, hr'⟩ | ⟨_, e₁, hr, hr'⟩ := projected_cases (projected_deliver h { e with world }) <;>
      rw [hr, hr'] <;> rfl

theorem projected_register (h : Simulates sys' sys f g) (e : Engine τ ρ η) (phase : Phase) (s : τ) :
    projected f g (register sys' e phase s) = register sys (e.project f g) phase (f s) := by
  unfold register
  have hclosed : (e.project f g).scheduler.closed = e.scheduler.closed := rfl
  have hnames : (e.project f g).scheduler.names = e.scheduler.names := rfl
  rw [hclosed, hnames, ← h.name, ← h.version]
  dsimp only
  split
  · rfl
  split
  · rfl
  split
  · rfl
  obtain ⟨_, e₁, hr, hr'⟩ | ⟨_, e₁, hr, hr'⟩ := projected_cases (projected_deliver h e) <;> rw [hr, hr']
  · have hreply : sys.init (e₁.project f g).world phase (e₁.project f g).scheduler.nextId (f s)
        (e₁.project f g).host = _ := (h.init e₁.world phase e₁.scheduler.nextId s e₁.host).symm
    dsimp only
    rw [hreply]
    obtain ⟨outcome, s₁, host₁⟩ := sys'.init e₁.world phase e₁.scheduler.nextId s e₁.host
    cases outcome with
    | error fault => rfl
    | ok _ =>
      have hoffers : inOrder (offer sys) (f s₁, g host₁) (e₁.project f g).world.store.attached = _ :=
        h.offers e₁.world.store.attached s₁ host₁
      dsimp only [Reply.project]
      rw [hoffers]
      obtain ⟨_ | _, s₂, host₂⟩ := inOrder (offer sys') (s₁, host₁) e₁.world.store.attached
      · dsimp only
        rw [← h.shutdown]
        rfl
      · dsimp only [projected, project, Scheduler.onSystems]
        rw [ByPhase.map_modify _
          (· ++ [{ id := e₁.scheduler.nextId, name := sys'.name s, phase, system := f s₂ }])
          fun _ => List.map_append]
  · rfl

theorem project_shutdown (h : Simulates sys' sys f g) (e : Engine τ ρ η) :
    (shutdown sys' e).project f g = shutdown sys (e.project f g) := by
  unfold shutdown
  have hclosed : (e.project f g).scheduler.closed = e.scheduler.closed := rfl
  rw [hclosed]
  split
  · rfl
  have hsorted : (e.project f g).scheduler.allSlots.mergeSort (fun a b => b.id ≤ a.id) =
      (e.scheduler.allSlots.mergeSort fun a b => b.id ≤ a.id).map (Slot.onSystem f) := by
    have hall : (e.project f g).scheduler.allSlots = e.scheduler.allSlots.map (Slot.onSystem f) := by
      simp [Scheduler.allSlots, project, Scheduler.onSystems, ByPhase.map, ByPhase.toList]
    rw [hall]
    exact (List.map_mergeSort (f := Slot.onSystem f) fun _ _ _ _ => rfl).symm
  have hfold (slots : List (Slot τ ρ)) (host : η) :
      g (slots.foldl (fun host slot => sys'.shutdown slot.system host) host) =
        (slots.map (Slot.onSystem f)).foldl (fun host slot => sys.shutdown slot.system host) (g host) := by
    induction slots generalizing host with
    | nil => rfl
    | cons slot rest ih =>
      rw [List.map_cons, List.foldl_cons, List.foldl_cons, ih, h.shutdown]
      rfl
  have hhost : (e.project f g).host = g e.host := rfl
  dsimp only
  rw [hsorted, hhost, ← hfold]
  rfl

theorem projected_perform (h : Simulates sys' sys f g) (e : Engine τ ρ η) (op : Op τ) :
    projected f g (perform sys' e op) = perform sys (e.project f g) (op.map f) := by
  cases op with
  | register phase s => exact congrArg (answered .registered) (projected_register h e phase s)
  | spawn persistent => rfl
  | attach entity c => exact congrArg (answered .handle) (projected_immediately h e (·.attach entity c))
  | detach handle => exact congrArg (answered .flag) (projected_immediately h e (·.detach handle))
  | mark entity => exact congrArg (answered .flag) (projected_immediately h e (·.mark entity))
  | clear persistentToo => exact congrArg (answered .count) (projected_immediately h e (·.clear persistentToo))
  | edit change => rfl
  | runPhase phase dt parallel => exact congrArg (answered .phase) (projected_runPhase h e phase dt parallel)
  | endFrame => exact congrArg (answered _) (projected_endFrame h e)
  | runFrame dt => exact congrArg (answered .frame) (projected_runFrame h e dt)
  | deliver => exact congrArg (answered .count) (projected_deliver h e)
  | route event => exact congrArg (answered _) (projected_route h e event)
  | shutdown => exact congrArg (Prod.mk (Except.ok Answer.nothing)) (project_shutdown h e)

theorem project_run (h : Simulates sys' sys f g) (e : Engine τ ρ η) (ops : List (Op τ)) :
    (run sys' e ops).project f g = run sys (e.project f g) (ops.map (Op.map f)) := by
  induction ops generalizing e with
  | nil => rfl
  | cons op rest ih =>
    have hfirst : (perform sys' e op).2.project f g = (perform sys (e.project f g) (op.map f)).2 :=
      congrArg Prod.snd (projected_perform h e op)
    have hrest := ih (perform sys' e op).2
    rw [hfirst] at hrest
    exact hrest

/-! ### Lifted runs -/

section lifted

variable {lift : σ → τ} {edits : World → World → Prop} {fits : Phase → σ → Prop} {fits' : Phase → τ → Prop}

theorem Op.Keeps.lifted (hfits : ∀ phase s, fits phase s → fits' phase (lift s)) {w : World} {op : Op σ}
    (hop : op.Keeps edits fits w) : (op.map lift).Keeps edits fits' w where
  edited := by
    have hedited := hop.edited
    cases op <;> exact hedited
  fits phase s hregister := by
    cases op with
    | register phase' s' =>
      cases hregister
      exact hfits _ _ (hop.fits _ _ rfl)
    | _ => cases hregister
  unrouted event hroute := by
    cases op with
    | route event' => exact hop.unrouted event' rfl
    | _ => cases hroute

variable (hlift : ∀ s, f (lift s) = s)
include hlift

theorem Op.map_lift (op : Op σ) : (op.map lift).map f = op := by cases op <;> simp [Op.map, hlift]

/-- A run with systems that keep something more is, once that is forgotten, the run with the systems themselves. -/
theorem project_run_lift (h : Simulates sys' sys f g) (e : Engine τ ρ η) (ops : List (Op σ)) :
    (run sys' e (ops.map (Op.map lift))).project f g = run sys (e.project f g) ops := by
  have hops : (ops.map (Op.map lift)).map (Op.map f) = ops := by simp [Function.comp_def, Op.map_lift hlift]
  rw [project_run h, hops]

theorem KeepsTo.lifted (h : Simulates sys' sys f g) (hfits : ∀ phase s, fits phase s → fits' phase (lift s))
    {e : Engine τ ρ η} {ops : List (Op σ)} (hops : KeepsTo edits fits sys (e.project f g) ops) :
    KeepsTo edits fits' sys' e (ops.map (Op.map lift)) := by
  induction ops generalizing e with
  | nil => trivial
  | cons op rest ih =>
    obtain ⟨hop, hrest⟩ := hops
    have hfirst : (perform sys (e.project f g) op).2 = (perform sys' e (op.map lift)).2.project f g := by
      have hprojected := congrArg Prod.snd (projected_perform h e (op.map lift))
      rw [Op.map_lift hlift] at hprojected
      exact hprojected.symm
    rw [hfirst] at hrest
    exact ⟨hop.lifted hfits, ih hrest⟩

end lifted

end Engine

end Cadence
