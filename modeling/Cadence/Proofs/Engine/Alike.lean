import Cadence.Engine.Op
import Cadence.Proofs.Engine.Callback

/-!
Engines that nobody tells apart: they differ in their settings, and in their hosts as far as no callback notices.
Every operation that does not look at the settings comes out the same on both and leaves engines of this kind again.
-/

namespace Cadence

variable {σ ρ ε α : Type}

/-! ### Callbacks that do not tell hosts apart -/

section hosts

variable [Setoid ε]

/-- Answers that differ in nothing but the host, and not noticeably in that. -/
def Reply.Alike (r r' : Reply σ ε α) : Prop := ∃ host, r' = { r with host } ∧ r.host ≈ host

def DrawReply.Alike (r r' : DrawReply σ ε α) : Prop := ∃ host, r' = { r with host } ∧ r.host ≈ host

def WriteReply.Alike (r r' : WriteReply σ ε α) : Prop := ∃ host, r' = { r with host } ∧ r.host ≈ host

theorem DrawReply.Alike.trans {r r' r'' : DrawReply σ ε α} (h : r.Alike r') (h' : r'.Alike r'') : r.Alike r'' := by
  obtain ⟨_, rfl, hhost⟩ := h
  obtain ⟨host, rfl, hhost'⟩ := h'
  exact ⟨host, rfl, Setoid.trans hhost hhost'⟩

/-- No callback tells equivalent hosts apart, or makes a difference between them that another one would notice. -/
structure Respects (sys : System σ ρ ε) : Prop where
  init : ∀ (w phase id s) {host host' : ε}, host ≈ host' →
    (sys.init w phase id s host).Alike (sys.init w phase id s host')
  added : ∀ (h owner c s) {host host' : ε}, host ≈ host' →
    (sys.added h owner c s host).Alike (sys.added h owner c s host')
  removed : ∀ (h owner c s) {host host' : ε}, host ≈ host' →
    (sys.removed h owner c s host).Alike (sys.removed h owner c s host')
  update : ∀ (ctx dt s) {host host' : ε}, host ≈ host' → (sys.update ctx dt s host).Alike (sys.update ctx dt s host')
  updateSerial : ∀ (ctx dt s) {host host' : ε}, host ≈ host' →
    (sys.updateSerial ctx dt s host).Alike (sys.updateSerial ctx dt s host')
  apply : ∀ (result ctx s) {host host' : ε}, host ≈ host' →
    (sys.apply result ctx s host).Alike (sys.apply result ctx s host')
  shutdown : ∀ (s) {host host' : ε}, host ≈ host' → sys.shutdown s host ≈ sys.shutdown s host'

theorem Respects.notify {sys : System σ ρ ε} (hsys : Respects sys) (event : Event) (c : Component) (s : σ)
    {host host' : ε} (h : host ≈ host') : (sys.notify event c s host).Alike (sys.notify event c s host') := by
  cases event with
  | attached handle owner => exact hsys.added handle owner c s h
  | detached handle owner => exact hsys.removed handle owner c s h

theorem Respects.shutdownAll {sys : System σ ρ ε} (hsys : Respects sys) (slots : List (Slot σ ρ))
    {host host' : ε} (h : host ≈ host') :
    slots.foldl (fun host slot => sys.shutdown slot.system host) host ≈
      slots.foldl (fun host slot => sys.shutdown slot.system host) host' := by
  induction slots generalizing host host' with
  | nil => exact h
  | cons slot rest ih => exact ih (hsys.shutdown slot.system h)

/-- The same data beside hosts that nobody tells apart. -/
def SameBeside (s t : α × ε) : Prop := s.1 = t.1 ∧ s.2 ≈ t.2

namespace System

variable {sys : System σ ρ ε}

theorem agree_notifyAll (hsys : Respects sys) (event : Event) (c : Component) (slots : List (Slot σ ρ)) {host host' : ε}
    (h : host ≈ host') :
    Agree SameBeside SameBeside (sys.notifyAll event c slots host) (sys.notifyAll event c slots host') := by
  induction slots generalizing host host' with
  | nil => exact .ok ⟨rfl, h⟩
  | cons slot rest ih =>
    unfold notifyAll
    by_cases haccepts : sys.accepts slot.system c = true
    · obtain ⟨host₁, hreply, h₁⟩ := hsys.notify event c slot.system h
      simp only [if_pos haccepts]
      rw [hreply]
      generalize sys.notify event c slot.system host = reply at h₁ ⊢
      cases houtcome : reply.outcome with
      | error fault => exact .error ⟨rfl, h₁⟩
      | ok _ =>
        dsimp only
        obtain ⟨_, t, t', hr, hr', hleft⟩ | ⟨err, t, t', hr, hr', hleft⟩ := (ih h₁).cases <;> rw [hr, hr']
        · exact .ok ⟨congrArg (_ :: ·) hleft.1, hleft.2⟩
        · exact .error ⟨congrArg (_ :: ·) hleft.1, hleft.2⟩
    · simp only [if_neg haccepts]
      obtain ⟨_, t, t', hr, hr', hleft⟩ | ⟨err, t, t', hr, hr', hleft⟩ := (ih h).cases <;> rw [hr, hr']
      · exact .ok ⟨congrArg (_ :: ·) hleft.1, hleft.2⟩
      · exact .error ⟨congrArg (_ :: ·) hleft.1, hleft.2⟩

theorem agree_notifyPhases (hsys : Respects sys) (event : Event) (c : Component) (slots : ByPhase (List (Slot σ ρ)))
    {host host' : ε} (h : host ≈ host') :
    Agree SameBeside SameBeside (sys.notifyPhases event c slots host) (sys.notifyPhases event c slots host') := by
  unfold notifyPhases
  obtain ⟨_, ⟨early, host₁⟩, ⟨_, host₁'⟩, hr, hr', rfl, h₁⟩ | ⟨err, ⟨early, host₁⟩, ⟨_, host₁'⟩, hr, hr', rfl, h₁⟩ :=
    (agree_notifyAll hsys event c slots.early h).cases <;> rw [hr, hr']
  · obtain ⟨_, ⟨script, host₂⟩, ⟨_, host₂'⟩, hr, hr', rfl, h₂⟩ | ⟨err, ⟨script, host₂⟩, ⟨_, host₂'⟩, hr, hr', rfl, h₂⟩ :=
      (agree_notifyAll hsys event c slots.script h₁).cases <;> dsimp only <;> rw [hr, hr']
    · obtain ⟨_, ⟨late, host₃⟩, ⟨_, host₃'⟩, hr, hr', rfl, h₃⟩ | ⟨err, ⟨late, host₃⟩, ⟨_, host₃'⟩, hr, hr', rfl, h₃⟩ :=
        (agree_notifyAll hsys event c slots.late h₂).cases <;> dsimp only <;> rw [hr, hr']
      · exact .ok ⟨rfl, h₃⟩
      · exact .error ⟨rfl, h₃⟩
    · exact .error ⟨rfl, h₂⟩
  · exact .error ⟨rfl, h₁⟩

end System

/-! ### Engines -/

namespace Engine

/-- `e'` is `e` but for the settings and the host, and nobody tells the hosts apart. -/
def Alike (e e' : Engine σ ρ ε) : Prop :=
  ∃ settings host, e' = { e with scheduler := { e.scheduler with settings }, host } ∧ e.host ≈ host

namespace Alike

theorem refl (e : Engine σ ρ ε) : e.Alike e := ⟨e.scheduler.settings, e.host, rfl, Setoid.refl e.host⟩

theorem symm {e e' : Engine σ ρ ε} (h : e.Alike e') : e'.Alike e := by
  obtain ⟨_, _, rfl, hhost⟩ := h
  exact ⟨e.scheduler.settings, e.host, rfl, Setoid.symm hhost⟩

theorem trans {e e' e'' : Engine σ ρ ε} (h : e.Alike e') (h' : e'.Alike e'') : e.Alike e'' := by
  obtain ⟨_, _, rfl, hhost⟩ := h
  obtain ⟨settings, host, rfl, hhost'⟩ := h'
  exact ⟨settings, host, rfl, Setoid.trans hhost hhost'⟩

theorem host {e e' : Engine σ ρ ε} (h : e.Alike e') : e.host ≈ e'.host := by
  obtain ⟨_, _, rfl, hhost⟩ := h
  exact hhost

theorem world {e e' : Engine σ ρ ε} (h : e.Alike e') : e'.world = e.world := by
  obtain ⟨_, _, rfl, _⟩ := h
  rfl

theorem slots {e e' : Engine σ ρ ε} (h : e.Alike e') : e'.scheduler.slots = e.scheduler.slots := by
  obtain ⟨_, _, rfl, _⟩ := h
  rfl

theorem slotAt? {e e' : Engine σ ρ ε} (h : e.Alike e') (phase : Phase) (i : Nat) :
    e'.slotAt? phase i = e.slotAt? phase i := slotAt?_congr h.slots phase i

theorem context {e e' : Engine σ ρ ε} (h : e.Alike e') (phase : Phase) (parallel : Bool) :
    e'.context phase parallel = e.context phase parallel := by
  obtain ⟨_, _, rfl, _⟩ := h
  rfl

theorem check {e e' : Engine σ ρ ε} (h : e.Alike e') (step : Step) : e'.scheduler.check step = e.scheduler.check step := by
  obtain ⟨_, _, rfl, _⟩ := h
  rfl

/-- The same change, but for the host, keeps two engines alike. -/
theorem after {e e' : Engine σ ρ ε} (h : e.Alike e') (phase : Phase) (i : Nat) (world : World) {host host' : ε}
    (drawn : Array Primitive) (f : Slot σ ρ → Slot σ ρ) (hhost : host ≈ host') :
    (e.after phase i world host drawn f).Alike (e'.after phase i world host' drawn f) := by
  obtain ⟨settings, _, rfl, _⟩ := h
  refine ⟨settings, host', ?_, ?_⟩
  · unfold Engine.after draw
    split <;> rfl
  · rw [host_after]
    exact hhost

end Alike

variable {sys : System σ ρ ε}

theorem agree_route (hsys : Respects sys) (event : Event) {e e' : Engine σ ρ ε} (h : e.Alike e') :
    Agree Alike Alike (route sys e event) (route sys e' event) := by
  obtain ⟨settings, host', rfl, hhost⟩ := h
  unfold route
  dsimp only
  cases e.world.store.get? event.handle with
  | none => exact .ok ⟨settings, host', rfl, hhost⟩
  | some c =>
    dsimp only
    obtain ⟨_, ⟨slots, host₁⟩, ⟨_, host₁'⟩, hr, hr', rfl, h₁⟩ | ⟨err, ⟨slots, host₁⟩, ⟨_, host₁'⟩, hr, hr', rfl, h₁⟩ :=
      (sys.agree_notifyPhases hsys event c e.scheduler.slots hhost).cases <;> rw [hr, hr']
    · exact .ok ⟨settings, host₁', rfl, h₁⟩
    · exact .error ⟨settings, host₁', rfl, h₁⟩

theorem agree_deliver (hsys : Respects sys) {e e' : Engine σ ρ ε} (h : e.Alike e') :
    Agree Alike Alike (deliver sys e) (deliver sys e') := by
  obtain ⟨settings, host', rfl, hhost⟩ := h
  have hstart : { e with world := e.world.drain.2 }.Alike
      { e with scheduler := { e.scheduler with settings }, world := e.world.drain.2, host := host' } :=
    ⟨settings, host', rfl, hhost⟩
  have hall := agree_inOrder (fun _ _ event h => agree_route hsys event h) e.world.events.toList hstart
  rw [deliver_eq, deliver_eq]
  dsimp only
  obtain ⟨_, e₁, e₁', hr, hr', h₁⟩ | ⟨err, e₁, e₁', hr, hr', h₁⟩ := hall.cases <;> rw [hr, hr']
  · exact .ok h₁
  · obtain ⟨settings₁, host₁, rfl, hhost₁⟩ := h₁
    exact .error ⟨settings₁, host₁, rfl, hhost₁⟩

theorem agree_updateSerial (hsys : Respects sys) (phase : Phase) (dt : Float32) (i : Nat) {e e' : Engine σ ρ ε}
    (h : e.Alike e') :
    Agree Alike Alike (updateSerial sys phase dt e i) (updateSerial sys phase dt e' i) := by
  cases hslot : e.slotAt? phase i with
  | none =>
    have hslot' := (h.slotAt? phase i).trans hslot
    unfold updateSerial
    rw [hslot, hslot']
    exact .ok h
  | some slot =>
    have hslot' := (h.slotAt? phase i).trans hslot
    rw [updateSerial_eq hslot, updateSerial_eq hslot', h.context]
    obtain ⟨host₁, hreply, h₁⟩ := hsys.updateSerial (e.context phase false) dt slot.system h.host
    rw [hreply]
    generalize sys.updateSerial (e.context phase false) dt slot.system e.host = reply at h₁ ⊢
    dsimp only
    cases houtcome : reply.outcome with
    | error fault => exact .error (h.after phase i reply.world reply.drawn _ h₁)
    | ok result => exact agree_ignore (agree_deliver hsys (h.after phase i reply.world reply.drawn _ h₁))

/-- Results applied so far, in engines that nobody tells apart. -/
def Applied.Alike (a a' : Applied σ ρ ε) : Prop := a.engine.Alike a'.engine ∧ a'.count = a.count ∧ a'.bytes = a.bytes

theorem agree_applyResult (hsys : Respects sys) (phase : Phase) (i : Nat) {a a' : Applied σ ρ ε} (h : a.Alike a') :
    Agree Applied.Alike Applied.Alike (applyResult sys phase a i) (applyResult sys phase a' i) := by
  obtain ⟨hengine, hcount, hbytes⟩ := h
  have hslots := hengine.slotAt? phase i
  cases hwaiting : (a.engine.slotAt? phase i).bind (·.pending) with
  | none =>
    rw [applyResult_of_none hwaiting, applyResult_of_none (hslots ▸ hwaiting)]
    exact .ok ⟨hengine, hcount, hbytes⟩
  | some result =>
    obtain ⟨slot, hslot, hpending⟩ := Option.bind_eq_some_iff.mp hwaiting
    rw [applyResult_eq hslot hpending, applyResult_eq (hslots.trans hslot) hpending, hengine.context]
    obtain ⟨host₁, hreply, h₁⟩ := hsys.apply result (a.engine.context phase false) slot.system hengine.host
    dsimp only
    rw [hreply]
    generalize sys.apply result (a.engine.context phase false) slot.system a.engine.host = reply at h₁ ⊢
    have hafter := hengine.after phase i reply.world reply.drawn ({ · with pending := none, system := reply.system }) h₁
    dsimp only
    cases houtcome : reply.outcome with
    | error fault => exact .error ⟨hafter, hcount, hbytes⟩
    | ok _ =>
      dsimp only
      rw [hcount, hbytes]
      obtain ⟨_, e₁, e₁', hr, hr', h'⟩ | ⟨err, e₁, e₁', hr, hr', h'⟩ :=
        (agree_ignore (agree_deliver hsys hafter)).cases <;> rw [hr, hr']
      · exact .ok ⟨h', rfl, rfl⟩
      · exact .error ⟨h', rfl, rfl⟩

/-! ### Operations -/

theorem agree_immediately {α : Type} (hsys : Respects sys) (op : World → Except WorldError α × World)
    {e e' : Engine σ ρ ε} (h : e.Alike e') : Agree Alike Alike (immediately sys e op) (immediately sys e' op) := by
  obtain ⟨settings, host', rfl, hhost⟩ := h
  unfold immediately
  dsimp only
  rcases op e.world with ⟨err | a, world⟩
  · exact .error ⟨settings, host', rfl, hhost⟩
  · have hchanged : { e with world }.Alike
        { e with scheduler := { e.scheduler with settings }, world, host := host' } :=
      ⟨settings, host', rfl, hhost⟩
    dsimp only
    obtain ⟨_, e₁, e₁', hr, hr', h₁⟩ | ⟨err, e₁, e₁', hr, hr', h₁⟩ :=
      (agree_deliver hsys hchanged).cases <;> rw [hr, hr']
    · exact .ok h₁
    · exact .error h₁

theorem agree_endFrame (hsys : Respects sys) {e e' : Engine σ ρ ε} (h : e.Alike e') :
    Agree Alike Alike (endFrame sys e) (endFrame sys e') := by
  unfold endFrame
  rw [h.check]
  cases e.scheduler.check .endOfFrame with
  | error err => exact .error h
  | ok _ =>
    dsimp only
    obtain ⟨_, e₁, e₁', hr, hr', h₁⟩ | ⟨err, e₁, e₁', hr, hr', h₁⟩ := (agree_deliver hsys h).cases <;> rw [hr, hr']
    · obtain ⟨settings, host, rfl, hhost⟩ := h₁
      exact .ok ⟨settings, host, rfl, hhost⟩
    · obtain ⟨settings, host, rfl, hhost⟩ := h₁
      exact .error ⟨settings, host, rfl, hhost⟩

theorem agree_offer (hsys : Respects sys) (item : Handle × Entity × Component) {state state' : σ × ε}
    (h : SameBeside state state') : Agree SameBeside SameBeside (offer sys state item) (offer sys state' item) := by
  obtain ⟨s, host⟩ := state
  obtain ⟨_, host'⟩ := state'
  obtain ⟨rfl, hhost⟩ := h
  obtain ⟨handle, owner, c⟩ := item
  unfold offer
  dsimp only at hhost ⊢
  by_cases haccepts : sys.accepts s c = true
  · obtain ⟨host₁, hreply, h₁⟩ := hsys.added handle owner c s hhost
    simp only [if_pos haccepts]
    rw [hreply]
    cases houtcome : (sys.added handle owner c s host).outcome with
    | error fault => exact .error ⟨rfl, h₁⟩
    | ok _ => exact .ok ⟨rfl, h₁⟩
  · simp only [if_neg haccepts]
    exact .ok ⟨rfl, hhost⟩

theorem agree_register (hsys : Respects sys) (phase : Phase) (s : σ) {e e' : Engine σ ρ ε} (h : e.Alike e') :
    Agree Alike Alike (register sys e phase s) (register sys e' phase s) := by
  have hclosed : e'.scheduler.closed = e.scheduler.closed := by
    obtain ⟨_, _, rfl, _⟩ := h
    rfl
  have hnames : e'.scheduler.names = e.scheduler.names := by
    obtain ⟨_, _, rfl, _⟩ := h
    rfl
  unfold register
  dsimp only
  rw [hclosed, hnames]
  split
  · exact .error h
  split
  · exact .error h
  split
  · exact .error h
  obtain ⟨_, e₁, e₁', hr, hr', h₁⟩ | ⟨err, e₁, e₁', hr, hr', h₁⟩ := (agree_deliver hsys h).cases <;> rw [hr, hr']
  -- from here on the two runs differ in settings and host only
  · obtain ⟨settings, host', rfl, hhost⟩ := h₁
    obtain ⟨host₂, hreply, h₂⟩ := hsys.init e₁.world phase e₁.scheduler.nextId s hhost
    dsimp only
    rw [hreply]
    generalize sys.init e₁.world phase e₁.scheduler.nextId s e₁.host = reply at h₂ ⊢
    dsimp only
    cases houtcome : reply.outcome with
    | error fault => exact .error ⟨settings, host₂, rfl, h₂⟩
    | ok _ =>
      have hfirst : SameBeside (reply.system, reply.host) (reply.system, host₂) := ⟨rfl, h₂⟩
      have hoffers := agree_inOrder (fun _ _ item h => agree_offer hsys item h)
        e₁.world.store.attached hfirst
      dsimp only
      obtain ⟨_, ⟨s₃, host₃⟩, ⟨_, host₃'⟩, hr, hr', rfl, h₃⟩ | ⟨fault, ⟨s₃, host₃⟩, ⟨_, host₃'⟩, hr, hr', rfl, h₃⟩ :=
        hoffers.cases <;> rw [hr, hr']
      · exact .ok ⟨settings, host₃', rfl, h₃⟩
      · exact .error ⟨settings, _, rfl, hsys.shutdown s₃ h₃⟩
  · exact .error h₁

theorem Alike.shutdown (hsys : Respects sys) {e e' : Engine σ ρ ε} (h : e.Alike e') :
    (Engine.shutdown sys e).Alike (Engine.shutdown sys e') := by
  obtain ⟨settings, host', rfl, hhost⟩ := h
  unfold Engine.shutdown
  dsimp only
  split
  · exact ⟨settings, host', rfl, hhost⟩
  · exact ⟨settings, _, rfl, hsys.shutdownAll _ hhost⟩

end Engine

end hosts

/-- The equivalence that every system respects. -/
abbrev identicalHosts (ε : Type) : Setoid ε := ⟨Eq, ⟨fun _ => rfl, Eq.symm, Eq.trans⟩⟩

theorem respects_identicalHosts (sys : System σ ρ ε) : @Respects σ ρ ε (identicalHosts ε) sys := by
  let _ := identicalHosts ε
  refine ⟨?_, ?_, ?_, ?_, ?_, ?_, ?_⟩
  · rintro w phase id s host _ rfl
    exact ⟨_, rfl, rfl⟩
  · rintro h owner c s host _ rfl
    exact ⟨_, rfl, rfl⟩
  · rintro h owner c s host _ rfl
    exact ⟨_, rfl, rfl⟩
  · rintro ctx dt s host _ rfl
    exact ⟨_, rfl, rfl⟩
  · rintro ctx dt s host _ rfl
    exact ⟨_, rfl, rfl⟩
  · rintro result ctx s host _ rfl
    exact ⟨_, rfl, rfl⟩
  · rintro s host _ rfl
    exact rfl

end Cadence
