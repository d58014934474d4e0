import Cadence.Proofs.Engine.Run

/-!
Predicates of systems that no callback leaves. They are all that an invariant can say of a system it knows nothing
else about, and they hold of all systems of an engine as soon as they hold of those that are registered. A predicate
that callbacks keep only where some invariant holds is kept beside that invariant.
-/

namespace Cadence

variable {σ ρ ε : Type}

/-- The callbacks of a system lead from states in `P` to states in `P`. -/
structure Stable (sys : System σ ρ ε) (P : σ → Prop) : Prop where
  init : ∀ {w phase id s host}, P s → P (sys.init w phase id s host).system
  added : ∀ {h owner c s host}, P s → P (sys.added h owner c s host).system
  removed : ∀ {h owner c s host}, P s → P (sys.removed h owner c s host).system
  update : ∀ {ctx dt s host}, P s → P (sys.update ctx dt s host).system
  updateSerial : ∀ {ctx dt s host}, P s → P (sys.updateSerial ctx dt s host).system
  apply : ∀ {result ctx s host}, P s → P (sys.apply result ctx s host).system

/-- The callbacks that register a system and tell it of components lead from states in `P` to states in `P`. -/
structure Attentive (sys : System σ ρ ε) (P : σ → Prop) : Prop where
  init : ∀ {w phase id s host}, P s → P (sys.init w phase id s host).system
  added : ∀ {h owner c s host}, P s → P (sys.added h owner c s host).system
  removed : ∀ {h owner c s host}, P s → P (sys.removed h owner c s host).system

namespace Stable

variable {sys : System σ ρ ε} {P : σ → Prop}

theorem attentive (hP : Stable sys P) : Attentive sys P := ⟨hP.init, hP.added, hP.removed⟩

theorem const (sys : System σ ρ ε) (p : Prop) : Stable sys fun _ => p := ⟨id, id, id, id, id, id⟩

theorem within (hP : Stable sys P) (p : Prop) : Stable sys fun s => p → P s where
  init h hp := hP.init (h hp)
  added h hp := hP.added (h hp)
  removed h hp := hP.removed (h hp)
  update h hp := hP.update (h hp)
  updateSerial h hp := hP.updateSerial (h hp)
  apply h hp := hP.apply (h hp)

end Stable

namespace Attentive

variable {sys : System σ ρ ε} {P : σ → Prop} {fits : Phase → σ → Prop}

theorem notified (hP : Attentive sys P) (event : Event) (c : Component) {s : σ} (hs : P s) (host : ε) :
    P (sys.notify event c s host).system := by
  cases event with
  | attached h owner => exact hP.added hs
  | detached h owner => exact hP.removed hs

theorem notifyAll (hP : Attentive sys P) (event : Event) (c : Component) {slots : List (Slot σ ρ)}
    (h : ∀ slot ∈ slots, P slot.system) (host : ε) : ∀ slot ∈ (sys.notifyAll event c slots host).2.1, P slot.system := by
  induction slots generalizing host with
  | nil => exact h
  | cons slot rest ih =>
    obtain ⟨hslot, hrest⟩ := List.forall_mem_cons.mp h
    rw [System.notifyAll]
    split
    · have htold := hP.notified event c hslot host
      dsimp only
      split
      · exact List.forall_mem_cons.mpr ⟨htold, hrest⟩
      · exact List.forall_mem_cons.mpr ⟨htold, ih hrest _⟩
    · exact List.forall_mem_cons.mpr ⟨hslot, ih hrest host⟩

theorem notifyPhases (hP : ∀ phase, Attentive sys (fits phase)) (event : Event) (c : Component)
    {slots : ByPhase (List (Slot σ ρ))} (h : ∀ phase, ∀ slot ∈ slots.get phase, fits phase slot.system) (host : ε) :
    ∀ phase, ∀ slot ∈ (sys.notifyPhases event c slots host).2.1.get phase, fits phase slot.system := by
  have hearlies : ∀ slot ∈ slots.early, fits .early slot.system := h .early
  have hscripts : ∀ slot ∈ slots.script, fits .script slot.system := h .script
  have hlates : ∀ slot ∈ slots.late, fits .late slot.system := h .late
  intro phase
  have hearly := (hP .early).notifyAll event c hearlies host
  rw [System.notifyPhases]
  rcases hresult : sys.notifyAll event c slots.early host with ⟨err | _, early, host₁⟩ <;> rw [hresult] at hearly
  · cases phase with
    | early => exact hearly
    | script => exact hscripts
    | late => exact hlates
  have hscript := (hP .script).notifyAll event c hscripts host₁
  dsimp only
  rcases hresult : sys.notifyAll event c slots.script host₁ with ⟨err | _, script, host₂⟩ <;> rw [hresult] at hscript
  · cases phase with
    | early => exact hearly
    | script => exact hscript
    | late => exact hlates
  have hlate := (hP .late).notifyAll event c hlates host₂
  cases phase with
  | early => exact hearly
  | script => exact hscript
  | late => exact hlate

theorem offered (hP : Attentive sys P) {s : σ} (hs : P s) (host : ε) (items : List (Handle × Entity × Component)) :
    P (inOrder (Engine.offer sys) (s, host) items).2.1 := by
  have hstep : ∀ (state : σ × ε), ∀ item ∈ items, P state.1 →
      Leaves (fun _ state => P state.1) (fun _ state => P state.1) (Engine.offer sys state item) := by
    rintro ⟨s, host⟩ ⟨h, owner, c⟩ _ hs
    rw [Engine.offer]
    dsimp only
    split
    · cases (sys.added h owner c s host).outcome with
      | error fault => exact hP.added hs
      | ok _ => exact hP.added hs
    · exact hs
  exact (leaves_inOrder (I := fun state : σ × ε => P state.1) hstep hs).snd

end Attentive

namespace Engine

variable {sys : System σ ρ ε} {fits : Phase → σ → Prop}

/-- Every system is where it fits. -/
def Placed (fits : Phase → σ → Prop) (e : Engine σ ρ ε) : Prop :=
  ∀ phase, ∀ slot ∈ e.scheduler.slots.get phase, fits phase slot.system

namespace Placed

theorem slot {e : Engine σ ρ ε} (h : e.Placed fits) {phase : Phase} {i : Nat} {slot : Slot σ ρ}
    (hslot : e.slotAt? phase i = some slot) : fits phase slot.system :=
  h phase slot (List.mem_of_getElem? hslot)

theorem of_slots {e : Engine σ ρ ε} (h : ∀ {phase i slot}, e.slotAt? phase i = some slot → fits phase slot.system) :
    e.Placed fits := by
  intro phase slot hmem
  obtain ⟨i, hi⟩ := List.mem_iff_getElem?.mp hmem
  exact h (i := i) hi

theorem congr {e e' : Engine σ ρ ε} (h : e.Placed fits) (hslots : e'.scheduler.slots = e.scheduler.slots) :
    e'.Placed fits := by
  rw [Placed]
  rw [hslots]
  exact h

theorem start (settings : Settings.Scheduling) (screen : Screen) (host : ε) :
    (Engine.start settings screen host : Engine σ ρ ε).Placed fits := by
  rintro (_ | _ | _) slot ⟨⟩

theorem after {e : Engine σ ρ ε} (h : e.Placed fits) {phase : Phase} {i : Nat} {slot : Slot σ ρ} {world : World}
    {host : ε} {drawn : Array Primitive} {f : Slot σ ρ → Slot σ ρ} (hslot : e.slotAt? phase i = some slot)
    (hfits : fits phase (f slot).system) : (e.after phase i world host drawn f).Placed fits := by
  refine of_slots fun {phase' j slot'} hslot' => ?_
  obtain ⟨rfl, _, rfl⟩ | ⟨_, hold⟩ := slotAt?_after_cases world host drawn f hslot hslot'
  · exact hfits
  · exact h.slot hold

theorem append {e e' : Engine σ ρ ε} (h : e.Placed fits) {phase : Phase} {slot : Slot σ ρ}
    (hfits : fits phase slot.system)
    (hslots : e'.scheduler.slots = e.scheduler.slots.modify phase (· ++ [slot])) : e'.Placed fits := by
  refine of_slots fun {phase' i slot'} hslot' => ?_
  obtain hold | ⟨rfl, rfl⟩ := slotAt?_of_append hslots hslot'
  · exact h.slot hold
  · exact hfits

theorem route (hsys : ∀ phase, Attentive sys (fits phase)) {e : Engine σ ρ ε} (h : e.Placed fits) (event : Event) :
    (Engine.route sys e event).2.Placed fits := by
  rw [Engine.route]
  split
  · exact h
  · exact Attentive.notifyPhases hsys event _ h e.host

theorem deliver (hsys : ∀ phase, Attentive sys (fits phase)) {e : Engine σ ρ ε} (h : e.Placed fits) :
    (Engine.deliver sys e).2.Placed fits := by
  have hall : Leaves (fun _ e' => e'.Placed fits) (fun _ e' => e'.Placed fits)
      (inOrder (Engine.route sys) { e with world := e.world.drain.2 } e.world.events.toList) := by
    refine leaves_inOrder (I := Placed fits) (fun e' event _ h' => ?_) h
    exact .of_snd (I := Placed fits) (h'.route hsys event)
  have hleft := hall.snd
  rw [deliver_eq]
  rcases hresult : inOrder (Engine.route sys) { e with world := e.world.drain.2 } e.world.events.toList with
    ⟨err | _, e'⟩ <;> rw [hresult] at hleft <;> exact hleft

end Placed

/-- What has to be shown of a predicate of systems for it to hold beside an invariant: the callbacks of a phase keep it
where the invariant holds. -/
structure KeptBeside (I : Stage → Engine σ ρ ε → Prop) (sys : System σ ρ ε) (fits kept : Phase → σ → Prop) : Prop where
  fits : ∀ {phase s}, fits phase s → kept phase s
  attentive : ∀ phase, Attentive sys (kept phase)
  update : ∀ {phase dt i failed e slot}, I (.updating phase i failed) e → e.world.events = #[] →
    e.slotAt? phase i = some slot → kept phase slot.system →
    kept phase (sys.update (e.context phase true) dt slot.system e.host).system
  updateSerial : ∀ {phase dt i e slot}, I (.updating phase i false) e → e.world.events = #[] →
    e.slotAt? phase i = some slot → kept phase slot.system →
    kept phase (sys.updateSerial (e.context phase false) dt slot.system e.host).system
  apply : ∀ {phase i e slot result}, I (.applying phase i) e → e.world.events = #[] →
    e.slotAt? phase i = some slot → kept phase slot.system →
    kept phase (sys.apply result (e.context phase false) slot.system e.host).system

variable {edits : World → World → Prop} {I : Stage → Engine σ ρ ε → Prop} {kept : Phase → σ → Prop}

/-- An invariant, and of every system what is kept beside it, also when something has failed. -/
theorem RuleFor.beside (rule : RuleFor edits sys fits I) (hkept : KeptBeside I sys fits kept) :
    RuleFor edits sys fits fun stage e => I stage e ∧ e.Placed kept where
  deliver {stage e} h :=
    (rule.deliver h.1).and (.of_snd (I := Placed kept) (h.2.deliver hkept.attentive))
  begin {phase e} h hcheck := by
    refine ⟨rule.begin h.1 hcheck, h.2.congr ?_⟩
    rw [beginPhase]
    split <;> rfl
  serial {phase dt i e slot reply result} h hevents hslot hreply hok := by
    refine ⟨rule.serial h.1 hevents hslot hreply hok, h.2.after hslot ?_⟩
    subst hreply
    exact hkept.updateSerial h.1 hevents hslot (h.2.slot hslot)
  serial_error {phase dt i e slot reply fault} h hevents hslot hreply herror := by
    refine ⟨rule.serial_error h.1 hevents hslot hreply herror, h.2.after hslot ?_⟩
    subst hreply
    exact hkept.updateSerial h.1 hevents hslot (h.2.slot hslot)
  worker {phase dt i failed e slot reply result} h hevents hslot hreply hok := by
    refine ⟨rule.worker h.1 hevents hslot hreply hok, h.2.after hslot ?_⟩
    subst hreply
    exact hkept.update h.1 hevents hslot (h.2.slot hslot)
  worker_error {phase dt i failed e slot reply fault} h hevents hslot hreply herror := by
    refine ⟨rule.worker_error h.1 hevents hslot hreply herror, h.2.after hslot ?_⟩
    subst hreply
    exact hkept.update h.1 hevents hslot (h.2.slot hslot)
  join h := ⟨rule.join h.1, h.2⟩
  turn h hn := ⟨rule.turn h.1 hn, h.2⟩
  skip h hslot hnone := ⟨rule.skip h.1 hslot hnone, h.2⟩
  apply {phase i e slot result reply} h hevents hslot hpending hreply hok := by
    refine ⟨rule.apply h.1 hevents hslot hpending hreply hok, h.2.after hslot ?_⟩
    subst hreply
    exact hkept.apply h.1 hevents hslot (h.2.slot hslot)
  apply_error {phase i e slot result reply fault} h hevents hslot hpending hreply herror := by
    refine ⟨rule.apply_error h.1 hevents hslot hpending hreply herror, h.2.after hslot ?_⟩
    subst hreply
    exact hkept.apply h.1 hevents hslot (h.2.slot hslot)
  finish h hn := ⟨rule.finish h.1 hn, h.2⟩
  settle h hpoisoned := ⟨rule.settle h.1 hpoisoned, h.2⟩
  abort {phase e} h := by
    refine ⟨rule.abort h.1, fun phase' slot hmem => ?_⟩
    rw [abort] at hmem
    rw [ByPhase.get_modify] at hmem
    split at hmem
    · rename_i hphase
      subst hphase
      obtain ⟨slot', hold, rfl⟩ := List.mem_map.mp hmem
      exact h.2 phase' slot' hold
    · exact h.2 phase' slot hmem
  edit h hworld := ⟨rule.edit h.1 hworld, h.2⟩
  host h hrefuses := ⟨rule.host h.1 hrefuses, h.2⟩
  register {phase s e id host} h hevents hs hname hinit hoffers := by
    have hleft : kept phase (sys.init e.world phase id s e.host).system := (hkept.attentive phase).init (hkept.fits hs)
    have hoffered :=
      (hkept.attentive phase).offered hleft (sys.init e.world phase id s e.host).host e.world.store.attached
    rw [hoffers] at hoffered
    exact ⟨rule.register h.1 hevents hs hname hinit hoffers, h.2.append hoffered rfl⟩
  endFrame h hevents := ⟨rule.endFrame h.1 hevents, h.2⟩
  shutdown {e} h := by
    refine ⟨rule.shutdown h.1, ?_⟩
    rw [Engine.shutdown]
    split
    · exact h.2
    · intro phase slot hmem
      rw [ByPhase.get_const] at hmem
      cases hmem

/-- The rule of an invariant that says nothing. -/
theorem trivial_rule (sys : System σ ρ ε) (fits : Phase → σ → Prop) :
    Rule sys fits fun _ (_ : Engine σ ρ ε) => True := by
  constructor
  · constructor
    · exact fun _ => .of_snd (I := fun _ => True) trivial
    all_goals intros; trivial
  all_goals intros; trivial

theorem placed_rule (hsys : ∀ phase, Stable sys (fits phase)) :
    Rule sys fits fun _ (e : Engine σ ρ ε) => e.Placed fits := by
  have hkept : KeptBeside (fun _ (_ : Engine σ ρ ε) => True) sys fits fits :=
    { fits := id
      attentive := fun phase => (hsys phase).attentive
      update := fun _ _ _ => (hsys _).update
      updateSerial := fun _ _ _ => (hsys _).updateSerial
      apply := fun _ _ _ => (hsys _).apply }
  have hrule := (trivial_rule sys fits).beside hkept
  simp only [true_and] at hrule
  exact hrule

/-- Registered systems leave `fits` by no operation whatever, so what holds of those that are registered holds of all. -/
theorem placed_perform (hsys : ∀ phase, Stable sys (fits phase)) {e : Engine σ ρ ε} (h : e.Placed fits) {op : Op σ}
    (hop : ∀ phase s, op = .register phase s → fits phase s) : (perform sys e op).2.Placed fits := by
  have hrouted : op.IsRouted fits → (perform sys e op).2.Placed fits := (placed_rule hsys).between_perform h
  cases op with
  | register phase s => exact hrouted (hop phase s rfl)
  | edit change => exact h
  | route event => exact h.route (fun phase => (hsys phase).attentive) event
  | _ => exact hrouted trivial

theorem placed_run (hsys : ∀ phase, Stable sys (fits phase)) {e : Engine σ ρ ε} (h : e.Placed fits) {ops : List (Op σ)}
    (hops : ∀ phase s, .register phase s ∈ ops → fits phase s) : (run sys e ops).Placed fits := by
  induction ops generalizing e with
  | nil => exact h
  | cons op rest ih =>
    have hfirst : ∀ phase s, op = .register phase s → fits phase s := fun phase s heq => hops phase s (by simp [heq])
    exact ih (placed_perform hsys h hfirst) fun phase s hmem => hops phase s (by simp [hmem])

end Engine

end Cadence
