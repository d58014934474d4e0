import Cadence.Proofs.Engine.Stable
import Cadence.Proofs.Engine.Sync

/-!
Systems that never fail. A system may rely on what its index promises when it is updated, and on its result when that
is applied; if this is all it needs, no run of operations ever poisons the scheduler, because nothing that an update
has found is released before the frame ends.
-/

namespace Cadence

variable {σ ρ ε : Type}

/-! ### Routing that cannot fail -/

/-- No system fails when it is told of a component that it accepts. -/
def System.IsWilling (sys : System σ ρ ε) : Prop :=
  ∀ event c s host, sys.accepts s c = true → (sys.notify event c s host).outcome = .ok ()

namespace System

variable {sys : System σ ρ ε}

theorem notifyAll_done (hsys : sys.IsWilling) (event : Event) (c : Component) (slots : List (Slot σ ρ)) (host : ε) :
    (sys.notifyAll event c slots host).1 = .ok () := by
  induction slots generalizing host with
  | nil => rfl
  | cons slot rest ih =>
    rw [notifyAll]
    split
    · rename_i haccepts
      dsimp only
      rw [hsys event c slot.system host haccepts]
      exact ih _
    · exact ih host

theorem notifyPhases_done (hsys : sys.IsWilling) (event : Event) (c : Component) (slots : ByPhase (List (Slot σ ρ)))
    (host : ε) : (sys.notifyPhases event c slots host).1 = .ok () := by
  rw [notifyPhases]
  have hearly := notifyAll_done hsys event c slots.early host
  rcases hresult : sys.notifyAll event c slots.early host with ⟨err | _, early, host₁⟩
  · rw [hresult] at hearly
    cases hearly
  have hscript := notifyAll_done hsys event c slots.script host₁
  dsimp only
  rcases hresult₁ : sys.notifyAll event c slots.script host₁ with ⟨err | _, script, host₂⟩
  · rw [hresult₁] at hscript
    cases hscript
  exact notifyAll_done hsys event c slots.late host₂

end System

namespace Engine

variable {sys : System σ ρ ε}

theorem route_done (hsys : sys.IsWilling) (e : Engine σ ρ ε) (event : Event) : (route sys e event).1 = .ok () := by
  rw [route]
  split
  · rfl
  · exact sys.notifyPhases_done hsys ..

theorem deliver_done (hsys : sys.IsWilling) (e : Engine σ ρ ε) : ∃ n e', deliver sys e = (.ok n, e') := by
  have hdone := inOrder_of_ok (route_done hsys) { e with world := e.world.drain.2 } e.world.events.toList
  rw [deliver_eq]
  rcases hresult : inOrder (route sys) { e with world := e.world.drain.2 } e.world.events.toList with ⟨err | _, e'⟩
  · rw [hresult] at hdone
    cases hdone
  · exact ⟨_, e', rfl⟩

theorem offers_done (hsys : sys.IsWilling) (state : σ × ε) (items : List (Handle × Entity × Component)) :
    (inOrder (offer sys) state items).1 = .ok () := by
  refine inOrder_of_ok ?_ state items
  rintro ⟨s, host⟩ ⟨h, owner, c⟩
  rw [offer]
  dsimp only
  split
  · rename_i haccepts
    exact hsys (.attached h owner) c s host haccepts
  · rfl

/-- A system that can be initialised is registered, unless the registration is refused or the queue cannot be routed. -/
theorem register_ne_initFailed (hsys : sys.IsWilling)
    (hinit : ∀ w phase id s host, (sys.init w phase id s host).outcome = .ok ()) (e : Engine σ ρ ε) (phase : Phase)
    (s : σ) (name : String) (fault : Fault) : (register sys e phase s).1 ≠ .error (.initFailed name fault) := by
  obtain ⟨n, e₁, hdeliver⟩ := deliver_done hsys e
  rw [register]
  dsimp only
  split
  · rintro ⟨⟩
  split
  · rintro ⟨⟩
  split
  · rintro ⟨⟩
  rw [hdeliver]
  dsimp only
  have hstarted := hinit e₁.world phase e₁.scheduler.nextId s e₁.host
  generalize sys.init e₁.world phase e₁.scheduler.nextId s e₁.host = reply at hstarted ⊢
  rw [hstarted]
  have hoffers := offers_done hsys (reply.system, reply.host) e₁.world.store.attached
  dsimp only
  rcases hresult : inOrder (offer sys) (reply.system, reply.host) e₁.world.store.attached with ⟨err | _, s', host⟩
  · rw [hresult] at hoffers
    cases hoffers
  · rintro ⟨⟩

end Engine

/-! ### Systems that never fail -/

/-- Systems that never fail as long as they are registered where `fits` allows, see what their catalogs promise, and
get results back that are `valid` in the world. What is valid stays valid as long as nothing is released. -/
structure Reliable (sys : System σ ρ ε) (catalog? : σ → Option Catalog) (fits : Phase → σ → Prop)
    (valid : World → ρ → Prop) : Prop where
  catalogs : KeepsCatalogs sys catalog?
  stable : ∀ phase, Stable sys (fits phase)
  willing : sys.IsWilling
  update : ∀ (ctx : Context) (dt s host), ctx.world.Sound → fits ctx.phase s →
    (∀ k, catalog? s = some k → k.Lists ctx.world) →
    ∃ result, (sys.update ctx dt s host).outcome = .ok result ∧ ∀ r ∈ result, valid ctx.world r
  updateSerial : ∀ (ctx : Context) (dt s host), ctx.world.Sound → fits ctx.phase s →
    (∀ k, catalog? s = some k → k.Lists ctx.world) →
    ∃ result, (sys.updateSerial ctx dt s host).outcome = .ok result ∧
      ∀ r ∈ result, valid (sys.updateSerial ctx dt s host).world r
  apply : ∀ (result) (ctx : Context) (s host), ctx.world.Sound → valid ctx.world result →
    (sys.apply result ctx s host).outcome = .ok ()
  duplicate : ∀ {w r host}, valid w r → valid w (sys.duplicate r host).1
  keeps : ∀ {w w' r}, World.Keeps w w' → valid w r → valid w' r

theorem Reliable.handOff {sys : System σ ρ ε} {catalog? : σ → Option Catalog} {fits : Phase → σ → Prop}
    {valid : World → ρ → Prop} (hsys : Reliable sys catalog? fits valid) {w : World} {result : Option ρ} {host : ε}
    (h : ∀ r ∈ result, valid w r) : ∀ r ∈ (sys.handOff result host).1, valid w r := by
  cases result with
  | none => exact h
  | some result =>
    intro r hr
    cases hr
    exact hsys.duplicate (h result rfl)

namespace Engine

variable {sys : System σ ρ ε} {catalog? : σ → Option Catalog} {fits : Phase → σ → Prop} {valid : World → ρ → Prop}

/-- Nothing has failed: the catalogs are in step, every system is where it fits, and a result that waits is valid and
waits in a slot of which `waits` says so. -/
structure Safe (catalog? : σ → Option Catalog) (fits : Phase → σ → Prop) (valid : World → ρ → Prop)
    (waits : Phase → Nat → Prop) (e : Engine σ ρ ε) : Prop where
  unpoisoned : e.scheduler.poisoned = false
  sync : e.InSync catalog?
  placed : e.Placed fits
  waiting : ∀ {phase i slot r}, e.slotAt? phase i = some slot → slot.pending = some r → waits phase i ∧ valid e.world r

/-- Results wait in the slots that have been updated and whose results have not been applied, and nothing breaks. -/
def SafeAt (catalog? : σ → Option Catalog) (fits : Phase → σ → Prop) (valid : World → ρ → Prop) :
    Stage → Engine σ ρ ε → Prop
  | .between => Safe catalog? fits valid fun _ _ => False
  | .updating phase done failed => fun e =>
    failed = false ∧ e.Safe catalog? fits valid fun phase' i => phase' = phase ∧ i < done
  | .applying phase done => Safe catalog? fits valid fun phase' i => phase' = phase ∧ done ≤ i
  | .broken => fun _ => False

theorem safe_start (settings : Settings.Scheduling) (screen : Screen) (host : ε) (waits : Phase → Nat → Prop) :
    (start settings screen host : Engine σ ρ ε).Safe catalog? fits valid waits where
  unpoisoned := rfl
  sync := inSync_start settings screen host
  placed := .start settings screen host
  waiting {phase i slot r} hslot := by simp [slotAt?, start] at hslot

theorem Safe.congr {waits waits' : Phase → Nat → Prop} {e e' : Engine σ ρ ε} (h : e.Safe catalog? fits valid waits)
    (hpoisoned : e'.scheduler.poisoned = e.scheduler.poisoned) (hworld : e'.world = e.world)
    (hslots : e'.scheduler.slots = e.scheduler.slots)
    (hwaits : ∀ {phase i slot}, e.slotAt? phase i = some slot → slot.pending ≠ none → waits phase i →
      waits' phase i) :
    e'.Safe catalog? fits valid waits' where
  unpoisoned := hpoisoned.trans h.unpoisoned
  sync := h.sync.congr hworld hslots
  placed := h.placed.congr hslots
  waiting {phase i slot r} hslot hr := by
    rw [slotAt?_congr hslots] at hslot
    obtain ⟨hw, hv⟩ := h.waiting hslot hr
    exact ⟨hwaits hslot (by simp [hr]) hw, hworld ▸ hv⟩

theorem Safe.edited (hsys : Reliable sys catalog? fits valid) {waits : Phase → Nat → Prop} {e : Engine σ ρ ε}
    (h : e.Safe catalog? fits valid waits) {world : World} (hworld : e.world.Edited world) :
    { e with world }.Safe catalog? fits valid waits where
  unpoisoned := h.unpoisoned
  sync := h.sync.edited hworld
  placed := h.placed
  waiting hslot hr := by
    obtain ⟨hw, hv⟩ := h.waiting hslot hr
    exact ⟨hw, hsys.keeps (hworld.keeps h.sync.routable.toSound) hv⟩

theorem Safe.delivered (hsys : Reliable sys catalog? fits valid) {waits : Phase → Nat → Prop} {e e' : Engine σ ρ ε}
    (h : e.Safe catalog? fits valid waits) (hframe : { e with world := e.world.drain.2 }.SameFrame e')
    (hhears : Hears sys e.world.events.toList e e') (hplaced : e'.Placed fits) :
    e'.Safe catalog? fits valid waits := by
  have hworld : e'.world = e.world.drain.2 := hframe.world
  refine ⟨?_, h.sync.delivered hsys.catalogs hworld hhears, hplaced, fun {phase i slot' r} hslot' hr => ?_⟩
  · obtain ⟨_, _, rfl⟩ := hframe
    exact h.unpoisoned
  · obtain ⟨slot, hold, hheard⟩ := hhears.slot hslot'
    rw [hheard.frame] at hr
    obtain ⟨hw, hv⟩ := h.waiting hold hr
    have hkeeps : e.world.Keeps e'.world := by
      rw [hworld]
      exact World.Keeps.refl e.world
    exact ⟨hw, hsys.keeps hkeeps hv⟩

/-- A callback that has not failed leaves nothing but a valid result in its slot. -/
theorem Safe.after (hsys : Reliable sys catalog? fits valid) {waits waits' : Phase → Nat → Prop} {e : Engine σ ρ ε}
    (h : e.Safe catalog? fits valid waits) {phase : Phase} {i : Nat} {slot : Slot σ ρ} {world : World} {host : ε}
    {drawn : Array Primitive} {f : Slot σ ρ → Slot σ ρ} (hslot : e.slotAt? phase i = some slot)
    (hworld : e.world.Edited world) (hcatalog : catalog? (f slot).system = catalog? slot.system)
    (hfits : fits phase (f slot).system) (hvalid : ∀ r, (f slot).pending = some r → waits' phase i ∧ valid world r)
    (hwaits : ∀ phase' j, ¬ (phase' = phase ∧ j = i) → waits phase' j → waits' phase' j) :
    (e.after phase i world host drawn f).Safe catalog? fits valid waits' := by
  refine ⟨?_, h.sync.after hslot hworld hcatalog, h.placed.after hslot hfits, fun {phase' j slot' r} hslot' hr => ?_⟩
  · rw [scheduler_after]
    exact h.unpoisoned
  · rw [world_after]
    obtain ⟨rfl, rfl, rfl⟩ | ⟨hne, hold⟩ := slotAt?_after_cases world host drawn f hslot hslot'
    · exact hvalid r hr
    · obtain ⟨hw, hv⟩ := h.waiting hold hr
      exact ⟨hwaits _ _ hne hw, hsys.keeps (hworld.keeps h.sync.routable.toSound) hv⟩

/-- At a call the queue is empty, so that the catalog of a system lists what is attached. -/
theorem Safe.lists {waits : Phase → Nat → Prop} {e : Engine σ ρ ε} (h : e.Safe catalog? fits valid waits)
    (hevents : e.world.events = #[]) {phase : Phase} {i : Nat} {slot : Slot σ ρ}
    (hslot : e.slotAt? phase i = some slot) : ∀ k, catalog? slot.system = some k → k.Lists e.world :=
  fun _ hk => (Catalog.tracks_iff_lists hevents).mp (h.sync.tracks hslot hk)

theorem Safe.register (hsys : Reliable sys catalog? fits valid) {waits : Phase → Nat → Prop} {e e' : Engine σ ρ ε}
    (h : e.Safe catalog? fits valid waits) (hevents : e.world.events = #[]) {phase : Phase} {slot : Slot σ ρ} {s : σ}
    {host host' : ε} (hfresh : IsFresh catalog? s) (hfits : fits phase s)
    (hoffers : inOrder (offer sys) (s, host) e.world.store.attached = (.ok (), slot.system, host'))
    (hpending : slot.pending = none) (hpoisoned : e'.scheduler.poisoned = e.scheduler.poisoned)
    (hworld : e'.world = e.world) (hslots : e'.scheduler.slots = e.scheduler.slots.modify phase (· ++ [slot])) :
    e'.Safe catalog? fits valid waits := by
  have hoffered := (hsys.stable phase).attentive.offered hfits host e.world.store.attached
  rw [hoffers] at hoffered
  refine ⟨hpoisoned.trans h.unpoisoned, h.sync.register hsys.catalogs hevents hfresh hoffers hworld hslots,
    h.placed.append hoffered hslots, fun {phase' i slot' r} hslot' hr => ?_⟩
  · obtain hold | ⟨rfl, rfl⟩ := slotAt?_of_append hslots hslot'
    · obtain ⟨hw, hv⟩ := h.waiting hold hr
      exact ⟨hw, hworld ▸ hv⟩
    · rw [hpending] at hr
      cases hr

theorem safe_rule (hsys : Reliable sys catalog? fits valid) :
    Rule sys (fun phase s => IsFresh catalog? s ∧ fits phase s)
      (SafeAt catalog? fits valid : Stage → Engine σ ρ ε → Prop) where
  deliver {stage e} h := by
    obtain ⟨n, e', hdeliver⟩ := deliver_done hsys.willing e
    have hleaves := leaves_deliver sys e
    have hplaced : e.Placed fits → (deliver sys e).2.Placed fits := fun h =>
      h.deliver fun phase => (hsys.stable phase).attentive
    rw [hdeliver] at hleaves hplaced ⊢
    obtain ⟨hframe, hhears⟩ := hleaves
    cases stage with
    | between => exact Safe.delivered hsys h hframe hhears (hplaced h.placed)
    | updating phase done failed => exact ⟨h.1, h.2.delivered hsys hframe hhears (hplaced h.2.placed)⟩
    | applying phase done => exact Safe.delivered hsys h hframe hhears (hplaced h.placed)
    | broken => cases h
  begin {phase e} h _ := by
    refine ⟨rfl, Safe.congr h ?_ ?_ ?_ fun _ _ hw => hw.elim⟩ <;> unfold beginPhase <;> split <;> rfl
  serial {phase dt i e slot reply result} h hevents hslot hreply hok := by
    subst hreply
    obtain ⟨_, hsafe⟩ := h
    obtain ⟨hcatalog, hworld⟩ := hsys.catalogs.updateSerial hok
    obtain ⟨result', hdone, hvalid⟩ := hsys.updateSerial (e.context phase false) dt slot.system e.host
      hsafe.sync.routable.toSound (hsafe.placed.slot hslot) (hsafe.lists hevents hslot)
    rw [hok] at hdone
    cases hdone
    -- the result is valid for the world it was made from, and those of the systems before it stay valid
    refine ⟨rfl, hsafe.after hsys hslot hworld hcatalog ((hsys.stable phase).updateSerial (hsafe.placed.slot hslot))
      (fun r hr => ⟨⟨rfl, by omega⟩, hvalid r hr⟩) ?_⟩
    rintro phase' j _ ⟨rfl, hj⟩
    exact ⟨rfl, by omega⟩
  serial_error {phase dt i e slot reply fault} h hevents hslot hreply herror := by
    subst hreply
    obtain ⟨result', hdone, _⟩ := hsys.updateSerial (e.context phase false) dt slot.system e.host
      h.2.sync.routable.toSound (h.2.placed.slot hslot) (h.2.lists hevents hslot)
    rw [herror] at hdone
    cases hdone
  worker {phase dt i failed e slot reply result} h hevents hslot hreply hok := by
    subst hreply
    obtain ⟨hfailed, hsafe⟩ := h
    obtain ⟨result', hdone, hvalid⟩ := hsys.update (e.context phase true) dt slot.system e.host
      hsafe.sync.routable.toSound (hsafe.placed.slot hslot) (hsafe.lists hevents hslot)
    rw [hok] at hdone
    cases hdone
    -- what waits is the copy that was handed off
    refine ⟨hfailed, hsafe.after hsys hslot (.refl _) (hsys.catalogs.update ..)
      ((hsys.stable phase).update (hsafe.placed.slot hslot))
      (fun r hr => ⟨⟨rfl, by omega⟩, hsys.handOff hvalid r hr⟩) ?_⟩
    rintro phase' j _ ⟨rfl, hj⟩
    exact ⟨rfl, by omega⟩
  worker_error {phase dt i failed e slot reply fault} h hevents hslot hreply herror := by
    subst hreply
    obtain ⟨result', hdone, _⟩ := hsys.update (e.context phase true) dt slot.system e.host
      h.2.sync.routable.toSound (h.2.placed.slot hslot) (h.2.lists hevents hslot)
    rw [herror] at hdone
    cases hdone
  -- no update has failed, so there is nothing to report when the workers are joined
  join h := by cases h.1
  turn h _ := by
    refine h.2.congr rfl rfl rfl ?_
    rintro phase' i slot _ _ ⟨rfl, _⟩
    exact ⟨rfl, Nat.zero_le i⟩
  skip {phase i e slot} h hslot hnone := by
    -- with nothing in its slot the system is done, so that only those behind it wait
    refine Safe.congr h rfl rfl rfl ?_
    rintro phase' j slot' hslot' hpending ⟨rfl, hj⟩
    have hne : j ≠ i := by
      rintro rfl
      rw [hslot] at hslot'
      cases hslot'
      exact hpending hnone
    exact ⟨rfl, by omega⟩
  apply {phase i e slot result reply} h _ hslot _ hreply hok := by
    subst hreply
    obtain ⟨hcatalog, hworld⟩ := hsys.catalogs.apply hok
    refine Safe.after hsys h hslot hworld hcatalog ((hsys.stable phase).apply (h.placed.slot hslot)) ?_ ?_
    · rintro r ⟨⟩
    · rintro phase' j hne ⟨rfl, hj⟩
      have : j ≠ i := fun heq => hne ⟨rfl, heq⟩
      exact ⟨rfl, by omega⟩
  apply_error {phase i e slot result reply fault} h _ hslot hpending hreply herror := by
    subst hreply
    obtain ⟨_, hvalid⟩ := h.waiting hslot hpending
    have hdone := hsys.apply result (e.context phase false) slot.system e.host h.sync.routable.toSound hvalid
    rw [herror] at hdone
    cases hdone
  finish {phase n e} h hn := by
    refine Safe.congr h rfl rfl rfl ?_
    rintro phase' i slot hslot _ ⟨rfl, hi⟩
    -- no slot stands behind the last one
    have hlt := (List.getElem?_eq_some_iff.mp hslot).1
    rw [length_labels] at hn
    omega
  settle h := h.elim
  abort h := h.elim
  edit h hworld := Safe.edited hsys h hworld
  host h _ := Safe.congr h rfl rfl rfl fun _ _ hw => hw
  register h hevents hs _ hinit hoffers :=
    Safe.register hsys h hevents (fun k hk => hs.1 k (hsys.catalogs.init hinit ▸ hk)) ((hsys.stable _).init hs.2)
      hoffers rfl rfl rfl rfl
  endFrame {e screen} h hevents :=
    { unpoisoned := h.unpoisoned
      sync := h.sync.flushed hevents rfl rfl
      placed := h.placed
      waiting := fun hslot hr => (h.waiting hslot hr).1.elim }
  shutdown {e} h := by
    rw [Engine.shutdown]
    split
    · exact h
    · refine ⟨h.unpoisoned, ⟨h.sync.routable, ?_⟩, .of_slots ?_, ?_⟩ <;> intros <;> simp_all [slotAt?]

end Engine

end Cadence
