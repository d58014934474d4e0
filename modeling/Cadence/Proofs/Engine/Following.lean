import Cadence.Proofs.Engine.Projection

/-!
Systems that follow the world. What is to be shown is said of one system and one callback at a time; the engine, its
stages and its failures are dealt with here once for all.
-/

namespace Cadence

variable {σ ρ ε : Type}

/-- The relation `follows` between a sound world and the state of a system outlasts what happens to the world between
two callbacks, if it is changed only as `edits` allows. -/
structure Lasting (edits : World → World → Prop) (sound : World → Prop) (follows : World → σ → Prop) : Prop where
  refl : ∀ w, edits w w
  sound_edit : ∀ {w w'}, sound w → edits w w' → sound w'
  sound_drain : ∀ {w}, sound w → sound w.drain.2
  sound_flush : ∀ {w}, sound w → w.events = #[] → sound w.flush.2
  edit : ∀ {w w' s}, sound w → follows w s → edits w w' → follows w' s
  flush : ∀ {w s}, sound w → w.events = #[] → follows w s → follows w.flush.2 s

/-- Systems that start out in the relation `follows` to the world, and whose callbacks keep to it. -/
structure Following (edits : World → World → Prop) (sys : System σ ρ ε) (fits : Phase → σ → Prop)
    (sound : World → Prop) (follows : World → σ → Prop) : Prop extends Lasting edits sound follows where
  register : ∀ {w phase id s host host'}, sound w → w.events = #[] → fits phase s →
    (sys.init w phase id s host).outcome = .ok () →
    inOrder (Engine.offer sys) ((sys.init w phase id s host).system, (sys.init w phase id s host).host)
      w.store.attached = (.ok (), host') → follows w host'.1
  hear : ∀ {w} {slot slot' : Slot σ ρ}, sound w → follows w slot.system →
    sys.Heard w.store w.events.toList slot slot' → follows w.drain.2 slot'.system
  update : ∀ ctx dt s host, sound ctx.world → follows ctx.world s →
    follows ctx.world (sys.update ctx dt s host).system
  updateSerial : ∀ {ctx dt s host result}, sound ctx.world → follows ctx.world s →
    (sys.updateSerial ctx dt s host).outcome = .ok result →
    follows ctx.world (sys.updateSerial ctx dt s host).system ∧
      edits ctx.world (sys.updateSerial ctx dt s host).world
  apply : ∀ {result ctx s host}, sound ctx.world → follows ctx.world s →
    (sys.apply result ctx s host).outcome = .ok () →
    follows ctx.world (sys.apply result ctx s host).system ∧ edits ctx.world (sys.apply result ctx s host).world

/-- Systems that simulate those that follow the world follow it too. -/
theorem Following.of_simulates {τ η : Type} {sys : System σ ρ ε} {sys' : System τ ρ η} {f : τ → σ} {g : η → ε}
    {edits : World → World → Prop} {fits : Phase → σ → Prop} {sound : World → Prop} {follows : World → σ → Prop}
    (hsys : Following edits sys fits sound follows) (h : Simulates sys' sys f g) :
    Following edits sys' (fun phase s => fits phase (f s)) sound fun w s => follows w (f s) where
  refl := hsys.refl
  sound_edit := hsys.sound_edit
  sound_drain := hsys.sound_drain
  sound_flush := hsys.sound_flush
  edit := hsys.edit
  flush := hsys.flush
  register {w phase id s host left} hw hevents hs hinit hoffers := by
    have hregister := @hsys.register w phase id (f s) (g host) (f left.1, g left.2) hw hevents hs
    rw [← h.init] at hregister
    refine hregister hinit ?_
    show inOrder (Engine.offer sys) (f _, g _) w.store.attached = _
    rw [h.offers, hoffers]
  hear hw hfollows hheard := hsys.hear hw hfollows (h.heard hheard)
  update ctx dt s host hw hfollows := by
    have hupdate := hsys.update ctx dt (f s) (g host) hw hfollows
    rw [← h.update] at hupdate
    exact hupdate
  updateSerial {ctx dt s host result} hw hfollows hok := by
    have hupdate := @hsys.updateSerial ctx dt (f s) (g host) result hw hfollows
    rw [← h.updateSerial] at hupdate
    exact hupdate hok
  apply {result ctx s host} hw hfollows hok := by
    have happly := @hsys.apply result ctx (f s) (g host) hw hfollows
    rw [← h.apply] at happly
    exact happly hok

namespace Engine

variable {edits : World → World → Prop} {sys : System σ ρ ε} {fits : Phase → σ → Prop} {sound : World → Prop}
  {follows : World → σ → Prop}

/-- The world is sound, and all systems follow it. -/
structure Followed (sound : World → Prop) (follows : World → σ → Prop) (e : Engine σ ρ ε) : Prop where
  sound : sound e.world
  follows : ∀ {phase i slot}, e.slotAt? phase i = some slot → follows e.world slot.system

namespace Followed

variable {e e' : Engine σ ρ ε}

theorem start (hsound : sound .empty) (settings : Settings.Scheduling) (screen : Screen) (host : ε) :
    (Engine.start settings screen host : Engine σ ρ ε).Followed sound follows :=
  ⟨hsound, fun hslot => by simp [slotAt?, Engine.start] at hslot⟩

theorem congr (h : e.Followed sound follows) (hworld : e'.world = e.world)
    (hslots : e'.scheduler.slots = e.scheduler.slots) : e'.Followed sound follows := by
  refine ⟨hworld ▸ h.sound, fun {phase i slot} hslot => ?_⟩
  rw [slotAt?_congr hslots] at hslot
  rw [hworld]
  exact h.follows hslot

theorem edited (hlasts : Lasting edits sound follows) (h : e.Followed sound follows) {world : World}
    (hworld : edits e.world world) : { e with world }.Followed sound follows where
  sound := hlasts.sound_edit h.sound hworld
  follows hslot := hlasts.edit h.sound (h.follows hslot) hworld

/-- After a callback in which its system has not lost sight of the world. -/
theorem after (hlasts : Lasting edits sound follows) (h : e.Followed sound follows) {phase : Phase} {i : Nat}
    {slot : Slot σ ρ} {world : World} {host : ε} {drawn : Array Primitive} {f : Slot σ ρ → Slot σ ρ}
    (hslot : e.slotAt? phase i = some slot) (hworld : edits e.world world) (hf : follows e.world (f slot).system) :
    (e.after phase i world host drawn f).Followed sound follows := by
  refine ⟨?_, fun {phase' j slot'} hslot' => ?_⟩
  · rw [world_after]
    exact hlasts.sound_edit h.sound hworld
  · rw [world_after]
    obtain ⟨_, _, rfl⟩ | ⟨_, hold⟩ := slotAt?_after_cases world host drawn f hslot hslot'
    · exact hlasts.edit h.sound hf hworld
    · exact hlasts.edit h.sound (h.follows hold) hworld

theorem delivered (hsys : Following edits sys fits sound follows) (h : e.Followed sound follows)
    (hworld : e'.world = e.world.drain.2) (hhears : Hears sys e.world.events.toList e e') :
    e'.Followed sound follows := by
  refine ⟨hworld ▸ hsys.sound_drain h.sound, fun {phase i slot'} hslot' => ?_⟩
  obtain ⟨slot, hslot, hheard⟩ := hhears.slot hslot'
  rw [hworld]
  exact hsys.hear h.sound (h.follows hslot) hheard

theorem register (h : e.Followed sound follows) {phase : Phase} {slot : Slot σ ρ}
    (hslot : follows e.world slot.system) (hworld : e'.world = e.world)
    (hslots : e'.scheduler.slots = e.scheduler.slots.modify phase (· ++ [slot])) : e'.Followed sound follows := by
  refine ⟨hworld ▸ h.sound, fun {phase' i slot'} hslot' => ?_⟩
  rw [hworld]
  obtain hold | ⟨_, rfl⟩ := slotAt?_of_append hslots hslot'
  · exact h.follows hold
  · exact hslot

theorem flushed (hlasts : Lasting edits sound follows) (h : e.Followed sound follows)
    (hevents : e.world.events = #[]) (hworld : e'.world = e.world.flush.2)
    (hslots : e'.scheduler.slots = e.scheduler.slots) : e'.Followed sound follows := by
  refine ⟨hworld ▸ hlasts.sound_flush h.sound hevents, fun {phase i slot} hslot => ?_⟩
  rw [slotAt?_congr hslots] at hslot
  rw [hworld]
  exact hlasts.flush h.sound hevents (h.follows hslot)

end Followed

/-- Of an engine that is poisoned, or about to be, nothing is said. -/
def SoFar (J : Engine σ ρ ε → Prop) : Stage → Engine σ ρ ε → Prop
  | .between, e => e.scheduler.poisoned = false → J e
  | .broken, _ => True
  | _, e => J e

end Engine

theorem Scheduler.poisoned_of_check {s : Scheduler σ ρ} {step : Step} (h : s.check step = .ok ()) :
    s.poisoned = false := by
  rw [Scheduler.check] at h
  split at h
  · cases h
  · split at h
    · cases h
    · exact Bool.eq_false_iff.mpr ‹_›

namespace Engine

variable {edits : World → World → Prop} {sys : System σ ρ ε} {fits : Phase → σ → Prop} {sound : World → Prop}
  {follows : World → σ → Prop}

theorem following_rule (hsys : Following edits sys fits sound follows) :
    RuleFor edits sys fits (SoFar (Followed sound follows) : Stage → Engine σ ρ ε → Prop) where
  deliver {stage e} h := by
    refine (leaves_deliver sys e).mono ?_ fun _ _ _ => trivial
    rintro _ e' ⟨hframe, hhears⟩
    have hworld := hframe.world
    cases stage with
    | between =>
      intro hpoisoned
      obtain ⟨_, _, rfl⟩ := hframe
      exact (h hpoisoned).delivered hsys hworld hhears
    | updating phase done failed => exact Followed.delivered hsys h hworld hhears
    | applying phase done => exact Followed.delivered hsys h hworld hhears
    | broken => trivial
  begin {phase e} h hcheck := by
    -- a poisoned scheduler begins no phase
    have hfollowed : e.Followed sound follows := h (Scheduler.poisoned_of_check hcheck)
    refine hfollowed.congr ?_ ?_ <;> unfold beginPhase <;> split <;> rfl
  serial h _ hslot hreply hok := by
    subst hreply
    obtain ⟨hfollows, hworld⟩ := hsys.updateSerial h.sound (h.follows hslot) hok
    exact Followed.after hsys.toLasting h hslot hworld hfollows
  serial_error _ _ _ _ _ := trivial
  worker {phase dt i failed e slot reply result} h _ hslot hreply _ := by
    subst hreply
    have hfollows := hsys.update (e.context phase true) dt slot.system e.host h.sound (h.follows hslot)
    exact Followed.after hsys.toLasting h hslot (hsys.refl _) hfollows
  worker_error {phase dt i failed e slot reply fault} h _ hslot hreply _ := by
    subst hreply
    have hfollows := hsys.update (e.context phase true) dt slot.system e.host h.sound (h.follows hslot)
    exact Followed.after hsys.toLasting h hslot (hsys.refl _) hfollows
  join _ := trivial
  turn h _ := h
  skip h _ _ := h
  apply h _ hslot _ hreply hok := by
    subst hreply
    obtain ⟨hfollows, hworld⟩ := hsys.apply h.sound (h.follows hslot) hok
    exact Followed.after hsys.toLasting h hslot hworld hfollows
  apply_error _ _ _ _ _ _ := trivial
  finish h _ := fun _ => Followed.congr h rfl rfl
  -- what has been broken off is poisoned
  settle _ hpoisoned := by
    intro hnot
    rw [hpoisoned] at hnot
    cases hnot
  abort _ := by
    intro hnot
    cases hnot
  edit h hworld := fun hpoisoned => (h hpoisoned).edited hsys.toLasting hworld
  host h _ := fun hpoisoned => (h hpoisoned).congr rfl rfl
  register h hevents hs _ hinit hoffers := fun hpoisoned =>
    (h hpoisoned).register (hsys.register (h hpoisoned).sound hevents hs hinit hoffers) rfl rfl
  endFrame h hevents := fun hpoisoned => (h hpoisoned).flushed hsys.toLasting hevents rfl rfl
  shutdown {e} h := by
    intro hpoisoned
    rw [Engine.shutdown] at hpoisoned ⊢
    split
    · rename_i hclosed
      rw [if_pos hclosed] at hpoisoned
      exact h hpoisoned
    · rename_i hclosed
      rw [if_neg hclosed] at hpoisoned
      refine ⟨(h hpoisoned).sound, fun {phase i slot} hslot => ?_⟩
      simp [slotAt?] at hslot

end Engine

end Cadence
