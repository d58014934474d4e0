import Cadence.Proofs.Engine.Projection
import Cadence.Proofs.Engine.Stable

/-!
Systems of one sort that share a name. No callback turns a system into one of another sort, and a name is given only
once, so that no phase has two of them.
-/

namespace Cadence

variable {σ ρ ε β : Type}

/-- The callbacks leave systems of the sort that `g` says they are. -/
abbrev System.KeepsSorts (sys : System σ ρ ε) (g : σ → β) : Prop := ∀ b, Stable sys (g · = b)

namespace System

variable {sys : System σ ρ ε} {g : σ → β}

theorem map_notifyAll (hg : sys.KeepsSorts g) (event : Event) (c : Component) (slots : List (Slot σ ρ)) (host : ε) :
    (sys.notifyAll event c slots host).2.1.map (g ·.system) = slots.map (g ·.system) := by
  induction slots generalizing host with
  | nil => rfl
  | cons slot rest ih =>
    rw [notifyAll]
    split
    · have htold := (hg (g slot.system)).attentive.notified event c rfl host
      dsimp only
      split
      · rw [List.map_cons, List.map_cons, htold]
      · rw [List.map_cons, List.map_cons, htold, ih]
    · rw [List.map_cons, List.map_cons, ih]

theorem map_notifyPhases (hg : sys.KeepsSorts g) (event : Event) (c : Component) (slots : ByPhase (List (Slot σ ρ)))
    (host : ε) (phase : Phase) :
    ((sys.notifyPhases event c slots host).2.1.get phase).map (g ·.system) = (slots.get phase).map (g ·.system) := by
  have hearly := map_notifyAll hg event c slots.early host
  rw [notifyPhases]
  rcases hresult : sys.notifyAll event c slots.early host with ⟨err | _, early, host₁⟩ <;> rw [hresult] at hearly
  · cases phase with
    | early => exact hearly
    | script => rfl
    | late => rfl
  have hscript := map_notifyAll hg event c slots.script host₁
  dsimp only
  rcases hresult : sys.notifyAll event c slots.script host₁ with ⟨err | _, script, host₂⟩ <;> rw [hresult] at hscript
  · cases phase with
    | early => exact hearly
    | script => exact hscript
    | late => rfl
  have hlate := map_notifyAll hg event c slots.late host₂
  cases phase with
  | early => exact hearly
  | script => exact hscript
  | late => exact hlate

end System

namespace Engine

/-- The sorts of the systems of a phase, in their order. -/
def sorts (g : σ → β) (e : Engine σ ρ ε) (phase : Phase) : List β := (e.scheduler.slots.get phase).map (g ·.system)

theorem getElem?_sorts (g : σ → β) (e : Engine σ ρ ε) (phase : Phase) (i : Nat) :
    (e.sorts g phase)[i]? = (e.slotAt? phase i).map (g ·.system) := List.getElem?_map ..

/-- Nobody has come or gone, as far as the sorts of the systems and the names tell. -/
structure SameSorts (g : σ → β) (e e' : Engine σ ρ ε) : Prop where
  sorts : ∀ phase, e'.sorts g phase = e.sorts g phase
  names : e'.scheduler.names = e.scheduler.names

namespace SameSorts

variable {sys : System σ ρ ε} {g : σ → β} {e e' e'' : Engine σ ρ ε}

theorem trans (h : e.SameSorts g e') (h' : e'.SameSorts g e'') : e.SameSorts g e'' where
  sorts phase := (h'.sorts phase).trans (h.sorts phase)
  names := h'.names.trans h.names

theorem of_slots (hslots : e'.scheduler.slots = e.scheduler.slots)
    (hnames : e'.scheduler.names = e.scheduler.names) : e.SameSorts g e' where
  sorts phase := by rw [Engine.sorts, Engine.sorts, hslots]
  names := hnames

theorem route (hg : sys.KeepsSorts g) (e : Engine σ ρ ε) (event : Event) :
    e.SameSorts g (Engine.route sys e event).2 := by
  rw [Engine.route]
  split
  · exact of_slots rfl rfl
  · exact ⟨System.map_notifyPhases hg event _ e.scheduler.slots e.host, rfl⟩

theorem deliver (hg : sys.KeepsSorts g) (e : Engine σ ρ ε) : e.SameSorts g (Engine.deliver sys e).2 := by
  have hstart : e.SameSorts g { e with world := e.world.drain.2 } := of_slots rfl rfl
  have hall : Leaves (fun _ e' => e.SameSorts g e') (fun _ e' => e.SameSorts g e')
      (inOrder (Engine.route sys) { e with world := e.world.drain.2 } e.world.events.toList) :=
    leaves_inOrder (I := e.SameSorts g) (fun e' event _ h => .of_snd (I := e.SameSorts g) (h.trans (route hg e' event)))
      hstart
  have hleft := hall.snd
  rw [deliver_eq]
  rcases hresult : inOrder (Engine.route sys) { e with world := e.world.drain.2 } e.world.events.toList with
    ⟨err | _, e'⟩ <;> rw [hresult] at hleft
  · exact hleft.trans (of_slots rfl rfl)
  · exact hleft

theorem after {phase : Phase} {i : Nat} {slot : Slot σ ρ} (hslot : e.slotAt? phase i = some slot) (world : World)
    (host : ε) (drawn : Array Primitive) {f : Slot σ ρ → Slot σ ρ} (hf : g (f slot).system = g slot.system) :
    e.SameSorts g (e.after phase i world host drawn f) where
  sorts phase' := by
    rw [Engine.sorts, scheduler_after, ByPhase.get_modify]
    split
    · rename_i hphase
      subst hphase
      have hsame : g (f slot).system = id (g slot.system) := hf
      rw [map_modify_at hslot hsame, List.modify_id]
      rfl
    · rfl
  names := by rw [scheduler_after]

theorem abort (e : Engine σ ρ ε) (phase : Phase) : e.SameSorts g (e.abort phase) where
  sorts phase' := by
    rw [Engine.sorts, Engine.abort, ByPhase.get_modify]
    split
    · rename_i hphase
      subst hphase
      rw [List.map_map]
      rfl
    · rfl
  names := rfl

theorem slot (h : e.SameSorts g e') {phase : Phase} {i : Nat} {slot slot' : Slot σ ρ}
    (hslot : e.slotAt? phase i = some slot) (hslot' : e'.slotAt? phase i = some slot') :
    g slot'.system = g slot.system := by
  have hsame := congrArg (·[i]?) (h.sorts phase)
  simpa [getElem?_sorts, hslot, hslot'] using hsame

end SameSorts

/-! ### A name for all of a sort -/

/-- No phase has two systems of a sort, and there is none of them anywhere unless the name is taken. -/
structure Sole (p : σ → Bool) (name : String) (e : Engine σ ρ ε) : Prop where
  single : ∀ phase, (e.sorts p phase).count true ≤ 1
  named : ∀ phase, true ∈ e.sorts p phase → name ∈ e.scheduler.names

namespace Sole

variable {p : σ → Bool} {name : String} {e e' : Engine σ ρ ε}

theorem of_no_slots (hslots : e.scheduler.slots = .const []) : e.Sole p name where
  single phase := by simp [sorts, hslots]
  named phase hmem := by simp [sorts, hslots] at hmem

theorem same (h : e.Sole p name) (hsame : e.SameSorts p e') : e'.Sole p name where
  single phase := by
    rw [hsame.sorts]
    exact h.single phase
  named phase hmem := by
    rw [hsame.sorts] at hmem
    rw [hsame.names]
    exact h.named phase hmem

/-- Two of a sort in one phase are the same system. -/
theorem position_eq (h : e.Sole p name) {phase : Phase} {i j : Nat} {slot slot' : Slot σ ρ}
    (hslot : e.slotAt? phase i = some slot) (hslot' : e.slotAt? phase j = some slot') (hp : p slot.system = true)
    (hp' : p slot'.system = true) : i = j := by
  have htrue {i : Nat} {slot : Slot σ ρ} (hslot : e.slotAt? phase i = some slot) (hp : p slot.system = true) :
      (e.sorts p phase)[i]? = some true := by rw [getElem?_sorts, hslot, Option.map_some, hp]
  -- the sooner of two would be counted before the place of the later, and that one from there on
  have hlt {i j : Nat} (hi : (e.sorts p phase)[i]? = some true) (hj : (e.sorts p phase)[j]? = some true) : ¬ i < j := by
    intro hij
    have hsingle := h.single phase
    have hbefore : true ∈ (e.sorts p phase).take j :=
      List.mem_of_getElem? ((List.getElem?_take_of_lt hij).trans hi)
    have hbehind : true ∈ (e.sorts p phase).drop j :=
      List.mem_of_getElem? (i := 0) (List.getElem?_drop.trans hj)
    rw [← List.take_append_drop j (e.sorts p phase), List.count_append] at hsingle
    have := List.count_pos_iff.mpr hbefore
    have := List.count_pos_iff.mpr hbehind
    omega
  have := hlt (htrue hslot hp) (htrue hslot' hp')
  have := hlt (htrue hslot' hp') (htrue hslot hp)
  omega

/-- A system of the sort is registered only as long as there is no other, for they would share their name. -/
theorem register (h : e.Sole p name) {phase : Phase} {slot : Slot σ ρ} (hname : p slot.system = true → slot.name = name)
    (hfresh : slot.name ∉ e.scheduler.names)
    (hslots : e'.scheduler.slots = e.scheduler.slots.modify phase (· ++ [slot]))
    (hnames : e'.scheduler.names = e.scheduler.names ++ [slot.name]) : e'.Sole p name := by
  have hsorts (phase' : Phase) : e'.sorts p phase' =
      if phase' = phase then e.sorts p phase' ++ [p slot.system] else e.sorts p phase' := by
    rw [sorts, hslots, ByPhase.get_modify]
    split
    · rename_i hphase
      subst hphase
      exact List.map_append
    · rfl
  cases hp : p slot.system with
  | true =>
    have hnone (phase' : Phase) : true ∉ e.sorts p phase' := fun hmem => hfresh (hname hp ▸ h.named phase' hmem)
    refine ⟨fun phase' => ?_, fun phase' _ => ?_⟩
    · rw [hsorts, hp]
      split
      · rw [List.count_append, List.count_eq_zero.mpr (hnone phase')]
        decide
      · exact h.single phase'
    · rw [hnames, ← hname hp]
      simp
  | false =>
    refine ⟨fun phase' => ?_, fun phase' hmem => ?_⟩
    · rw [hsorts, hp]
      split
      · rw [List.count_append]
        exact h.single phase'
      · exact h.single phase'
    · rw [hsorts, hp] at hmem
      rw [hnames]
      refine List.mem_append_left _ (h.named phase' ?_)
      split at hmem
      · simpa using hmem
      · exact hmem

end Sole

end Engine

end Cadence
