import Cadence.Proofs.Engine.Erasure

/-!
What a list of calls says of the engine they were made on. Between two rests of a phase everything that a recorded
engine has become is accounted for by the calls it has made: its log, its world, its screen, and who is registered.
-/

namespace Cadence

variable {σ ρ ε α β : Type}

/-! ### What calls tell -/

/-- A visit without the value it came to. -/
def Visit.plain (visit : Visit α) : Visit Unit := { visit with outcome := visit.outcome.map fun _ => () }

namespace Call

/-- What the called system saw of the frame, if the call let it. -/
def visit? : Call ρ → Option (Visit Unit)
  | update visit => some visit.plain
  | apply _ visit => some visit
  | _ => none

def faultOf (id : Nat) : Except Fault α → Option (Nat × Fault)
  | .error fault => some (id, fault)
  | .ok _ => none

/-- The system that failed in the call, and why; one that is not registered yet cannot fail. -/
def failure? : Call ρ → Option (Nat × Fault)
  | told id _ outcome => faultOf id outcome
  | update visit => faultOf visit.id visit.outcome
  | apply _ visit => faultOf visit.id visit.outcome
  | _ => none

/-- The call tells a system of an event. -/
def IsTold : Call ρ → Prop
  | told .. => True
  | _ => False

/-- The call is no part of a phase. -/
def IsAside : Call ρ → Prop
  | init .. | told .. | shutdown _ => True
  | _ => False

theorem IsTold.isAside {call : Call ρ} (h : call.IsTold) : call.IsAside := by
  cases call with
  | told => trivial
  | _ => cases h

theorem visit?_of_isAside {call : Call ρ} (h : call.IsAside) : call.visit? = none := by
  cases call <;> first | rfl | cases h

def visits (calls : List (Call ρ)) : List (Visit Unit) := calls.filterMap visit?

def firstFailure? (calls : List (Call ρ)) : Option (Nat × Fault) := calls.findSome? failure?

/-- What was drawn in the late phase of a frame. -/
def drawnLate (frame : Nat) (calls : List (Call ρ)) : List Primitive :=
  (visits calls).flatMap fun visit =>
    if visit.context.phase = .late ∧ visit.context.frame = frame then visit.drawn.toList else []

/-- The world that the last visit has left. -/
def worldAfter (w : World) (calls : List (Call ρ)) : World := (visits calls).foldl (fun _ visit => visit.world) w

/-- Every visit finds the world that the one before it has left, and nothing but the queue has changed in between. -/
def PassedOn (w : World) : List (Visit Unit) → Prop
  | [] => True
  | visit :: rest => visit.context.world.drain.2 = w.drain.2 ∧ PassedOn visit.world rest

section append

variable (calls calls' : List (Call ρ))

@[simp] theorem visits_append : visits (calls ++ calls') = visits calls ++ visits calls' := List.filterMap_append ..

@[simp] theorem firstFailure?_append :
    firstFailure? (calls ++ calls') = (firstFailure? calls).or (firstFailure? calls') := List.findSome?_append ..

@[simp] theorem drawnLate_append (frame : Nat) :
    drawnLate frame (calls ++ calls') = drawnLate frame calls ++ drawnLate frame calls' := by
  unfold drawnLate
  rw [visits_append, List.flatMap_append]

theorem worldAfter_append (w : World) : worldAfter w (calls ++ calls') = worldAfter (worldAfter w calls) calls' := by
  unfold worldAfter
  rw [visits_append, List.foldl_append]

end append

theorem visits_of_aside {calls : List (Call ρ)} (h : ∀ call ∈ calls, call.IsAside) : visits calls = [] :=
  List.filterMap_eq_nil_iff.mpr fun call hmem => visit?_of_isAside (h call hmem)

theorem drawnLate_of_visits {calls : List (Call ρ)} (h : visits calls = []) (frame : Nat) :
    drawnLate frame calls = [] := by
  rw [drawnLate]
  rw [h]
  rfl

/-- Nothing was drawn by visits of another phase or another frame. -/
theorem drawnLate_eq_nil {calls : List (Call ρ)} {frame : Nat}
    (h : ∀ visit ∈ visits calls, ¬ (visit.context.phase = .late ∧ visit.context.frame = frame)) :
    drawnLate frame calls = [] :=
  List.flatMap_eq_nil_iff.mpr fun visit hmem => if_neg (h visit hmem)

theorem PassedOn.congr {w w' : World} (h : w.drain.2 = w'.drain.2) {visits : List (Visit Unit)}
    (hpassed : PassedOn w visits) : PassedOn w' visits := by
  cases visits with
  | nil => trivial
  | cons visit rest => exact ⟨hpassed.1.trans h, hpassed.2⟩

theorem PassedOn.append {w : World} {calls calls' : List (Call ρ)} (h : PassedOn w (visits calls))
    (h' : PassedOn (worldAfter w calls) (visits calls')) : PassedOn w (visits (calls ++ calls')) := by
  unfold worldAfter at h'
  rw [visits_append]
  generalize visits calls = before at h h' ⊢
  induction before generalizing w with
  | nil => exact h'
  | cons visit rest ih => exact ⟨h.1, ih h.2 h'⟩

/-- The queue of the world before the calls has no part in what is left. -/
theorem drain_worldAfter {w w' : World} (h : w.drain.2 = w'.drain.2) (calls : List (Call ρ)) :
    (worldAfter w calls).drain.2 = (worldAfter w' calls).drain.2 := by
  unfold worldAfter
  cases visits calls with
  | nil => exact h
  | cons visit rest => rfl

end Call

/-! ### Who is registered -/

namespace Slot

/-- What an engine knows of a recorded system, the state of the system apart. -/
def card (slot : Slot (Marked σ) ρ) : Slot Nat ρ := slot.onSystem Marked.id

def cleared (slot : Slot σ ρ) : Slot σ ρ := { slot with pending := none }

end Slot

namespace Engine

/-- The registered systems of a phase, with the results that wait to be applied. -/
def cards (e : Recorded σ ρ ε) (phase : Phase) : List (Slot Nat ρ) := (e.scheduler.slots.get phase).map Slot.card

/-- The registered systems of a phase. -/
def roster (e : Recorded σ ρ ε) (phase : Phase) : List (Slot Nat ρ) := (e.cards phase).map Slot.cleared

/-- All registered systems. -/
def members (e : Recorded σ ρ ε) : List (Slot Nat ρ) := Phase.all.flatMap e.roster

theorem mem_members {e : Recorded σ ρ ε} {card : Slot Nat ρ} : card ∈ e.members ↔ ∃ phase, card ∈ e.roster phase := by
  rw [members, List.mem_flatMap]
  exact ⟨fun ⟨phase, _, h⟩ => ⟨phase, h⟩, fun ⟨phase, h⟩ => ⟨phase, phase.mem_all, h⟩⟩

theorem members_congr {e e' : Recorded σ ρ ε} (h : ∀ phase, e'.roster phase = e.roster phase) :
    e'.members = e.members := by
  unfold members
  rw [funext h]

theorem roster_congr {e e' : Recorded σ ρ ε} {phase : Phase} (h : e'.cards phase = e.cards phase) :
    e'.roster phase = e.roster phase := congrArg (List.map Slot.cleared) h

theorem getElem?_cards (e : Recorded σ ρ ε) (phase : Phase) (i : Nat) :
    (e.cards phase)[i]? = (e.slotAt? phase i).map Slot.card := List.getElem?_map ..

theorem length_cards (e : Recorded σ ρ ε) (phase : Phase) :
    (e.cards phase).length = (e.scheduler.slots.get phase).length := List.length_map ..

theorem length_roster (e : Recorded σ ρ ε) (phase : Phase) : (e.roster phase).length = (e.cards phase).length :=
  List.length_map ..

end Engine

namespace Call

/-- The error names the system that was the first to fail in the calls, and why it failed. -/
def Blames (members : List (Slot Nat ρ)) (calls : List (Call ρ)) (err : EngineError) : Prop :=
  ∃ card ∈ members, ∃ fault, firstFailure? calls = some (card.system, fault) ∧
    err = .systemFailed card.phase card.name fault

/-- Nobody has failed in the calls of an operation that is done; one that has failed blames a system. -/
def Verdict (members : List (Slot Nat ρ)) (calls : List (Call ρ)) : Except EngineError α → Prop
  | .ok _ => firstFailure? calls = none
  | .error err => Blames members calls err

theorem Blames.mono {members members' : List (Slot Nat ρ)} {calls : List (Call ρ)} {err : EngineError}
    (h : Blames members calls err) (hsub : members ⊆ members') : Blames members' calls err := by
  obtain ⟨card, hmem, hrest⟩ := h
  exact ⟨card, hsub hmem, hrest⟩

theorem Blames.failed {members : List (Slot Nat ρ)} {calls : List (Call ρ)} {err : EngineError}
    (h : Blames members calls err) : firstFailure? calls ≠ none := by
  obtain ⟨card, _, fault, hfirst, _⟩ := h
  rw [hfirst]
  exact Option.some_ne_none _

/-- Calls in which nobody fails come before the first failure. -/
theorem Blames.after {members : List (Slot Nat ρ)} {calls calls' : List (Call ρ)} {err : EngineError}
    (h : Blames members calls' err) (hclean : firstFailure? calls = none) : Blames members (calls ++ calls') err := by
  obtain ⟨card, hmem, fault, hfirst, herr⟩ := h
  refine ⟨card, hmem, fault, ?_, herr⟩
  rw [firstFailure?_append, hclean, hfirst]
  rfl

/-- What comes after the first failure changes nothing. -/
theorem Blames.before {members : List (Slot Nat ρ)} {calls : List (Call ρ)} {err : EngineError}
    (h : Blames members calls err) (calls' : List (Call ρ)) : Blames members (calls ++ calls') err := by
  obtain ⟨card, hmem, fault, hfirst, herr⟩ := h
  refine ⟨card, hmem, fault, ?_, herr⟩
  rw [firstFailure?_append, hfirst]
  rfl

theorem Verdict.mono {members members' : List (Slot Nat ρ)} {calls : List (Call ρ)} {r : Except EngineError α}
    (h : Verdict members calls r) (hsub : members ⊆ members') : Verdict members' calls r := by
  cases r with
  | ok _ => exact h
  | error err => exact Blames.mono h hsub

theorem Verdict.after {members : List (Slot Nat ρ)} {calls calls' : List (Call ρ)} {r : Except EngineError α}
    (h : Verdict members calls' r) (hclean : firstFailure? calls = none) : Verdict members (calls ++ calls') r := by
  cases r with
  | ok _ =>
    have hlast : firstFailure? calls' = none := h
    show firstFailure? (calls ++ calls') = none
    simp [hclean, hlast]
  | error err => exact Blames.after h hclean

theorem Verdict.map {members : List (Slot Nat ρ)} {calls : List (Call ρ)} {r : Except EngineError α}
    (h : Verdict members calls r) (f : α → β) : Verdict members calls (r.map f) := by
  cases r with
  | ok _ => exact h
  | error err => exact h

end Call

/-! ### Accounts -/

/-- The screen on which more has been drawn. -/
def Screen.drawing (s : Screen) (ps : List Primitive) : Screen := (s.submitAll ps.toArray).2

namespace Screen

theorem drawing_nil (s : Screen) : s.drawing [] = s := by
  have hlist : ∀ l : DrawList, l.extend #[] = l := fun l => by simp [DrawList.extend]
  unfold drawing submitAll modifyList
  cases h : s.drawn <;> simp [hlist, ← h]

theorem drawing_drawing (s : Screen) (ps qs : List Primitive) : (s.drawing ps).drawing qs = s.drawing (ps ++ qs) := by
  unfold drawing submitAll modifyList
  cases s.drawn <;> simp [DrawList.extend]

@[simp] theorem active_drawing (s : Screen) (ps : List Primitive) :
    (s.drawing ps).active = s.active.extend ps.toArray := by
  unfold drawing submitAll active
  rw [drawn_modifyList]
  exact list_modifyList_self ..

@[simp] theorem presentable_drawing (s : Screen) (ps : List Primitive) :
    (s.drawing ps).presentable = s.presentable := by
  unfold drawing submitAll presentable
  rw [drawn_modifyList]
  exact list_modifyList_other ..

@[simp] theorem frame_drawing (s : Screen) (ps : List Primitive) : (s.drawing ps).frame = s.frame := by
  unfold drawing submitAll modifyList
  cases s.drawn <;> rfl

@[simp] theorem layered_drawing (s : Screen) (ps : List Primitive) : (s.drawing ps).layered = s.layered := by
  unfold drawing submitAll modifyList
  cases s.drawn <;> rfl

end Screen

namespace Engine

open Call

/-- The calls, all of the phase, account for what has become of the engine: nothing is in its log, in its world but for
the queue, or on its screen that they have not brought there; everybody is still registered; and if nobody has failed,
nothing has been broken off, but what was broken off before stays so. -/
structure Accounts (phase : Phase) (e : Recorded σ ρ ε) (calls : List (Call ρ)) (e' : Recorded σ ρ ε) : Prop where
  log : e'.log = e.log ++ calls
  visits : ∀ visit ∈ visits calls, visit.context.phase = phase ∧ visit.context.frame = e.scheduler.frame
  world : e'.world.drain.2 = (worldAfter e.world calls).drain.2
  passed : PassedOn e.world (Call.visits calls)
  screen : e'.screen = e.screen.drawing (drawnLate e.scheduler.frame calls)
  scheduler : ∃ slots poisoned, e'.scheduler = { e.scheduler with slots, poisoned }
  roster : ∀ phase', e'.roster phase' = e.roster phase'
  clean : firstFailure? calls = none → e'.scheduler.poisoned = e.scheduler.poisoned
  sticky : e.scheduler.poisoned = true → e'.scheduler.poisoned = true

namespace Accounts

variable {phase : Phase} {e e' e'' : Recorded σ ρ ε} {calls calls' : List (Call ρ)}

theorem refl (phase : Phase) (e : Recorded σ ρ ε) : Accounts phase e [] e where
  log := (List.append_nil _).symm
  visits _ hmem := nomatch hmem
  world := rfl
  passed := trivial
  screen := (Screen.drawing_nil _).symm
  scheduler := ⟨e.scheduler.slots, e.scheduler.poisoned, rfl⟩
  roster _ := rfl
  clean _ := rfl
  sticky := id

theorem frame (h : Accounts phase e calls e') : e'.scheduler.frame = e.scheduler.frame := by
  obtain ⟨_, _, heq⟩ := h.scheduler
  rw [heq]

theorem settings (h : Accounts phase e calls e') : e'.scheduler.settings = e.scheduler.settings := by
  obtain ⟨_, _, heq⟩ := h.scheduler
  rw [heq]

theorem next (h : Accounts phase e calls e') : e'.scheduler.next = e.scheduler.next := by
  obtain ⟨_, _, heq⟩ := h.scheduler
  rw [heq]

theorem closed (h : Accounts phase e calls e') : e'.scheduler.closed = e.scheduler.closed := by
  obtain ⟨_, _, heq⟩ := h.scheduler
  rw [heq]

theorem nextId (h : Accounts phase e calls e') : e'.scheduler.nextId = e.scheduler.nextId := by
  obtain ⟨_, _, heq⟩ := h.scheduler
  rw [heq]

theorem members (h : Accounts phase e calls e') : e'.members = e.members := members_congr h.roster

theorem trans (h : Accounts phase e calls e') (h' : Accounts phase e' calls' e'') :
    Accounts phase e (calls ++ calls') e'' where
  log := by rw [h'.log, h.log, List.append_assoc]
  visits visit hmem := by
    rw [visits_append] at hmem
    obtain hmem | hmem := List.mem_append.mp hmem
    · exact h.visits visit hmem
    · rw [← h.frame]
      exact h'.visits visit hmem
  world := by
    rw [h'.world, worldAfter_append]
    exact drain_worldAfter h.world calls'
  passed := h.passed.append (h'.passed.congr h.world)
  screen := by rw [h'.screen, h.screen, h.frame, Screen.drawing_drawing, drawnLate_append]
  scheduler := by
    obtain ⟨_, _, heq⟩ := h.scheduler
    obtain ⟨slots, poisoned, heq'⟩ := h'.scheduler
    exact ⟨slots, poisoned, by rw [heq', heq]⟩
  roster phase' := (h'.roster phase').trans (h.roster phase')
  clean hclean := by
    rw [firstFailure?_append, Option.or_eq_none_iff] at hclean
    exact (h'.clean hclean.2).trans (h.clean hclean.1)
  sticky hpoisoned := h'.sticky (h.sticky hpoisoned)

/-- Calls do not say what was in the queue when they began. -/
theorem drained (h : Accounts phase { e with world := e.world.drain.2 } calls e') : Accounts phase e calls e' :=
  have hqueue : e.world.drain.2.drain.2 = e.world.drain.2 := rfl
  { h with world := h.world.trans (drain_worldAfter hqueue calls), passed := h.passed.congr hqueue }

/-- Somebody who has failed accounts for a poisoned scheduler. -/
theorem poisoned (h : Accounts phase e calls e') (hfailed : firstFailure? calls ≠ none) :
    Accounts phase e calls { e' with scheduler := { e'.scheduler with poisoned := true } } where
  log := h.log
  visits := h.visits
  world := h.world
  passed := h.passed
  screen := h.screen
  scheduler := by
    obtain ⟨slots, _, heq⟩ := h.scheduler
    exact ⟨slots, true, by rw [heq]⟩
  roster := h.roster
  clean hclean := absurd hclean hfailed
  sticky _ := rfl

/-- A phase that is broken off is accounted for by its calls: somebody has failed in them. -/
theorem abort (h : Accounts phase e calls e') (hfailed : firstFailure? calls ≠ none) (phase' : Phase) :
    Accounts phase e calls (e'.abort phase') where
  log := h.log
  visits := h.visits
  world := h.world
  passed := h.passed
  screen := h.screen
  scheduler := by
    obtain ⟨_, _, heq⟩ := h.scheduler
    refine ⟨(e'.abort phase').scheduler.slots, true, ?_⟩
    rw [Engine.abort, heq]
  roster phase'' := by
    rw [← h.roster, Engine.roster, Engine.roster, cards, cards, Engine.abort]
    rw [ByPhase.get_modify]
    split
    · rename_i hphase
      subst hphase
      rw [List.map_map, List.map_map, List.map_map]
      rfl
    · rfl
  clean hclean := absurd hclean hfailed
  sticky _ := rfl

end Accounts

/-! ### One callback -/

section after

variable {e : Recorded σ ρ ε} {phase : Phase} {i : Nat} {slot : Slot (Marked σ) ρ}
  (hslot : e.slotAt? phase i = some slot) (world : World) (host : ε × List (Call ρ)) (drawn : Array Primitive)
  {f : Slot (Marked σ) ρ → Slot (Marked σ) ρ}
include hslot

theorem cards_after {g : Slot Nat ρ → Slot Nat ρ} (hf : (f slot).card = g slot.card) (phase' : Phase) :
    (e.after phase i world host drawn f).cards phase' =
      if phase' = phase then (e.cards phase).modify i g else e.cards phase' := by
  rw [cards, scheduler_after, ByPhase.get_modify]
  split
  · exact map_modify_at hslot hf
  · rfl

/-- A callback changes nobody's registration. -/
theorem roster_after (hf : (f slot).card.cleared = slot.card.cleared) (phase' : Phase) :
    (e.after phase i world host drawn f).roster phase' = e.roster phase' := by
  rw [roster, cards, scheduler_after, ByPhase.get_modify, List.map_map]
  split
  · rename_i hphase
    subst hphase
    have hsame : (Slot.cleared ∘ Slot.card) (f slot) = id ((Slot.cleared ∘ Slot.card) slot) := hf
    rw [map_modify_at hslot hsame, List.modify_id]
    exact (List.map_map ..).symm
  · exact (List.map_map ..).symm

omit hslot in
theorem screen_after (e : Recorded σ ρ ε) (phase : Phase) (i : Nat) (f : Slot (Marked σ) ρ → Slot (Marked σ) ρ) :
    (e.after phase i world host drawn f).screen = e.screen.drawing (if phase = .late then drawn.toList else []) := by
  unfold after modifySlot draw
  split
  · rfl
  · exact (Screen.drawing_nil _).symm

end after

/-- The calls of one visit account for what the engine takes over from it. -/
theorem Accounts.after {e : Recorded σ ρ ε} {phase : Phase} {i : Nat} {slot : Slot (Marked σ) ρ}
    (hslot : e.slotAt? phase i = some slot) (visit : Visit Unit) {calls : List (Call ρ)}
    (hvisits : Call.visits calls = [visit]) {parallel : Bool} (hcontext : visit.context = e.context phase parallel)
    (host : ε) {f : Slot (Marked σ) ρ → Slot (Marked σ) ρ} (hf : (f slot).card.cleared = slot.card.cleared) :
    Accounts phase e calls (e.after phase i visit.world (host, e.log ++ calls) visit.drawn f) where
  log := congrArg Prod.snd (host_after ..)
  visits visit' hmem := by
    rw [hvisits] at hmem
    rw [List.mem_singleton.mp hmem, hcontext]
    exact ⟨rfl, rfl⟩
  world := by
    rw [world_after, worldAfter, hvisits]
    rfl
  passed := by
    rw [hvisits, PassedOn, hcontext]
    exact ⟨rfl, trivial⟩
  screen := by
    rw [screen_after, drawnLate, hvisits, List.flatMap_singleton, hcontext]
    simp [context]
  scheduler := by
    rw [scheduler_after]
    exact ⟨_, _, rfl⟩
  roster := roster_after hslot _ _ _ hf
  clean _ := by rw [scheduler_after]
  sticky hpoisoned := by
    rw [scheduler_after]
    exact hpoisoned

end Engine

/-! ### Routing -/

namespace System

open Call

variable (sys : System σ ρ ε) (event : Event) (c : Component)

theorem notifyAll_told (slots : List (Slot (Marked σ) ρ)) (host : ε × List (Call ρ)) :
    let r := sys.recorded.notifyAll event c slots host
    ∃ calls, r.2.2.2 = host.2 ++ calls ∧ (∀ call ∈ calls, call.IsTold) ∧
      r.2.1.map Slot.card = slots.map Slot.card ∧ Verdict (slots.map fun slot => slot.card.cleared) calls r.1 := by
  induction slots generalizing host with
  | nil => exact ⟨[], (List.append_nil _).symm, by simp, rfl, rfl⟩
  | cons slot rest ih =>
    unfold notifyAll
    split
    · rw [recorded_notify]
      generalize sys.notify event c slot.system.system host.1 = reply
      dsimp only
      cases houtcome : reply.outcome with
      | error fault =>
        refine ⟨[.told slot.system.id event (.error fault)], rfl, by simp [IsTold], rfl, ?_⟩
        exact ⟨slot.card.cleared, by simp, fault, rfl, rfl⟩
      | ok done =>
        obtain ⟨calls, hlog, htold, hcards, hverdict⟩ :=
          ih (reply.host, host.2 ++ [.told slot.system.id event (.ok done)])
        refine ⟨.told slot.system.id event (.ok done) :: calls, ?_, ?_, ?_, ?_⟩
        · dsimp only at hlog ⊢
          rw [hlog]
          simp
        · exact List.forall_mem_cons.mpr ⟨trivial, htold⟩
        · exact congrArg (slot.card :: ·) hcards
        · have hwider := hverdict.mono (List.subset_cons_self slot.card.cleared _)
          show Verdict _ ([.told slot.system.id event (.ok done)] ++ calls) _
          exact hwider.after rfl
    · obtain ⟨calls, hlog, htold, hcards, hverdict⟩ := ih host
      exact ⟨calls, hlog, htold, congrArg (slot.card :: ·) hcards,
        hverdict.mono (List.subset_cons_self slot.card.cleared _)⟩

/-- Telling the systems of all phases is told by calls; nobody gets or loses a result. -/
theorem notifyPhases_told (slots : ByPhase (List (Slot (Marked σ) ρ))) (host : ε × List (Call ρ)) :
    let r := sys.recorded.notifyPhases event c slots host
    ∃ calls, r.2.2.2 = host.2 ++ calls ∧ (∀ call ∈ calls, call.IsTold) ∧
      (∀ phase, (r.2.1.get phase).map Slot.card = (slots.get phase).map Slot.card) ∧
      Verdict (Phase.all.flatMap fun phase => (slots.get phase).map fun slot => slot.card.cleared) calls r.1 := by
  have hsub : ∀ phase, ((slots.get phase).map fun slot => slot.card.cleared) ⊆
      Phase.all.flatMap fun phase => (slots.get phase).map fun slot => slot.card.cleared :=
    fun phase _ hmem => List.mem_flatMap.mpr ⟨phase, phase.mem_all, hmem⟩
  unfold notifyPhases
  obtain ⟨calls₁, hlog₁, htold₁, hcards₁, hverdict₁⟩ := sys.notifyAll_told event c slots.early host
  rcases hresult : sys.recorded.notifyAll event c slots.early host with ⟨err | _, early, host₁⟩ <;>
    rw [hresult] at hlog₁ hcards₁ hverdict₁
  · refine ⟨calls₁, hlog₁, htold₁, fun phase => ?_, hverdict₁.mono (hsub .early)⟩
    cases phase with
    | early => exact hcards₁
    | script => rfl
    | late => rfl
  obtain ⟨calls₂, hlog₂, htold₂, hcards₂, hverdict₂⟩ := sys.notifyAll_told event c slots.script host₁
  dsimp only at hlog₁ ⊢
  rw [hlog₁] at hlog₂
  have htold : ∀ call ∈ calls₁ ++ calls₂, call.IsTold := List.forall_mem_append.mpr ⟨htold₁, htold₂⟩
  rcases hresult : sys.recorded.notifyAll event c slots.script host₁ with ⟨err | _, script, host₂⟩ <;>
    rw [hresult] at hlog₂ hcards₂ hverdict₂
  · refine ⟨calls₁ ++ calls₂, ?_, htold, fun phase => ?_, (hverdict₂.mono (hsub .script)).after hverdict₁⟩
    · rw [← List.append_assoc]
      exact hlog₂
    · cases phase with
      | early => exact hcards₁
      | script => exact hcards₂
      | late => rfl
  obtain ⟨calls₃, hlog₃, htold₃, hcards₃, hverdict₃⟩ := sys.notifyAll_told event c slots.late host₂
  dsimp only at hlog₂ ⊢
  rw [hlog₂] at hlog₃
  refine ⟨calls₁ ++ calls₂ ++ calls₃, ?_, List.forall_mem_append.mpr ⟨htold, htold₃⟩, fun phase => ?_, ?_⟩
  · rw [hlog₃]
    simp
  · cases phase with
    | early => exact hcards₁
    | script => exact hcards₂
    | late => exact hcards₃
  · rw [List.append_assoc]
    exact ((hverdict₃.mono (hsub .late)).after hverdict₂).after hverdict₁

end System

namespace Engine

open Call

variable (sys : System σ ρ ε)

/-- The engine has told systems of events, and no more. -/
structure Tells (e : Recorded σ ρ ε) (calls : List (Call ρ)) (e' : Recorded σ ρ ε) : Prop where
  told : ∀ call ∈ calls, call.IsTold
  accounts : ∀ phase, Accounts phase e calls e'
  cards : ∀ phase, e'.cards phase = e.cards phase

namespace Tells

variable {e e' e'' : Recorded σ ρ ε} {calls calls' : List (Call ρ)}

theorem refl (e : Recorded σ ρ ε) : Tells e [] e := ⟨by simp, fun phase => .refl phase e, fun _ => rfl⟩

theorem trans (h : Tells e calls e') (h' : Tells e' calls' e'') : Tells e (calls ++ calls') e'' where
  told := List.forall_mem_append.mpr ⟨h.told, h'.told⟩
  accounts phase := (h.accounts phase).trans (h'.accounts phase)
  cards phase := (h'.cards phase).trans (h.cards phase)

theorem visits (h : Tells e calls e') : Call.visits calls = [] :=
  visits_of_aside fun call hmem => (h.told call hmem).isAside

end Tells

theorem route_tells (e : Recorded σ ρ ε) (event : Event) :
    let r := route sys.recorded e event
    ∃ calls, Tells e calls r.2 ∧ Verdict e.members calls r.1 ∧ r.2.scheduler.poisoned = e.scheduler.poisoned ∧
      r.2.world = e.world := by
  unfold route
  split
  · exact ⟨[], .refl e, rfl, rfl, rfl⟩
  · rename_i c _
    obtain ⟨calls, hlog, htold, hcards, hverdict⟩ := sys.notifyPhases_told event c e.scheduler.slots e.host
    have hvisits : Call.visits calls = [] := visits_of_aside fun call hmem => (htold call hmem).isAside
    refine ⟨calls, ⟨htold, fun phase => ?_, hcards⟩, ?_, rfl, rfl⟩
    · exact {
        log := hlog
        visits := by simp [hvisits]
        world := by rw [worldAfter, hvisits]; rfl
        passed := by rw [hvisits]; trivial
        screen := by rw [drawnLate_of_visits hvisits, Screen.drawing_nil]
        scheduler := ⟨_, _, rfl⟩
        roster := fun phase' => roster_congr (hcards phase')
        clean := fun _ => rfl
        sticky := id }
    · have hmembers : e.members = Phase.all.flatMap fun phase => (e.scheduler.slots.get phase).map
          fun slot => slot.card.cleared := by
        unfold members roster cards
        simp only [List.map_map]
        rfl
      rw [hmembers]
      exact hverdict

theorem routeAll_tells (events : List Event) (e : Recorded σ ρ ε) :
    let r := inOrder (route sys.recorded) e events
    ∃ calls, Tells e calls r.2 ∧ Verdict e.members calls r.1 ∧ r.2.scheduler.poisoned = e.scheduler.poisoned ∧
      r.2.world = e.world := by
  induction events generalizing e with
  | nil => exact ⟨[], .refl e, rfl, rfl, rfl⟩
  | cons event rest ih =>
    obtain ⟨calls, htells, hverdict, hpoisoned, hworld⟩ := route_tells sys e event
    unfold inOrder
    rcases hresult : route sys.recorded e event with ⟨err | _, e₁⟩ <;> rw [hresult] at htells hverdict hpoisoned hworld
    · exact ⟨calls, htells, hverdict, hpoisoned, hworld⟩
    · obtain ⟨calls', htells', hverdict', hpoisoned', hworld'⟩ := ih e₁
      rw [(htells.accounts .early).members] at hverdict'
      exact ⟨calls ++ calls', htells.trans htells', hverdict'.after hverdict, hpoisoned'.trans hpoisoned,
        hworld'.trans hworld⟩

/-- The queue is routed: all that happens is that systems are told, up to the first that fails. -/
theorem deliver_tells (e : Recorded σ ρ ε) :
    let r := deliver sys.recorded e
    ∃ calls, Tells e calls r.2 ∧ Verdict e.members calls r.1 ∧ r.2.world = e.world.drain.2 := by
  obtain ⟨calls, htells, hverdict, hpoisoned, hworld⟩ :=
    routeAll_tells sys e.world.events.toList { e with world := e.world.drain.2 }
  refine ⟨calls, ?_⟩
  rw [deliver_eq]
  rcases hresult : inOrder (route sys.recorded) { e with world := e.world.drain.2 } e.world.events.toList with
    ⟨err | _, e₁⟩ <;> rw [hresult] at htells hverdict hpoisoned hworld
  · have hfailed : firstFailure? calls ≠ none := Blames.failed hverdict
    exact ⟨⟨htells.told, fun phase => ((htells.accounts phase).poisoned hfailed).drained, htells.cards⟩, hverdict,
      hworld⟩
  · exact ⟨⟨htells.told, fun phase => (htells.accounts phase).drained, htells.cards⟩, hverdict, hworld⟩

end Engine

end Cadence
