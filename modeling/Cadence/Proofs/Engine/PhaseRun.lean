import Mathlib.Algebra.GroupWithZero.Nat
import Cadence.Proofs.Engine.Account

/-!
A phase as the calls it makes: first what was in the queue is routed, then the systems take their turns, then the
results they have left are applied. Each of these rounds stops where something fails, but on workers everybody takes a
turn.
-/

namespace Cadence

variable {σ ρ ε : Type}

open Call

/-! ### Turns and applications -/

/-- An update in a phase, what is kept of its result, and the calls up to the next update. -/
structure Turn (ρ : Type) where
  visit : Visit (Option ρ)
  kept : Option ρ
  follow : List (Call ρ)

namespace Turn

def calls (turn : Turn ρ) : List (Call ρ) := .update turn.visit :: turn.follow

/-- What is to be applied, and by whom. -/
def due? (turn : Turn ρ) : Option (Nat × ρ) := turn.kept.map (turn.visit.id, ·)

/-- On the thread of the scheduler the result is kept as it is, and what the update has changed is routed. -/
inductive OnThread : Turn ρ → Prop
  | done {visit : Visit (Option ρ)} {result : Option ρ} {follow : List (Call ρ)} (hdone : visit.outcome = .ok result)
      (htold : ∀ call ∈ follow, call.IsTold) : OnThread ⟨visit, result, follow⟩
  | failed {visit : Visit (Option ρ)} {fault : Fault} (hfailed : visit.outcome = .error fault) :
      OnThread ⟨visit, none, []⟩

/-- On a worker a result is duplicated and then released; the copy is kept. -/
inductive OnWorker (sys : System σ ρ ε) : Turn ρ → Prop
  | idle {visit : Visit (Option ρ)} (hdone : visit.outcome = .ok none) : OnWorker sys ⟨visit, none, []⟩
  | handedOff {visit : Visit (Option ρ)} {result : ρ} (host : ε) (hdone : visit.outcome = .ok (some result)) :
      OnWorker sys ⟨visit, some (sys.duplicate result host).1,
        [.duplicate result (sys.duplicate result host).1, .release result]⟩
  | failed {visit : Visit (Option ρ)} {fault : Fault} (hfailed : visit.outcome = .error fault) :
      OnWorker sys ⟨visit, none, []⟩

/-- How a turn is taken in a phase. -/
def IsRegular (sys : System σ ρ ε) (parallel : Bool) (turn : Turn ρ) : Prop :=
  if parallel then turn.OnWorker sys else turn.OnThread

end Turn

/-- A result that is applied, and the calls up to the next application. -/
structure Application (ρ : Type) where
  result : ρ
  visit : Visit Unit
  follow : List (Call ρ)

namespace Application

def calls (application : Application ρ) : List (Call ρ) :=
  .apply application.result application.visit :: application.follow

/-- What was applied, and by whom. -/
def due (application : Application ρ) : Nat × ρ := (application.visit.id, application.result)

/-- What the application has changed is routed. -/
inductive OnThread : Application ρ → Prop
  | done {result : ρ} {visit : Visit Unit} {follow : List (Call ρ)} (hdone : visit.outcome = .ok ())
      (htold : ∀ call ∈ follow, call.IsTold) : OnThread ⟨result, visit, follow⟩
  | failed {result : ρ} {visit : Visit Unit} {fault : Fault} (hfailed : visit.outcome = .error fault) :
      OnThread ⟨result, visit, []⟩

end Application

namespace Engine

variable {sys : System σ ρ ε} {phase : Phase} {i : Nat} {e e' e'' : Recorded σ ρ ε}

/-! ### One turn -/

/-- The system at a position has taken its turn. -/
structure Took (phase : Phase) (i : Nat) (e : Recorded σ ρ ε) (turn : Turn ρ) (e' : Recorded σ ρ ε) : Prop where
  accounts : Accounts phase e turn.calls e'
  id : (e.roster phase)[i]?.map (·.system) = some turn.visit.id
  cards : firstFailure? turn.calls = none → e'.cards phase = (e.cards phase).modify i ({ · with pending := turn.kept })
  others : ∀ phase' ≠ phase, e'.cards phase' = e.cards phase'

theorem roster_of_slotAt? {slot : Slot (Marked σ) ρ} (hslot : e.slotAt? phase i = some slot) :
    (e.roster phase)[i]? = some slot.card.cleared := by
  rw [roster, List.getElem?_map, getElem?_cards, hslot]
  rfl

theorem mem_members_of_slotAt? {slot : Slot (Marked σ) ρ} (hslot : e.slotAt? phase i = some slot) :
    slot.card.cleared ∈ e.members :=
  mem_members.mpr ⟨phase, List.mem_of_getElem? (roster_of_slotAt? hslot)⟩

/-- The engine takes over what an update answers; what is kept of its result waits in the slot. -/
theorem took {slot : Slot (Marked σ) ρ} (hslot : e.slotAt? phase i = some slot) (turn : Turn ρ) {parallel : Bool}
    (hid : turn.visit.id = slot.system.id) (hcontext : turn.visit.context = e.context phase parallel)
    (hfollow : visits turn.follow = []) (host : ε) {f : Slot (Marked σ) ρ → Slot (Marked σ) ρ}
    (hf : (f slot).card.cleared = slot.card.cleared)
    (hkept : firstFailure? turn.calls = none → (f slot).card = { slot.card with pending := turn.kept }) :
    Took phase i e turn (e.after phase i turn.visit.world (host, e.log ++ turn.calls) turn.visit.drawn f) where
  accounts := by
    refine Accounts.after hslot turn.visit.plain ?_ hcontext host hf
    show turn.visit.plain :: visits turn.follow = _
    rw [hfollow]
  id := by
    rw [roster_of_slotAt? hslot, hid]
    rfl
  cards hclean := by rw [cards_after (g := ({ · with pending := turn.kept })) hslot _ _ _ (hkept hclean), if_pos rfl]
  others phase' hne := by rw [cards_after (g := fun _ => (f slot).card) hslot _ _ _ rfl, if_neg hne]

/-- What is routed after an update belongs to the turn. -/
theorem Took.tells {turn : Turn ρ} {calls : List (Call ρ)} (h : Took phase i e turn e') (h' : Tells e' calls e'') :
    Took phase i e { turn with follow := turn.follow ++ calls } e'' where
  accounts := h.accounts.trans (h'.accounts phase)
  id := h.id
  cards hclean := by
    have hturn : firstFailure? (turn.calls ++ calls) = none := hclean
    rw [firstFailure?_append, Option.or_eq_none_iff] at hturn
    rw [h'.cards, h.cards hturn.1]
  others phase' hne := (h'.cards phase').trans (h.others phase' hne)

theorem updateSerial_took (sys : System σ ρ ε) {slot : Slot (Marked σ) ρ} (hslot : e.slotAt? phase i = some slot)
    (hphase : slot.phase = phase) (dt : Float32) :
    let r := updateSerial sys.recorded phase dt e i
    ∃ turn : Turn ρ, turn.OnThread ∧ Took phase i e turn r.2 ∧ Verdict e.members turn.calls r.1 := by
  rw [updateSerial_eq hslot]
  have hreply : sys.recorded.updateSerial (e.context phase false) dt slot.system e.host =
      let reply := sys.updateSerial (e.context phase false) dt slot.system.system e.host.1
      { outcome := reply.outcome
        system := { slot.system with system := reply.system }
        host := (reply.host, e.log ++
          [.update ⟨slot.system.id, e.context phase false, reply.drawn, reply.world, reply.outcome⟩])
        drawn := reply.drawn
        world := reply.world } := rfl
  rw [hreply]
  generalize sys.updateSerial (e.context phase false) dt slot.system.system e.host.1 = reply
  dsimp only
  cases houtcome : reply.outcome with
  | error fault =>
    let turn : Turn ρ :=
      ⟨⟨slot.system.id, e.context phase false, reply.drawn, reply.world, .error fault⟩, none, []⟩
    have hfirst : firstFailure? turn.calls = some (slot.system.id, fault) := rfl
    refine ⟨turn, .failed rfl, ?_, slot.card.cleared, mem_members_of_slotAt? hslot, fault, hfirst, ?_⟩
    · exact took hslot turn rfl rfl rfl reply.host rfl fun hclean => absurd (hclean.symm.trans hfirst) nofun
    · rw [← hphase]
      rfl
  | ok result =>
    let turn : Turn ρ :=
      ⟨⟨slot.system.id, e.context phase false, reply.drawn, reply.world, .ok result⟩, result, []⟩
    have htook := took hslot turn rfl rfl rfl reply.host
      (f := ({ · with system := { slot.system with system := reply.system }, pending := result })) rfl fun _ => rfl
    obtain ⟨follow, htells, hverdict, _⟩ := deliver_tells sys (e.after phase i reply.world
      (reply.host, e.log ++ turn.calls) reply.drawn
      ({ · with system := { slot.system with system := reply.system }, pending := result }))
    rw [htook.accounts.members] at hverdict
    refine ⟨{ turn with follow }, .done rfl htells.told, htook.tells htells, ?_⟩
    show Verdict e.members (turn.calls ++ follow) _
    exact (hverdict.map _).after rfl

/-- An update on a worker; its error counts if it is the first. -/
theorem updateParallel_took (sys : System σ ρ ε) {slot : Slot (Marked σ) ρ} (hslot : e.slotAt? phase i = some slot)
    (hphase : slot.phase = phase) (dt : Float32) (failure : Option EngineError) :
    let r := updateParallel sys.recorded phase dt (failure, e) i
    ∃ turn : Turn ρ, turn.OnWorker sys ∧ Took phase i e turn r.2 ∧
      ((firstFailure? turn.calls = none ∧ r.1 = failure) ∨
        ∃ err, Blames e.members turn.calls err ∧ r.1 = failure.or (some err)) := by
  rw [updateParallel_eq hslot]
  have hreply : sys.recorded.update (e.context phase true) dt slot.system e.host =
      let reply := sys.update (e.context phase true) dt slot.system.system e.host.1
      { outcome := reply.outcome
        system := { slot.system with system := reply.system }
        host := (reply.host, e.log ++
          [.update ⟨slot.system.id, e.context phase true, reply.drawn, e.world, reply.outcome⟩])
        drawn := reply.drawn } := rfl
  rw [hreply]
  generalize sys.update (e.context phase true) dt slot.system.system e.host.1 = reply
  dsimp only
  cases houtcome : reply.outcome with
  | error fault =>
    let turn : Turn ρ :=
      ⟨⟨slot.system.id, e.context phase true, reply.drawn, e.world, .error fault⟩, none, []⟩
    have hfirst : firstFailure? turn.calls = some (slot.system.id, fault) := rfl
    refine ⟨turn, .failed rfl, ?_, .inr ⟨.systemFailed phase slot.name fault, ?_, rfl⟩⟩
    · exact took hslot turn rfl rfl rfl reply.host rfl fun hclean => absurd (hclean.symm.trans hfirst) nofun
    · refine ⟨slot.card.cleared, mem_members_of_slotAt? hslot, fault, hfirst, ?_⟩
      rw [← hphase]
      rfl
  | ok result =>
    have hlog := recorded_handOff sys result (reply.host, e.log ++
      [.update ⟨slot.system.id, e.context phase true, reply.drawn, e.world, .ok result⟩])
    dsimp only
    rw [hlog]
    cases result with
    | none =>
      let turn : Turn ρ :=
        ⟨⟨slot.system.id, e.context phase true, reply.drawn, e.world, .ok none⟩, none, []⟩
      refine ⟨turn, .idle rfl, ?_, .inl ⟨rfl, rfl⟩⟩
      dsimp only
      rw [List.append_nil]
      exact took hslot turn rfl rfl rfl reply.host rfl fun _ => rfl
    | some result =>
      let turn : Turn ρ :=
        ⟨⟨slot.system.id, e.context phase true, reply.drawn, e.world, .ok (some result)⟩,
          some (sys.duplicate result reply.host).1,
          [.duplicate result (sys.duplicate result reply.host).1, .release result]⟩
      refine ⟨turn, .handedOff reply.host rfl, ?_, .inl ⟨rfl, rfl⟩⟩
      dsimp only
      rw [List.append_assoc]
      exact took hslot turn rfl rfl rfl (sys.handOff (some result) reply.host).2 rfl fun _ => rfl

/-- The result that waits at a position has been applied. -/
structure Settled (phase : Phase) (i : Nat) (e : Recorded σ ρ ε) (application : Application ρ) (e' : Recorded σ ρ ε) :
    Prop where
  accounts : Accounts phase e application.calls e'
  due : ((e.cards phase)[i]?).bind (fun card => card.pending.map (card.system, ·)) = some application.due
  cards : firstFailure? application.calls = none → e'.cards phase = (e.cards phase).modify i Slot.cleared
  others : ∀ phase' ≠ phase, e'.cards phase' = e.cards phase'

/-- The engine takes over what an application answers. -/
theorem settles {slot : Slot (Marked σ) ρ} (hslot : e.slotAt? phase i = some slot) (application : Application ρ)
    (hpending : slot.pending = some application.result) {parallel : Bool} (hid : application.visit.id = slot.system.id)
    (hcontext : application.visit.context = e.context phase parallel) (hfollow : visits application.follow = [])
    (host : ε) (s : σ) :
    Settled phase i e application (e.after phase i application.visit.world (host, e.log ++ application.calls)
      application.visit.drawn ({ · with pending := none, system := ⟨s, slot.system.id⟩ })) where
  accounts := by
    refine Accounts.after hslot application.visit ?_ hcontext host rfl
    show application.visit :: visits application.follow = _
    rw [hfollow]
  due := by
    have hdue : slot.pending.map (slot.system.id, ·) = some application.due := by
      rw [hpending, Application.due, hid]
      rfl
    rw [getElem?_cards, hslot]
    exact hdue
  cards _ := by rw [cards_after (g := Slot.cleared) hslot _ _ _ rfl, if_pos rfl]
  others phase' hne := by rw [cards_after (g := Slot.cleared) hslot _ _ _ rfl, if_neg hne]

theorem Settled.tells {application : Application ρ} {calls : List (Call ρ)} (h : Settled phase i e application e')
    (h' : Tells e' calls e'') : Settled phase i e { application with follow := application.follow ++ calls } e'' where
  accounts := h.accounts.trans (h'.accounts phase)
  due := h.due
  cards hclean := by
    have hboth : firstFailure? (application.calls ++ calls) = none := hclean
    rw [firstFailure?_append, Option.or_eq_none_iff] at hboth
    rw [h'.cards, h.cards hboth.1]
  others phase' hne := (h'.cards phase').trans (h.others phase' hne)

theorem applyResult_settled (sys : System σ ρ ε) {a : Applied (Marked σ) ρ (ε × List (Call ρ))}
    {slot : Slot (Marked σ) ρ} {result : ρ} (hslot : a.engine.slotAt? phase i = some slot)
    (hpending : slot.pending = some result) (hphase : slot.phase = phase) :
    let r := applyResult sys.recorded phase a i
    ∃ application : Application ρ, application.OnThread ∧ Settled phase i a.engine application r.2.engine ∧
      Verdict a.engine.members application.calls r.1 ∧
      (r.1 = .ok () → r.2.count = a.count + 1 ∧ r.2.bytes = a.bytes + sys.byteSize application.result) := by
  rw [applyResult_eq hslot hpending]
  have hreply : sys.recorded.apply result (a.engine.context phase false) slot.system a.engine.host =
      let reply := sys.apply result (a.engine.context phase false) slot.system.system a.engine.host.1
      { outcome := reply.outcome
        system := { slot.system with system := reply.system }
        host := (reply.host, a.engine.log ++
          [.apply result ⟨slot.system.id, a.engine.context phase false, reply.drawn, reply.world, reply.outcome⟩])
        drawn := reply.drawn
        world := reply.world } := rfl
  rw [hreply]
  generalize sys.apply result (a.engine.context phase false) slot.system.system a.engine.host.1 = reply
  dsimp only
  cases houtcome : reply.outcome with
  | error fault =>
    let application : Application ρ :=
      ⟨result, ⟨slot.system.id, a.engine.context phase false, reply.drawn, reply.world, .error fault⟩, []⟩
    have hfirst : firstFailure? application.calls = some (slot.system.id, fault) := rfl
    refine ⟨application, .failed rfl, settles hslot application hpending rfl rfl rfl reply.host reply.system,
      ⟨slot.card.cleared, mem_members_of_slotAt? hslot, fault, hfirst, ?_⟩, nofun⟩
    rw [← hphase]
    rfl
  | ok _ =>
    let application : Application ρ :=
      ⟨result, ⟨slot.system.id, a.engine.context phase false, reply.drawn, reply.world, .ok ()⟩, []⟩
    have hsettled := settles hslot application hpending rfl rfl rfl reply.host reply.system
    obtain ⟨follow, htells, hverdict, _⟩ := deliver_tells sys (a.engine.after phase i reply.world
      (reply.host, a.engine.log ++ application.calls) reply.drawn
      ({ · with pending := none, system := { slot.system with system := reply.system } }))
    rw [hsettled.accounts.members] at hverdict
    refine ⟨{ application with follow }, .done rfl htells.told, hsettled.tells htells, ?_, fun _ => ⟨rfl, rfl⟩⟩
    show Verdict a.engine.members (application.calls ++ follow) _
    exact (hverdict.map _).after rfl

/-! ### Rounds -/

end Engine

theorem Call.firstFailure?_flatMap {α : Type} {f : α → List (Call ρ)} {xs : List α} :
    firstFailure? (xs.flatMap f) = none ↔ ∀ x ∈ xs, firstFailure? (f x) = none := by
  unfold firstFailure?
  simp only [List.findSome?_eq_none_iff, List.mem_flatMap]
  exact ⟨fun h x hx call hcall => h call ⟨x, hx, hcall⟩, fun h call ⟨x, hx, hcall⟩ => h x hx call hcall⟩

/-- The cards of a phase once the first of them have got what is kept for them. -/
def dealt : List (Slot Nat ρ) → List (Option ρ) → List (Slot Nat ρ)
  | card :: cards, pending :: rest => { card with pending } :: dealt cards rest
  | cards, _ => cards

@[simp] theorem dealt_nil (cards : List (Slot Nat ρ)) : dealt cards [] = cards := by cases cards <;> rfl

theorem dealt_concat (cards : List (Slot Nat ρ)) (kept : List (Option ρ)) (pending : Option ρ) :
    dealt cards (kept ++ [pending]) = (dealt cards kept).modify kept.length ({ · with pending }) := by
  induction cards generalizing kept with
  | nil => cases kept <;> rfl
  | cons card rest ih =>
    cases kept with
    | nil => rw [List.nil_append, dealt, dealt_nil, dealt_nil]; rfl
    | cons first kept => exact congrArg ({ card with pending := first } :: ·) (ih kept)

/-- What waits to be applied, and by whom. -/
def due (cards : List (Slot Nat ρ)) : List (Nat × ρ) := cards.filterMap fun card => card.pending.map (card.system, ·)

namespace Engine

variable {sys : System σ ρ ε} {phase : Phase} {i n : Nat} {e e' e'' : Recorded σ ρ ε} {parallel : Bool}

theorem slot_of_roster (hi : i < (e.roster phase).length) : ∃ slot, e.slotAt? phase i = some slot := by
  rw [length_roster, length_cards] at hi
  exact ⟨_, List.getElem?_eq_getElem hi⟩

/-- The systems at the first positions have taken their turns. -/
structure TookAll (sys : System σ ρ ε) (phase : Phase) (parallel : Bool) (e : Recorded σ ρ ε) (turns : List (Turn ρ))
    (e' : Recorded σ ρ ε) : Prop where
  regular : ∀ turn ∈ turns, turn.IsRegular sys parallel
  accounts : Accounts phase e (turns.flatMap Turn.calls) e'
  ids : turns.map (·.visit.id) = ((e.roster phase).take turns.length).map (·.system)
  cards : firstFailure? (turns.flatMap Turn.calls) = none → e'.cards phase = dealt (e.cards phase) (turns.map (·.kept))
  others : ∀ phase' ≠ phase, e'.cards phase' = e.cards phase'

theorem TookAll.refl (sys : System σ ρ ε) (phase : Phase) (parallel : Bool) (e : Recorded σ ρ ε) :
    TookAll sys phase parallel e [] e :=
  ⟨by simp, .refl phase e, rfl, fun _ => (dealt_nil _).symm, fun _ _ => rfl⟩

theorem TookAll.concat {turns : List (Turn ρ)} {turn : Turn ρ} (h : TookAll sys phase parallel e turns e')
    (hregular : turn.IsRegular sys parallel) (h' : Took phase turns.length e' turn e'') :
    TookAll sys phase parallel e (turns ++ [turn]) e'' where
  regular := List.forall_mem_append.mpr ⟨h.regular, List.forall_mem_singleton.mpr hregular⟩
  accounts := by
    rw [List.flatMap_append, List.flatMap_singleton]
    exact h.accounts.trans h'.accounts
  ids := by
    have hid := h'.id
    rw [h.accounts.roster] at hid
    rw [List.map_append, h.ids, List.length_append, List.length_singleton, List.take_add_one, List.map_append]
    congr 1
    cases hcard : (e.roster phase)[turns.length]? with
    | none =>
      rw [hcard] at hid
      cases hid
    | some card =>
      rw [hcard] at hid
      exact congrArg (fun id => [id]) (Option.some.inj hid).symm
  cards hclean := by
    rw [List.flatMap_append, List.flatMap_singleton, firstFailure?_append, Option.or_eq_none_iff] at hclean
    rw [h'.cards hclean.2, h.cards hclean.1, List.map_append, List.map_singleton, dealt_concat, List.length_map]
  others phase' hne := (h'.others phase' hne).trans (h.others phase' hne)

/-- Everybody is registered in the phase in which the engine keeps it. -/
def InPlace (e : Recorded σ ρ ε) : Prop := ∀ phase, ∀ card ∈ e.roster phase, card.phase = phase

theorem InPlace.slot (h : e.InPlace) {slot : Slot (Marked σ) ρ} (hslot : e.slotAt? phase i = some slot) :
    slot.phase = phase := h phase slot.card.cleared (List.mem_of_getElem? (roster_of_slotAt? hslot))

theorem InPlace.congr (h : e.InPlace) (hroster : ∀ phase, e'.roster phase = e.roster phase) : e'.InPlace := by
  intro phase card hmem
  rw [hroster] at hmem
  exact h phase card hmem

theorem updateSerials_took (sys : System σ ρ ε) (phase : Phase) (hplace : e.InPlace) (dt : Float32)
    (hn : n ≤ (e.roster phase).length) :
    Leaves
      (fun _ e' => ∃ turns, turns.length = n ∧ TookAll sys phase false e turns e' ∧
        firstFailure? (turns.flatMap Turn.calls) = none)
      (fun err e' => ∃ turns last, TookAll sys phase false e (turns ++ [last]) e' ∧
        firstFailure? (turns.flatMap Turn.calls) = none ∧ Blames e.members last.calls err)
      (inOrder (updateSerial sys.recorded phase dt) e (List.range n)) := by
  refine leaves_inOrder_range
    (I := fun i e' => ∃ turns, turns.length = i ∧ TookAll sys phase false e turns e' ∧
      firstFailure? (turns.flatMap Turn.calls) = none) ?_ ⟨[], rfl, .refl sys phase false e, rfl⟩
  rintro i e' hi ⟨turns, rfl, htook, hclean⟩
  have hroster := htook.accounts.roster
  have hlength : turns.length < (e'.roster phase).length := by
    rw [hroster]
    omega
  obtain ⟨slot, hslot⟩ := slot_of_roster hlength
  obtain ⟨turn, hregular, hturn, hverdict⟩ :=
    updateSerial_took sys hslot ((hplace.congr hroster).slot hslot) dt
  rw [htook.accounts.members] at hverdict
  have hall := htook.concat hregular hturn
  rcases hresult : updateSerial sys.recorded phase dt e' turns.length with ⟨err | _, e''⟩ <;>
    rw [hresult] at hall hverdict
  · exact ⟨turns, turn, hall, hclean, hverdict⟩
  · refine ⟨turns ++ [turn], by simp, hall, ?_⟩
    rw [List.flatMap_append, List.flatMap_singleton, firstFailure?_append, hclean]
    exact hverdict

/-- The error that has been kept, as an outcome. -/
def outcomeOf (failure : Option EngineError) : Except EngineError Unit :=
  match failure with
  | none => .ok ()
  | some err => .error err

theorem updateParallels_took (sys : System σ ρ ε) (phase : Phase) (hplace : e.InPlace) (dt : Float32)
    (hn : n ≤ (e.roster phase).length) :
    let state := (List.range n).foldl (updateParallel sys.recorded phase dt) (none, e)
    ∃ turns, turns.length = n ∧ TookAll sys phase true e turns state.2 ∧
      Verdict e.members (turns.flatMap Turn.calls) (outcomeOf state.1) := by
  refine foldl_range (s := (none, e))
    (I := fun i (state : Option EngineError × Recorded σ ρ ε) => ∃ turns, turns.length = i ∧
      TookAll sys phase true e turns state.2 ∧ Verdict e.members (turns.flatMap Turn.calls) (outcomeOf state.1))
    ?_ ⟨[], rfl, .refl sys phase true e, rfl⟩
  rintro i ⟨failure, e'⟩ hi ⟨turns, rfl, htook, hverdict⟩
  have hroster := htook.accounts.roster
  have hlength : turns.length < (e'.roster phase).length := by
    rw [hroster]
    omega
  obtain ⟨slot, hslot⟩ := slot_of_roster hlength
  obtain ⟨turn, hregular, hturn, hoff⟩ :=
    updateParallel_took sys hslot ((hplace.congr hroster).slot hslot) dt failure
  rw [htook.accounts.members] at hoff
  refine ⟨turns ++ [turn], by simp, htook.concat hregular hturn, ?_⟩
  rw [List.flatMap_append, List.flatMap_singleton]
  -- of two failures the first is kept, and it is the first in the log too
  obtain ⟨hclean, hsame⟩ | ⟨err, hblames, hsame⟩ := hoff <;> rw [hsame]
  · cases failure with
    | none =>
      have hbefore : firstFailure? (turns.flatMap Turn.calls) = none := hverdict
      show firstFailure? _ = none
      rw [firstFailure?_append, hbefore, hclean]
      rfl
    | some first => exact Blames.before hverdict turn.calls
  · cases failure with
    | none => exact hblames.after hverdict
    | some first => exact Blames.before hverdict turn.calls

/-- The updates of a phase: on the thread they stop at the first that fails, on workers they are all made. -/
theorem updateAll_took (sys : System σ ρ ε) (phase : Phase) (hplace : e.InPlace) (dt : Float32) (parallel : Bool) :
    let r := updateAll sys.recorded phase dt parallel e
    ∃ turns, TookAll sys phase parallel e turns r.2 ∧ Verdict e.members (turns.flatMap Turn.calls) r.1 ∧
      (parallel = false → ∀ turn ∈ turns.dropLast, firstFailure? turn.calls = none) ∧
      (parallel = true ∨ firstFailure? (turns.flatMap Turn.calls) = none → turns.length = (e.roster phase).length) := by
  have hlength : (e.scheduler.slots.get phase).length = (e.roster phase).length := by rw [length_roster, length_cards]
  unfold updateAll
  rw [hlength]
  cases parallel with
  | false =>
    have hall := updateSerials_took sys phase hplace dt (Nat.le_refl _)
    dsimp only
    rw [if_neg Bool.false_ne_true]
    rcases hresult : inOrder (updateSerial sys.recorded phase dt) e (List.range (e.roster phase).length) with
      ⟨err | _, e'⟩
    · obtain ⟨turns, last, htook, hclean, hblames⟩ := hall.of_error hresult
      have hfailed : Blames e.members ((turns ++ [last]).flatMap Turn.calls) err := by
        rw [List.flatMap_append, List.flatMap_singleton]
        exact hblames.after hclean
      refine ⟨turns ++ [last], htook, hfailed, fun _ => ?_, fun h => ?_⟩
      · rw [List.dropLast_concat]
        exact firstFailure?_flatMap.mp hclean
      · obtain h | h := h
        · cases h
        · exact absurd h hfailed.failed
    · obtain ⟨turns, hturns, htook, hclean⟩ := hall.of_ok hresult
      exact ⟨turns, htook, hclean,
        fun _ turn hmem => firstFailure?_flatMap.mp hclean turn (List.dropLast_subset turns hmem), fun _ => hturns⟩
  | true =>
    obtain ⟨turns, hturns, htook, hverdict⟩ :=
      updateParallels_took sys phase hplace dt (Nat.le_refl _)
    dsimp only
    rw [if_pos rfl]
    rcases hresult : (List.range (e.roster phase).length).foldl (updateParallel sys.recorded phase dt) (none, e) with
      ⟨_ | err, e'⟩ <;> rw [hresult] at htook hverdict
    · exact ⟨turns, htook, hverdict, nofun, fun _ => hturns⟩
    · exact ⟨turns, htook, hverdict, nofun, fun _ => hturns⟩

/-! ### The round of applications -/

/-- The results that wait at the first positions have been applied. -/
structure SettledAll (phase : Phase) (n : Nat) (e : Recorded σ ρ ε) (applications : List (Application ρ))
    (e' : Recorded σ ρ ε) : Prop where
  regular : ∀ application ∈ applications, application.OnThread
  accounts : Accounts phase e (applications.flatMap Application.calls) e'
  due : applications.map Application.due = due ((e.cards phase).take n)
  cards : firstFailure? (applications.flatMap Application.calls) = none →
    e'.cards phase = dealt (e.cards phase) (List.replicate n none)
  others : ∀ phase' ≠ phase, e'.cards phase' = e.cards phase'

theorem SettledAll.refl (phase : Phase) (e : Recorded σ ρ ε) : SettledAll phase 0 e [] e :=
  ⟨by simp, .refl phase e, rfl, fun _ => (dealt_nil _).symm, fun _ _ => rfl⟩

theorem getElem?_dealt (cards : List (Slot Nat ρ)) (kept : List (Option ρ)) :
    (dealt cards kept)[kept.length]? = cards[kept.length]? := by
  induction cards generalizing kept with
  | nil => cases kept <;> rfl
  | cons card rest ih =>
    cases kept with
    | nil => rfl
    | cons first kept => exact ih kept

theorem due_take_succ (cards : List (Slot Nat ρ)) (i : Nat) :
    due (cards.take (i + 1)) =
      due (cards.take i) ++ (cards[i]?.bind fun card => card.pending.map (card.system, ·)).toList := by
  unfold due
  rw [List.take_add_one, List.filterMap_append]
  congr 1
  cases cards[i]? with
  | none => rfl
  | some card =>
    cases hpending : card.pending <;> simp [hpending]

/-- Where nothing waits, nothing is done. -/
theorem SettledAll.skip {applications : List (Application ρ)} (h : SettledAll phase i e applications e')
    (hclean : firstFailure? (applications.flatMap Application.calls) = none)
    {slot : Slot (Marked σ) ρ} (hslot : e'.slotAt? phase i = some slot) (hpending : slot.pending = none) :
    SettledAll phase (i + 1) e applications e' := by
  have hcards := h.cards hclean
  have hcard : (e'.cards phase)[i]? = some slot.card := by rw [getElem?_cards, hslot]; rfl
  have hcard' : (e.cards phase)[i]? = some slot.card := by
    rw [← hcard, hcards]
    have := getElem?_dealt (e.cards phase) (List.replicate i none)
    rwa [List.length_replicate, eq_comm] at this
  refine ⟨h.regular, h.accounts, ?_, fun _ => ?_, h.others⟩
  · have hnone : slot.card.pending = none := hpending
    rw [h.due, due_take_succ, hcard', Option.bind_some, hnone]
    simp
  · have hsame : Slot.cleared slot.card = slot.card := by
      show { slot.card with pending := none } = slot.card
      rw [← hpending]
      rfl
    have hmodify := map_modify_at (f := Slot.cleared) (h := id) (g := id) hcard hsame
    rw [List.map_id_fun, id, id, List.modify_id] at hmodify
    rw [List.replicate_succ', dealt_concat, List.length_replicate, ← hcards]
    exact hmodify.symm

theorem SettledAll.concat {applications : List (Application ρ)} {application : Application ρ}
    (h : SettledAll phase i e applications e') (hclean : firstFailure? (applications.flatMap Application.calls) = none)
    (hregular : application.OnThread) (h' : Settled phase i e' application e'') :
    SettledAll phase (i + 1) e (applications ++ [application]) e'' where
  regular := List.forall_mem_append.mpr ⟨h.regular, List.forall_mem_singleton.mpr hregular⟩
  accounts := by
    rw [List.flatMap_append, List.flatMap_singleton]
    exact h.accounts.trans h'.accounts
  due := by
    have hcard := getElem?_dealt (e.cards phase) (List.replicate i none)
    rw [List.length_replicate, ← h.cards hclean] at hcard
    rw [due_take_succ, ← hcard, h'.due, List.map_append, h.due]
    rfl
  cards hall := by
    rw [List.flatMap_append, List.flatMap_singleton, firstFailure?_append, Option.or_eq_none_iff] at hall
    rw [h'.cards hall.2, h.cards hclean, List.replicate_succ', dealt_concat, List.length_replicate]
    rfl
  others phase' hne := (h'.others phase' hne).trans (h.others phase' hne)

/-- The bytes of results that have been applied. -/
def appliedBytes (sys : System σ ρ ε) (applications : List (Application ρ)) : Nat :=
  (applications.map fun application => sys.byteSize application.result).sum

theorem applyResults_settled (sys : System σ ρ ε) (phase : Phase) (hplace : e.InPlace)
    (hn : n ≤ (e.roster phase).length) :
    Leaves
      (fun _ (a : Applied (Marked σ) ρ (ε × List (Call ρ))) => ∃ applications,
        SettledAll phase n e applications a.engine ∧ firstFailure? (applications.flatMap Application.calls) = none ∧
        a.count = applications.length ∧ a.bytes = appliedBytes sys applications)
      (fun err a => ∃ i applications last, SettledAll phase (i + 1) e (applications ++ [last]) a.engine ∧
        firstFailure? (applications.flatMap Application.calls) = none ∧ Blames e.members last.calls err)
      (inOrder (applyResult sys.recorded phase) { engine := e } (List.range n)) := by
  refine leaves_inOrder_range
    (I := fun i (a : Applied (Marked σ) ρ (ε × List (Call ρ))) => ∃ applications,
      SettledAll phase i e applications a.engine ∧ firstFailure? (applications.flatMap Application.calls) = none ∧
      a.count = applications.length ∧ a.bytes = appliedBytes sys applications)
    ?_ ⟨[], .refl phase e, rfl, rfl, rfl⟩
  rintro i a hi ⟨applications, hsettled, hclean, hcount, hbytes⟩
  have hroster := hsettled.accounts.roster
  have hlength : i < (a.engine.roster phase).length := by
    rw [hroster]
    omega
  obtain ⟨slot, hslot⟩ := slot_of_roster hlength
  cases hpending : slot.pending with
  | none =>
    have hnone : (a.engine.slotAt? phase i).bind (·.pending) = none := by rw [hslot]; exact hpending
    rw [applyResult_of_none hnone]
    exact ⟨applications, hsettled.skip hclean hslot hpending, hclean, hcount, hbytes⟩
  | some result =>
    obtain ⟨application, hregular, happlied, hverdict, hmore⟩ :=
      applyResult_settled sys hslot hpending ((hplace.congr hroster).slot hslot)
    rw [hsettled.accounts.members] at hverdict
    have hall := hsettled.concat hclean hregular happlied
    rcases hresult : applyResult sys.recorded phase a i with ⟨err | _, a'⟩ <;> rw [hresult] at hall hverdict hmore
    · exact ⟨i, applications, application, hall, hclean, hverdict⟩
    · obtain ⟨hcount', hbytes'⟩ := hmore rfl
      refine ⟨applications ++ [application], hall, ?_, ?_, ?_⟩
      · rw [List.flatMap_append, List.flatMap_singleton, firstFailure?_append, hclean]
        exact hverdict
      · dsimp only at hcount' ⊢
        rw [hcount', hcount, List.length_append, List.length_singleton]
      · dsimp only at hbytes' ⊢
        rw [hbytes', hbytes]
        simp [appliedBytes]

/-- The applications of a phase, up to the first that fails. -/
theorem applyAll_settled (sys : System σ ρ ε) (phase : Phase) (hplace : e.InPlace) :
    let r := applyAll sys.recorded phase e
    ∃ i applications, SettledAll phase i e applications r.2.engine ∧
      Verdict e.members (applications.flatMap Application.calls) r.1 ∧
      (∀ application ∈ applications.dropLast, firstFailure? application.calls = none) ∧
      (firstFailure? (applications.flatMap Application.calls) = none →
        i = (e.roster phase).length ∧ r.2.count = applications.length ∧ r.2.bytes = appliedBytes sys applications) := by
  have hlength : (e.scheduler.slots.get phase).length = (e.roster phase).length := by rw [length_roster, length_cards]
  have hall := applyResults_settled sys phase hplace (Nat.le_refl _)
  unfold applyAll
  rw [hlength]
  rcases hresult : inOrder (applyResult sys.recorded phase) { engine := e } (List.range (e.roster phase).length) with
    ⟨err | _, a⟩
  · obtain ⟨i, applications, last, hsettled, hclean, hblames⟩ := hall.of_error hresult
    have hfailed : Blames e.members ((applications ++ [last]).flatMap Application.calls) err := by
      rw [List.flatMap_append, List.flatMap_singleton]
      exact hblames.after hclean
    refine ⟨i + 1, applications ++ [last], hsettled, hfailed, ?_, fun h => absurd h hfailed.failed⟩
    rw [List.dropLast_concat]
    exact firstFailure?_flatMap.mp hclean
  · obtain ⟨applications, hsettled, hclean, hcount, hbytes⟩ := hall.of_ok hresult
    exact ⟨_, applications, hsettled, hclean,
      fun a hmem => firstFailure?_flatMap.mp hclean a (List.dropLast_subset applications hmem),
      fun _ => ⟨rfl, hcount, hbytes⟩⟩

end Engine

/-! ### The whole phase -/

/-- A phase that has been run, with the systems that it was run with. Which these are is not said here: for a phase that
an engine has run, `Engine.Ran` ties them to the engine, and for the phases of a whole run `Engine.Sequenced` does. -/
structure PhaseRun (ρ : Type) where
  phase : Phase
  parallel : Bool
  frame : Nat
  systems : List Nat
  opening : List (Call ρ)
  turns : List (Turn ρ)
  applications : List (Application ρ)

namespace PhaseRun

def calls (run : PhaseRun ρ) : List (Call ρ) :=
  run.opening ++ run.turns.flatMap Turn.calls ++ run.applications.flatMap Application.calls

/-- What the updates have left to be applied. -/
def waiting (run : PhaseRun ρ) : List (Nat × ρ) := run.turns.filterMap Turn.due?

/-- Nobody has failed. -/
def IsDone (run : PhaseRun ρ) : Prop := firstFailure? run.calls = none

def report (sys : System σ ρ ε) (run : PhaseRun ρ) : PhaseReport :=
  ⟨run.phase, run.turns.length, run.applications.length, Engine.appliedBytes sys run.applications, run.parallel⟩

/-- The shape of every run of a phase. -/
structure IsRegular (sys : System σ ρ ε) (run : PhaseRun ρ) : Prop where
  opening : ∀ call ∈ run.opening, call.IsTold
  turns : ∀ turn ∈ run.turns, turn.IsRegular sys run.parallel
  applications : ∀ application ∈ run.applications, application.OnThread
  visits : ∀ visit ∈ visits run.calls, visit.context.phase = run.phase ∧ visit.context.frame = run.frame
  /-- Nobody is updated if the opening has failed. -/
  opened : firstFailure? run.opening ≠ none → run.turns = []
  /-- Systems are updated once each, in the order of their registration. -/
  updated : run.turns.map (·.visit.id) = run.systems.take run.turns.length
  /-- On the thread nobody is updated after the first turn in which somebody has failed. -/
  stopped : run.parallel = false → ∀ turn ∈ run.turns.dropLast, firstFailure? turn.calls = none
  /-- Everybody is updated if nobody fails, and on workers in any case. -/
  complete : firstFailure? run.opening = none →
    run.parallel = true ∨ firstFailure? (run.turns.flatMap Turn.calls) = none → run.turns.length = run.systems.length
  /-- Nothing is applied if somebody has failed before. -/
  joined : firstFailure? (run.turns.flatMap Turn.calls) ≠ none → run.applications = []
  /-- What waits is applied once each, in the order of registration. -/
  applied : run.applications.map Application.due <+: run.waiting
  /-- Nothing is applied after the first application in which somebody has failed. -/
  broken : ∀ application ∈ run.applications.dropLast, firstFailure? application.calls = none
  /-- Everything that waits is applied if nobody fails. -/
  finished : run.IsDone → run.applications.map Application.due = run.waiting

end PhaseRun

theorem due_dealt {turns : List (Turn ρ)} {cards : List (Slot Nat ρ)} (hnone : ∀ card ∈ cards, card.pending = none)
    (hids : turns.map (·.visit.id) = (cards.take turns.length).map (·.system)) :
    due (dealt cards (turns.map (·.kept))) = turns.filterMap Turn.due? := by
  induction turns generalizing cards with
  | nil =>
    rw [List.map_nil, dealt_nil]
    exact List.filterMap_eq_nil_iff.mpr fun card hmem => by rw [hnone card hmem]; rfl
  | cons turn rest ih =>
    cases cards with
    | nil => cases hids
    | cons card cards =>
      obtain ⟨hcard, hcards⟩ := List.forall_mem_cons.mp hnone
      obtain ⟨hid, hids⟩ := List.cons.inj hids
      have hrest := ih hcards hids
      have hsame : turn.due? = turn.kept.map (card.system, ·) := congrArg (fun id => turn.kept.map (id, ·)) hid
      rw [List.map_cons, dealt, List.filterMap_cons, ← hrest, hsame]
      cases turn.kept <;> simp [due]

theorem dealt_replicate (cards : List (Slot Nat ρ)) :
    dealt cards (List.replicate cards.length none) = cards.map Slot.cleared := by
  induction cards with
  | nil => rfl
  | cons card rest ih => exact congrArg (card.cleared :: ·) ih

namespace Engine

variable {sys : System σ ρ ε} {phase : Phase} {e : Recorded σ ρ ε}

/-- No result waits to be applied. -/
def IsIdle (e : Recorded σ ρ ε) : Prop := ∀ phase, e.cards phase = e.roster phase

theorem IsIdle.pending (h : e.IsIdle) (phase : Phase) {card : Slot Nat ρ} (hmem : card ∈ e.cards phase) :
    card.pending = none := by
  rw [h, roster] at hmem
  obtain ⟨_, _, rfl⟩ := List.mem_map.mp hmem
  rfl

/-- The run of a phase that has come so far. -/
def runOf (e : Recorded σ ρ ε) (phase : Phase) (parallel : Bool) (opening : List (Call ρ)) (turns : List (Turn ρ))
    (applications : List (Application ρ)) : PhaseRun ρ :=
  ⟨phase, parallel, e.scheduler.frame, (e.roster phase).map (·.system), opening, turns, applications⟩

/-- What a phase has done on `e` is the run, and its outcome is that of the calls. -/
structure Ran (sys : System σ ρ ε) (e : Recorded σ ρ ε) (run : PhaseRun ρ)
    (r : Except EngineError PhaseReport × Recorded σ ρ ε) : Prop where
  regular : run.IsRegular sys
  frame : run.frame = e.scheduler.frame
  systems : run.systems = (e.roster run.phase).map (·.system)
  accounts : Accounts run.phase e run.calls r.2
  verdict : Verdict e.members run.calls r.1
  others : ∀ phase' ≠ run.phase, r.2.cards phase' = e.cards phase'
  done : ∀ report, r.1 = .ok report → r.2.cards run.phase = e.cards run.phase ∧ report = run.report sys

section rounds

variable {parallel : Bool} {i : Nat} {e₁ e₂ e₃ : Recorded σ ρ ε} {opening : List (Call ρ)} {turns : List (Turn ρ)}
  {applications : List (Application ρ)} (htells : Tells e opening e₁) (htook : TookAll sys phase parallel e₁ turns e₂)
  (hsettled : SettledAll phase i e₂ applications e₃)
include htells htook hsettled

theorem accounts_rounds : Accounts phase e (e.runOf phase parallel opening turns applications).calls e₃ :=
  ((htells.accounts phase).trans htook.accounts).trans hsettled.accounts

theorem others_rounds {phase' : Phase} (hne : phase' ≠ phase) : e₃.cards phase' = e.cards phase' := by
  rw [hsettled.others phase' hne, htook.others phase' hne, htells.cards]

/-- Rounds that stop where they must are a regular run. -/
theorem isRegular_rounds (hidle : e.IsIdle) (hopened : firstFailure? opening ≠ none → turns = [])
    (hstopped : parallel = false → ∀ turn ∈ turns.dropLast, firstFailure? turn.calls = none)
    (hcomplete : firstFailure? opening = none → parallel = true ∨ firstFailure? (turns.flatMap Turn.calls) = none →
      turns.length = (e.roster phase).length)
    (hjoined : firstFailure? (turns.flatMap Turn.calls) ≠ none → applications = [])
    (hbroken : ∀ application ∈ applications.dropLast, firstFailure? application.calls = none)
    (hfinished : (e.runOf phase parallel opening turns applications).IsDone → i = (e.roster phase).length) :
    (e.runOf phase parallel opening turns applications).IsRegular sys := by
  have hcards₁ : e₁.cards phase = e.roster phase := (htells.cards phase).trans (hidle phase)
  have hroster₁ : e₁.roster phase = e.roster phase := (htells.accounts phase).roster phase
  have hids := htook.ids
  rw [hroster₁] at hids
  have hwaiting (hclean : firstFailure? (turns.flatMap Turn.calls) = none) :
      due (e₂.cards phase) = turns.filterMap Turn.due? := by
    rw [htook.cards hclean, hcards₁]
    refine due_dealt (fun card hmem => hidle.pending phase ?_) hids
    rw [hidle]
    exact hmem
  have hframe : ∀ visit ∈ visits (e.runOf phase parallel opening turns applications).calls,
      visit.context.phase = phase ∧ visit.context.frame = e.scheduler.frame :=
    (accounts_rounds htells htook hsettled).visits
  refine {
    opening := htells.told
    turns := htook.regular
    applications := hsettled.regular
    visits := hframe
    opened := hopened
    updated := ?_
    stopped := hstopped
    complete := ?_
    joined := hjoined
    applied := ?_
    broken := hbroken
    finished := ?_ }
  · rw [runOf, ← List.map_take]
    exact hids
  · intro hopening hturns
    rw [runOf, List.length_map]
    exact hcomplete hopening hturns
  · cases hclean : firstFailure? (turns.flatMap Turn.calls) with
    | none =>
      have hprefix : due ((e₂.cards phase).take i) <+: due (e₂.cards phase) := (List.take_prefix i _).filterMap _
      rw [hwaiting hclean, ← hsettled.due] at hprefix
      exact hprefix
    | some failure =>
      have hnone := hjoined (by rw [hclean]; exact Option.some_ne_none _)
      subst hnone
      exact List.nil_prefix
  · intro hdone
    have hi := hfinished hdone
    rw [PhaseRun.IsDone, PhaseRun.calls, firstFailure?_append, firstFailure?_append, Option.or_eq_none_iff,
      Option.or_eq_none_iff] at hdone
    have hlength : (e₂.cards phase).length = i := by
      rw [← length_roster, htook.accounts.roster, hroster₁, hi]
    show applications.map Application.due = turns.filterMap Turn.due?
    rw [hsettled.due, ← hlength, List.take_length]
    exact hwaiting hdone.1.2

/-- Rounds that are a regular run are what a phase has done. -/
theorem ran_rounds {x : Except EngineError PhaseReport}
    (hregular : (e.runOf phase parallel opening turns applications).IsRegular sys)
    (hverdict : Verdict e.members (e.runOf phase parallel opening turns applications).calls x)
    (hdone : ∀ report, x = .ok report → e₃.cards phase = e.cards phase ∧
      report = (e.runOf phase parallel opening turns applications).report sys) :
    Ran sys e (e.runOf phase parallel opening turns applications) (x, e₃) where
  regular := hregular
  frame := rfl
  systems := rfl
  accounts := accounts_rounds htells htook hsettled
  verdict := hverdict
  others _ hne := others_rounds htells htook hsettled hne
  done := hdone

end rounds

theorem phaseBody_ran (sys : System σ ρ ε) (hplace : e.InPlace) (hidle : e.IsIdle) (phase : Phase) (dt : Float32)
    (parallel : Bool) :
    ∃ run : PhaseRun ρ, run.phase = phase ∧ run.parallel = parallel ∧
      Ran sys e run (phaseBody sys.recorded phase dt parallel e) := by
  unfold phaseBody
  obtain ⟨opening, htells, hopening, _⟩ := deliver_tells sys e
  rcases hresult : deliver sys.recorded e with ⟨err | _, e₁⟩ <;> rw [hresult] at htells hopening
  -- the opening has failed: nobody takes a turn
  · have htook := TookAll.refl sys phase parallel e₁
    have hsettled := SettledAll.refl phase e₁
    have hblames : Blames e.members (e.runOf phase parallel opening [] []).calls err :=
      (Blames.before hopening _).before _
    have hregular := isRegular_rounds htells htook hsettled hidle (fun _ => rfl) (by simp)
      (fun h => absurd h (Blames.failed hopening)) (fun _ => rfl) (by simp) fun hdone => absurd hdone hblames.failed
    exact ⟨e.runOf phase parallel opening [] [], rfl, rfl, ran_rounds htells htook hsettled hregular hblames nofun⟩
  have hroster₁ := (htells.accounts phase).roster
  obtain ⟨turns, htook, hturns, hstopped, hcomplete⟩ :=
    updateAll_took sys phase (hplace.congr hroster₁) dt parallel
  rw [(htells.accounts phase).members] at hturns
  rw [hroster₁] at hcomplete
  have hclean : firstFailure? opening = none := hopening
  dsimp only
  rcases hresult : updateAll sys.recorded phase dt parallel e₁ with ⟨err | _, e₂⟩ <;> rw [hresult] at htook hturns
  -- a turn has failed: nothing is applied
  · have hsettled := SettledAll.refl phase e₂
    have hblames : Blames e.members (e.runOf phase parallel opening turns []).calls err :=
      (Blames.after hturns hclean).before _
    have hregular := isRegular_rounds htells htook hsettled hidle (fun h => absurd hclean h) hstopped
      (fun _ => hcomplete) (fun _ => rfl) (by simp) fun hdone => absurd hdone hblames.failed
    exact ⟨e.runOf phase parallel opening turns [], rfl, rfl, ran_rounds htells htook hsettled hregular hblames nofun⟩
  have hroster₂ : ∀ phase', e₂.roster phase' = e.roster phase' := fun phase' =>
    (htook.accounts.roster phase').trans (hroster₁ phase')
  have hupdated : firstFailure? (opening ++ turns.flatMap Turn.calls) = none := Verdict.after hturns hclean
  obtain ⟨i, applications, hsettled, hverdict, hbroken, hfinished⟩ :=
    applyAll_settled sys phase (hplace.congr hroster₂)
  rw [members_congr hroster₂] at hverdict
  rw [hroster₂] at hfinished
  have hall := hverdict.after hupdated
  have hlast (hdone : (e.runOf phase parallel opening turns applications).IsDone) :
      firstFailure? (applications.flatMap Application.calls) = none := by
    rw [PhaseRun.IsDone, PhaseRun.calls, firstFailure?_append, Option.or_eq_none_iff] at hdone
    exact hdone.2
  have hregular := isRegular_rounds htells htook hsettled hidle (fun h => absurd hclean h) hstopped (fun _ => hcomplete)
    (fun h => absurd hturns h) hbroken fun hdone => (hfinished (hlast hdone)).1
  dsimp only
  rcases hresult : applyAll sys.recorded phase e₂ with ⟨err | _, a⟩ <;> rw [hresult] at hsettled hall hfinished hverdict
  · exact ⟨e.runOf phase parallel opening turns applications, rfl, rfl,
      ran_rounds htells htook hsettled hregular hall nofun⟩
  · refine ⟨e.runOf phase parallel opening turns applications, rfl, rfl,
      ran_rounds htells htook hsettled hregular hall ?_⟩
    rintro report ⟨⟩
    obtain ⟨hi, hcount, hbytes⟩ := hfinished hverdict
    have hlength : (e₂.cards phase).length = i := by rw [← length_roster, hroster₂, hi]
    have hupdates : (e₁.scheduler.slots.get phase).length = turns.length := by
      rw [hcomplete (.inr hturns), ← hroster₁, length_roster, length_cards]
    constructor
    · show a.engine.cards phase = e.cards phase
      rw [hsettled.cards hverdict, ← hlength, dealt_replicate, hidle]
      exact hroster₂ phase
    · rw [hupdates, hcount, hbytes]
      rfl

end Engine

end Cadence
