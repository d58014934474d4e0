import Cadence.Proofs.Engine.Projection

/-!
Systems that keep a journal of their lives beside the host. A system enters the moments of its life under the number of
the operation that offers it for registration, so that every system ever offered has pages of its own. Between two
operations that register or shut down, the systems that are registered work and nothing else is entered.
-/

namespace Cadence

variable {σ ρ ε α : Type}

/-- A moment in the life of a system. -/
inductive Moment
  | init (done : Bool)
  | told
  | update
  | apply
  | shutdown
  deriving DecidableEq

/-- What a system does between its initialisation and its shutdown. -/
def Moment.IsWork : Moment → Prop
  | told | update | apply => True
  | init _ | shutdown => False

/-- The moments of all lives, each with the number of its system. -/
abbrev Journal := List (Nat × Moment)

/-- A system with the number of the operation that offers it for registration. -/
structure Offered (σ : Type) where
  system : σ
  number : Nat

/-! ### Journals -/

namespace Journal

/-- The moments in the life of one system. -/
def of (number : Nat) (journal : Journal) : List Moment :=
  journal.filterMap fun entry => if entry.1 = number then some entry.2 else none

theorem of_append (number : Nat) (journal journal' : Journal) :
    (journal ++ journal').of number = journal.of number ++ journal'.of number := List.filterMap_append ..

theorem of_eq_nil {number : Nat} {journal : Journal} (h : ∀ entry ∈ journal, entry.1 ≠ number) :
    journal.of number = [] := by
  refine List.filterMap_eq_nil_iff.mpr fun entry hmem => ?_
  rw [if_neg (h entry hmem)]

theorem of_eq_map {number : Nat} {journal : Journal} (h : ∀ entry ∈ journal, entry.1 = number) :
    journal.of number = journal.map (·.2) := by
  induction journal with
  | nil => rfl
  | cons entry rest ih =>
    obtain ⟨hentry, hrest⟩ := List.forall_mem_cons.mp h
    unfold of at ih ⊢
    rw [List.filterMap_cons, if_pos hentry, ih hrest]
    rfl

/-- What some systems have entered since is work. -/
def AddsWork (who : Nat → Prop) (journal journal' : Journal) : Prop :=
  ∃ entries : Journal, journal' = journal ++ entries ∧ ∀ entry ∈ entries, who entry.1 ∧ entry.2.IsWork

namespace AddsWork

variable {who who' : Nat → Prop} {journal journal' journal'' : Journal}

theorem refl (who : Nat → Prop) (journal : Journal) : AddsWork who journal journal :=
  ⟨[], (List.append_nil _).symm, by simp⟩

theorem trans (h : AddsWork who journal journal') (h' : AddsWork who journal' journal'') :
    AddsWork who journal journal'' := by
  obtain ⟨xs, rfl, hxs⟩ := h
  obtain ⟨ys, rfl, hys⟩ := h'
  exact ⟨xs ++ ys, List.append_assoc .., List.forall_mem_append.mpr ⟨hxs, hys⟩⟩

theorem mono (h : AddsWork who journal journal') (hsub : ∀ number, who number → who' number) :
    AddsWork who' journal journal' := by
  obtain ⟨entries, heq, hentries⟩ := h
  exact ⟨entries, heq, fun entry hmem => ⟨hsub _ (hentries entry hmem).1, (hentries entry hmem).2⟩⟩

theorem single {number : Nat} {moment : Moment} (hwho : who number) (hwork : moment.IsWork) :
    AddsWork who journal (journal ++ [(number, moment)]) :=
  ⟨[(number, moment)], rfl, by simpa using ⟨hwho, hwork⟩⟩

/-- A life goes on with work, if it goes on at all. -/
theorem exists_of (h : AddsWork who journal journal') (number : Nat) :
    ∃ moments, journal'.of number = journal.of number ++ moments ∧ (∀ moment ∈ moments, moment.IsWork) ∧
      (¬ who number → moments = []) := by
  obtain ⟨entries, rfl, hentries⟩ := h
  refine ⟨entries.of number, of_append .., fun moment hmem => ?_, fun hnot => of_eq_nil fun entry hmem hsame => ?_⟩
  · obtain ⟨entry, hentry, hmoment⟩ := List.mem_filterMap.mp hmem
    split at hmoment
    · cases hmoment
      exact (hentries entry hentry).2
    · cases hmoment
  · exact hnot (hsame ▸ (hentries entry hmem).1)

end AddsWork

end Journal

/-! ### Systems that keep the journal -/

/-- The answer of a system that enters a moment of its life. -/
def Reply.entered (r : Reply σ ε α) (number : Nat) (journal : Journal) (moment : Moment) :
    Reply (Offered σ) (ε × Journal) α :=
  ⟨r.outcome, ⟨r.system, number⟩, r.host, journal ++ [(number, moment)]⟩

def DrawReply.entered (r : DrawReply σ ε α) (number : Nat) (journal : Journal) (moment : Moment) :
    DrawReply (Offered σ) (ε × Journal) α :=
  { r.toReply.entered number journal moment with drawn := r.drawn }

def WriteReply.entered (r : WriteReply σ ε α) (number : Nat) (journal : Journal) (moment : Moment) :
    WriteReply (Offered σ) (ε × Journal) α :=
  { r.toDrawReply.entered number journal moment with world := r.world }

namespace System

/-- The same systems, entering the moments of their lives in a journal beside the host. -/
def journaled (sys : System σ ρ ε) : System (Offered σ) ρ (ε × Journal) where
  name s := sys.name s.system
  version s := sys.version s.system
  init world phase id s host :=
    let reply := sys.init world phase id s.system host.1
    reply.entered s.number host.2 (.init reply.outcome.isOk)
  accepts s := sys.accepts s.system
  added h owner c s host := (sys.added h owner c s.system host.1).entered s.number host.2 .told
  removed h owner c s host := (sys.removed h owner c s.system host.1).entered s.number host.2 .told
  update ctx dt s host := (sys.update ctx dt s.system host.1).entered s.number host.2 .update
  updateSerial ctx dt s host := (sys.updateSerial ctx dt s.system host.1).entered s.number host.2 .update
  apply result ctx s host := (sys.apply result ctx s.system host.1).entered s.number host.2 .apply
  shutdown s host := (sys.shutdown s.system host.1, host.2 ++ [(s.number, .shutdown)])
  duplicate result host :=
    let (copy, left) := sys.duplicate result host.1
    (copy, left, host.2)
  release result host := (sys.release result host.1, host.2)
  byteSize := sys.byteSize

theorem journaled_simulates (sys : System σ ρ ε) : Simulates sys.journaled sys Offered.system Prod.fst where
  name _ := rfl
  version _ := rfl
  init _ _ _ _ _ := rfl
  accepts _ _ := rfl
  added _ _ _ _ _ := rfl
  removed _ _ _ _ _ := rfl
  update _ _ _ _ := rfl
  updateSerial _ _ _ _ := rfl
  apply _ _ _ _ := rfl
  shutdown _ _ := rfl
  duplicate _ _ := rfl
  release _ _ := rfl
  byteSize _ := rfl

end System

/-! ### Who is registered -/

/-- The id and the number of a registered system. -/
def Slot.badge (slot : Slot (Offered σ) ρ) : Nat × Nat := (slot.id, slot.system.number)

/-- An engine whose systems keep a journal. -/
abbrev Journaled (σ ρ ε : Type) := Engine (Offered σ) ρ (ε × Journal)

namespace Engine

def journal (e : Journaled σ ρ ε) : Journal := e.host.2

def badges (e : Journaled σ ρ ε) (phase : Phase) : List (Nat × Nat) := (e.scheduler.slots.get phase).map Slot.badge

/-- A system with this number is registered. -/
def Holds (e : Journaled σ ρ ε) (number : Nat) : Prop := ∃ phase, number ∈ (e.badges phase).map (·.2)

theorem holds_of_slot {e : Journaled σ ρ ε} {phase : Phase} {i : Nat} {slot : Slot (Offered σ) ρ}
    (hslot : e.slotAt? phase i = some slot) : e.Holds slot.system.number := by
  refine ⟨phase, List.mem_map.mpr ⟨slot.badge, List.mem_map.mpr ⟨slot, List.mem_of_getElem? hslot, rfl⟩, rfl⟩⟩

/-- Between two moments those who are registered have worked, and nobody has come or gone. -/
structure Works (e e' : Journaled σ ρ ε) : Prop where
  badges : ∀ phase, e'.badges phase = e.badges phase
  scheduler : ∃ slots next frame poisoned, e'.scheduler = { e.scheduler with slots, next, frame, poisoned }
  journal : Journal.AddsWork e.Holds e.journal e'.journal

namespace Works

variable {e e' e'' : Journaled σ ρ ε}

theorem refl (e : Journaled σ ρ ε) : Works e e := ⟨fun _ => rfl, ⟨_, _, _, _, rfl⟩, .refl ..⟩

theorem holds (h : Works e e') (number : Nat) : e'.Holds number ↔ e.Holds number := by
  unfold Holds
  simp only [h.badges]

theorem trans (h : Works e e') (h' : Works e' e'') : Works e e'' where
  badges phase := (h'.badges phase).trans (h.badges phase)
  scheduler := by
    obtain ⟨_, _, _, _, heq⟩ := h.scheduler
    obtain ⟨slots, next, frame, poisoned, heq'⟩ := h'.scheduler
    exact ⟨slots, next, frame, poisoned, by rw [heq', heq]⟩
  journal := h.journal.trans (h'.journal.mono fun number => (h.holds number).mp)

/-- Where the systems and the journal are the same, nothing has happened. -/
theorem of_same (hscheduler : ∃ next frame poisoned, e'.scheduler = { e.scheduler with next, frame, poisoned })
    (hjournal : e'.journal = e.journal) : Works e e' := by
  obtain ⟨next, frame, poisoned, heq⟩ := hscheduler
  refine ⟨fun phase => ?_, ⟨_, next, frame, poisoned, heq⟩, hjournal ▸ .refl ..⟩
  rw [Engine.badges, Engine.badges, heq]

theorem badges_after {phase : Phase} {i : Nat} {slot : Slot (Offered σ) ρ} (hslot : e.slotAt? phase i = some slot)
    (world : World) (host : ε × Journal) (drawn : Array Primitive) {f : Slot (Offered σ) ρ → Slot (Offered σ) ρ}
    (hf : (f slot).badge = slot.badge) (phase' : Phase) :
    (e.after phase i world host drawn f).badges phase' = e.badges phase' := by
  rw [Engine.badges, scheduler_after, ByPhase.get_modify]
  split
  · rename_i hphase
    subst hphase
    have hsame : (f slot).badge = id slot.badge := hf
    rw [map_modify_at hslot hsame, List.modify_id]
    rfl
  · rfl

/-- A system that is called works. -/
theorem after {phase : Phase} {i : Nat} {slot : Slot (Offered σ) ρ} (hslot : e.slotAt? phase i = some slot)
    (world : World) {host : ε × Journal} (drawn : Array Primitive) {f : Slot (Offered σ) ρ → Slot (Offered σ) ρ}
    (hf : (f slot).badge = slot.badge) (moment : Moment) (hwork : moment.IsWork)
    (hhost : host.2 = e.journal ++ [(slot.system.number, moment)]) :
    Works e (e.after phase i world host drawn f) where
  badges := badges_after hslot world host drawn hf
  scheduler := by
    rw [scheduler_after]
    exact ⟨_, _, _, _, rfl⟩
  journal := by
    rw [Engine.journal, Engine.journal, host_after, hhost]
    exact .single (holds_of_slot hslot) hwork

theorem abort (h : Works e e') (phase : Phase) : Works e (e'.abort phase) where
  badges phase' := by
    rw [← h.badges, Engine.badges, Engine.badges, Engine.abort]
    rw [ByPhase.get_modify]
    split
    · rename_i hphase
      subst hphase
      rw [List.map_map]
      rfl
    · rfl
  scheduler := by
    obtain ⟨_, next, frame, _, heq⟩ := h.scheduler
    refine ⟨(e'.abort phase).scheduler.slots, next, frame, true, ?_⟩
    rw [Engine.abort, heq]
  journal := h.journal

end Works

end Engine

/-! ### Routing -/

namespace System

variable (sys : System σ ρ ε) (event : Event) (c : Component)

theorem journaled_notify (s : Offered σ) (host : ε × Journal) :
    sys.journaled.notify event c s host = (sys.notify event c s.system host.1).entered s.number host.2 .told := by
  cases event <;> rfl

theorem badges_notifyAll (slots : List (Slot (Offered σ) ρ)) (host : ε × Journal) :
    let r := sys.journaled.notifyAll event c slots host
    r.2.1.map Slot.badge = slots.map Slot.badge ∧
      Journal.AddsWork (· ∈ (slots.map Slot.badge).map (·.2)) host.2 r.2.2.2 := by
  induction slots generalizing host with
  | nil => exact ⟨rfl, .refl ..⟩
  | cons slot rest ih =>
    have hrest (host : ε × Journal) : Journal.AddsWork (· ∈ ((slot :: rest).map Slot.badge).map (·.2)) host.2
        (sys.journaled.notifyAll event c rest host).2.2.2 := (ih host).2.mono fun _ => List.mem_cons_of_mem _
    unfold notifyAll
    split
    · rw [journaled_notify]
      obtain ⟨outcome, s, host₁⟩ := sys.notify event c slot.system.system host.1
      have htold : Journal.AddsWork (· ∈ ((slot :: rest).map Slot.badge).map (·.2)) host.2
          (host.2 ++ [(slot.system.number, .told)]) := .single (by simp [Slot.badge]) trivial
      cases outcome with
      | error fault => exact ⟨rfl, htold⟩
      | ok _ =>
        obtain ⟨hbadges, _⟩ := ih (host₁, host.2 ++ [(slot.system.number, .told)])
        exact ⟨congrArg (slot.badge :: ·) hbadges, htold.trans (hrest _)⟩
    · exact ⟨congrArg (slot.badge :: ·) (ih host).1, hrest host⟩

theorem badges_notifyPhases (slots : ByPhase (List (Slot (Offered σ) ρ))) (host : ε × Journal) :
    let r := sys.journaled.notifyPhases event c slots host
    (∀ phase, (r.2.1.get phase).map Slot.badge = (slots.get phase).map Slot.badge) ∧
      Journal.AddsWork (fun number => ∃ phase, number ∈ ((slots.get phase).map Slot.badge).map (·.2)) host.2
        r.2.2.2 := by
  have hin {journal journal' : Journal} (phase : Phase)
      (h : Journal.AddsWork (· ∈ ((slots.get phase).map Slot.badge).map (·.2)) journal journal') :
      Journal.AddsWork (fun number => ∃ phase, number ∈ ((slots.get phase).map Slot.badge).map (·.2)) journal
        journal' := h.mono fun _ hmem => ⟨phase, hmem⟩
  unfold notifyPhases
  obtain ⟨hbadges₁, hwork₁⟩ := sys.badges_notifyAll event c slots.early host
  rcases hresult : sys.journaled.notifyAll event c slots.early host with ⟨err | _, early, host₁⟩ <;>
    rw [hresult] at hbadges₁ hwork₁
  · refine ⟨fun phase => ?_, hin .early hwork₁⟩
    cases phase with
    | early => exact hbadges₁
    | script => rfl
    | late => rfl
  obtain ⟨hbadges₂, hwork₂⟩ := sys.badges_notifyAll event c slots.script host₁
  dsimp only
  rcases hresult : sys.journaled.notifyAll event c slots.script host₁ with ⟨err | _, script, host₂⟩ <;>
    rw [hresult] at hbadges₂ hwork₂
  · refine ⟨fun phase => ?_, (hin .early hwork₁).trans (hin .script hwork₂)⟩
    cases phase with
    | early => exact hbadges₁
    | script => exact hbadges₂
    | late => rfl
  obtain ⟨hbadges₃, hwork₃⟩ := sys.badges_notifyAll event c slots.late host₂
  refine ⟨fun phase => ?_, ((hin .early hwork₁).trans (hin .script hwork₂)).trans (hin .late hwork₃)⟩
  cases phase with
  | early => exact hbadges₁
  | script => exact hbadges₂
  | late => exact hbadges₃

end System

namespace Engine

variable (sys : System σ ρ ε) {e e₀ : Journaled σ ρ ε}

theorem works_route (e : Journaled σ ρ ε) (event : Event) : Works e (route sys.journaled e event).2 := by
  unfold route
  split
  · exact .refl e
  · rename_i c _
    obtain ⟨hbadges, hwork⟩ := sys.badges_notifyPhases event c e.scheduler.slots e.host
    exact ⟨hbadges, ⟨_, _, _, _, rfl⟩, hwork⟩

theorem works_deliver (e : Journaled σ ρ ε) : Works e (deliver sys.journaled e).2 := by
  have hstart : Works e { e with world := e.world.drain.2 } := .of_same ⟨_, _, _, rfl⟩ rfl
  have hall : Leaves (fun _ e' => Works e e') (fun _ e' => Works e e')
      (inOrder (route sys.journaled) { e with world := e.world.drain.2 } e.world.events.toList) := by
    refine leaves_inOrder (I := Works e) (fun e' event _ h => ?_) hstart
    exact .of_snd (I := Works e) (h.trans (works_route sys e' event))
  rw [deliver_eq]
  rcases hresult : inOrder (route sys.journaled) { e with world := e.world.drain.2 } e.world.events.toList with
    ⟨err | _, e'⟩
  · exact (hall.of_error hresult).trans (.of_same ⟨_, _, _, rfl⟩ rfl)
  · exact hall.of_ok hresult

/-! ### Phases and frames -/

theorem journaled_handOff (result : Option ρ) (host : ε × Journal) :
    (sys.journaled.handOff result host).2.2 = host.2 := by
  cases result <;> rfl

/-- Whoever is called in a phase is registered and works. -/
theorem works_rule (e₀ : Journaled σ ρ ε) : PhaseRule sys.journaled fun _ e => Works e₀ e where
  deliver {_ e} h := .of_snd (I := Works e₀) (h.trans (works_deliver sys e))
  begin {phase e} h _ := by
    refine h.trans ?_
    unfold beginPhase
    split
    · exact .of_same ⟨_, _, _, rfl⟩ rfl
    · exact .refl e
  serial {phase dt i e slot reply result} h _ hslot hreply _ := by
    subst hreply
    exact h.trans (.after hslot _ _ rfl .update trivial rfl)
  serial_error {phase dt i e slot reply fault} h _ hslot hreply _ := by
    subst hreply
    exact h.trans (.after hslot _ _ rfl .update trivial rfl)
  worker {phase dt i failed e slot reply result} h _ hslot hreply _ := by
    subst hreply
    exact h.trans (.after hslot _ _ rfl .update trivial (journaled_handOff ..))
  worker_error {phase dt i failed e slot reply fault} h _ hslot hreply _ := by
    subst hreply
    exact h.trans (.after hslot _ _ rfl .update trivial rfl)
  join h := h
  turn h _ := h
  skip h _ _ := h
  apply {phase i e slot result reply} h _ hslot _ hreply _ := by
    subst hreply
    exact h.trans (.after hslot _ _ rfl .apply trivial rfl)
  apply_error {phase i e slot result reply fault} h _ hslot _ hreply _ := by
    subst hreply
    exact h.trans (.after hslot _ _ rfl .apply trivial rfl)
  finish h _ := h.trans (.of_same ⟨_, _, _, rfl⟩ rfl)
  abort {phase e} h := h.abort phase

theorem works_endFrame (h : Works e₀ e) : Works e₀ (endFrame sys.journaled e).2 := by
  rw [endFrame]
  cases e.scheduler.check .endOfFrame with
  | error err => exact h
  | ok _ =>
    have hdelivered := h.trans (works_deliver sys e)
    dsimp only
    rcases hresult : deliver sys.journaled e with ⟨err | _, e₁⟩ <;> rw [hresult] at hdelivered
    · exact hdelivered.abort .late
    · exact hdelivered.trans (.of_same ⟨_, _, _, rfl⟩ rfl)

theorem works_runFrame (e : Journaled σ ρ ε) (dt : Float32) : Works e (runFrame sys.journaled e dt).2 := by
  have hphases := (works_rule sys e).between_runPhases dt Phase.all (.refl e)
  rw [runFrame]
  rcases hresult : runPhases sys.journaled e dt Phase.all with ⟨err | reports, e₁⟩ <;> rw [hresult] at hphases
  · exact hphases
  have hend := works_endFrame sys hphases
  dsimp only
  rcases hresult : endFrame sys.journaled e₁ with ⟨err | report, e₂⟩ <;> rw [hresult] at hend <;> exact hend

theorem works_immediately {α : Type} (e : Journaled σ ρ ε) (op : World → Except WorldError α × World) :
    Works e (immediately sys.journaled e op).2 := by
  have hchanged (world : World) : Works e { e with world } := .of_same ⟨_, _, _, rfl⟩ rfl
  rw [immediately]
  rcases op e.world with ⟨err | a, world⟩
  · exact hchanged world
  have hdelivered := (hchanged world).trans (works_deliver sys _)
  dsimp only
  rcases hresult : deliver sys.journaled { e with world } with ⟨err | _, e₁⟩ <;> rw [hresult] at hdelivered <;>
    exact hdelivered

/-- Where nobody is registered or shut down, the registered systems work. -/
theorem works_perform (e : Journaled σ ρ ε) {op : Op (Offered σ)} (hregister : ∀ phase s, op ≠ .register phase s)
    (hshutdown : op ≠ .shutdown) : Works e (perform sys.journaled e op).2 := by
  have hchanged (world : World) : Works e { e with world } := .of_same ⟨_, _, _, rfl⟩ rfl
  cases op with
  | register phase s => exact absurd rfl (hregister phase s)
  | spawn persistent => exact hchanged _
  | attach entity c => exact works_immediately sys e (·.attach entity c)
  | detach handle => exact works_immediately sys e (·.detach handle)
  | mark entity => exact works_immediately sys e (·.mark entity)
  | clear persistentToo => exact works_immediately sys e (·.clear persistentToo)
  | edit change => exact hchanged _
  | runPhase phase dt parallel => exact (works_rule sys e).between_runPhase (.refl e) phase dt parallel
  | endFrame => exact works_endFrame sys (.refl e)
  | runFrame dt => exact works_runFrame sys e dt
  | deliver => exact works_deliver sys e
  | route event => exact works_route sys e event
  | shutdown => exact absurd rfl hshutdown

end Engine

end Cadence
