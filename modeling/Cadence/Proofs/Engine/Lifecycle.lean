import Cadence.Proofs.Engine.Journal
import Mathlib.Data.List.Nodup

/-!
The lives of systems. Whoever is offered for registration is initialised at most once; whoever has been initialised is
shut down exactly once, be it that its registration fails after all or that the scheduler closes, and is called in
between only. A scheduler that closes shuts its systems down in the reverse order of their registration.
-/

namespace Cadence

variable {σ ρ ε : Type}

/-- A life that is over, or has never begun. -/
inductive WholeLife : List Moment → Prop
  | unborn : WholeLife []
  | failed : WholeLife [.init false]
  | lived {work : List Moment} (hwork : ∀ moment ∈ work, moment.IsWork) :
      WholeLife (.init true :: work ++ [.shutdown])

/-- The life of a system that has been initialised and is owed its shutdown. -/
def IsAlive (life : List Moment) : Prop := ∃ work, life = .init true :: work ∧ ∀ moment ∈ work, moment.IsWork

theorem IsAlive.append {life work : List Moment} (h : IsAlive life) (hwork : ∀ moment ∈ work, moment.IsWork) :
    IsAlive (life ++ work) := by
  obtain ⟨before, rfl, hbefore⟩ := h
  exact ⟨before ++ work, List.cons_append .., List.forall_mem_append.mpr ⟨hbefore, hwork⟩⟩

theorem IsAlive.ended {life : List Moment} (h : IsAlive life) : WholeLife (life ++ [.shutdown]) := by
  obtain ⟨work, rfl, hwork⟩ := h
  exact .lived hwork

namespace Journal

/-- The entry of everybody on a roll, seen from one of them. -/
theorem of_roll {roll : List (Nat × Nat)} (hdistinct : (roll.map (·.2)).Nodup) (number : Nat) (moment : Moment) :
    Journal.of number (roll.map fun badge => (badge.2, moment)) = if number ∈ roll.map (·.2) then [moment] else [] := by
  induction roll with
  | nil => rfl
  | cons badge rest ih =>
    rw [List.map_cons, List.nodup_cons] at hdistinct
    have hrest := ih hdistinct.2
    unfold Journal.of at hrest ⊢
    rw [List.map_cons, List.filterMap_cons, hrest]
    by_cases hsame : badge.2 = number
    · subst hsame
      rw [if_pos rfl, if_neg hdistinct.1, if_pos (by simp)]
    · have hiff : number ∈ (badge :: rest).map (·.2) ↔ number ∈ rest.map (·.2) := by simp [Ne.symm hsame]
      rw [if_neg hsame]
      simp only [hiff]

end Journal

namespace Engine

variable {sys : System σ ρ ε} {e e' : Journaled σ ρ ε} {n : Nat} {roll : List (Nat × Nat)}

/-! ### The roll -/

/-- After `n` operations the systems on the roll, each with its id and its number, are registered, in the order of the
roll. They are alive, and all others have lived or will never live. -/
structure Enrolled (n : Nat) (roll : List (Nat × Nat)) (e : Journaled σ ρ ε) : Prop where
  order : roll.Pairwise fun a b => a.1 < b.1 ∧ a.2 < b.2
  bound : ∀ badge ∈ roll, badge.1 < e.scheduler.nextId ∧ badge.2 < n
  listed : (Phase.all.flatMap e.badges).Perm roll
  closed : e.scheduler.closed = true → roll = []
  alive : ∀ number ∈ roll.map (·.2), IsAlive (e.journal.of number)
  whole : ∀ number ∉ roll.map (·.2), WholeLife (e.journal.of number)
  fresh : ∀ number, n ≤ number → e.journal.of number = []

namespace Enrolled

theorem start (settings : Settings.Scheduling) (screen : Screen) (host : ε) :
    Enrolled 0 [] (start settings screen (host, []) : Journaled σ ρ ε) where
  order := .nil
  bound := by simp
  listed := .refl _
  closed _ := rfl
  alive := by simp
  whole _ _ := .unborn
  fresh _ _ := rfl

theorem holds_iff (h : Enrolled n roll e) (number : Nat) : e.Holds number ↔ number ∈ roll.map (·.2) := by
  rw [← (h.listed.map (·.2)).mem_iff]
  constructor
  · rintro ⟨phase, hmem⟩
    obtain ⟨badge, hbadge, rfl⟩ := List.mem_map.mp hmem
    exact List.mem_map.mpr ⟨badge, List.mem_flatMap.mpr ⟨phase, phase.mem_all, hbadge⟩, rfl⟩
  · intro hmem
    obtain ⟨badge, hbadge, rfl⟩ := List.mem_map.mp hmem
    obtain ⟨phase, _, hbadge⟩ := List.mem_flatMap.mp hbadge
    exact ⟨phase, List.mem_map.mpr ⟨badge, hbadge, rfl⟩⟩

theorem lt_of_mem (h : Enrolled n roll e) {number : Nat} (hmem : number ∈ roll.map (·.2)) : number < n := by
  obtain ⟨badge, hbadge, rfl⟩ := List.mem_map.mp hmem
  exact (h.bound badge hbadge).2

theorem nodup (h : Enrolled n roll e) : (roll.map (·.2)).Nodup :=
  List.pairwise_map.mpr (h.order.imp fun hlt => Nat.ne_of_lt hlt.2)

/-- The registered systems work on. -/
theorem works (h : Enrolled n roll e) (hworks : Works e e') : Enrolled n roll e' where
  order := h.order
  bound := by
    obtain ⟨_, _, _, _, heq⟩ := hworks.scheduler
    rw [heq]
    exact h.bound
  listed := by
    have hsame : e'.badges = e.badges := funext hworks.badges
    rw [hsame]
    exact h.listed
  closed := by
    obtain ⟨_, _, _, _, heq⟩ := hworks.scheduler
    rw [heq]
    exact h.closed
  alive number hmem := by
    obtain ⟨work, heq, hwork, _⟩ := hworks.journal.exists_of number
    rw [heq]
    exact (h.alive number hmem).append hwork
  whole number hmem := by
    obtain ⟨work, heq, _, hnone⟩ := hworks.journal.exists_of number
    rw [heq, hnone fun hholds => hmem ((h.holds_iff number).mp hholds), List.append_nil]
    exact h.whole number hmem
  fresh number hle := by
    obtain ⟨work, heq, _, hnone⟩ := hworks.journal.exists_of number
    have hnot : ¬ e.Holds number := fun hholds =>
      absurd (h.lt_of_mem ((h.holds_iff number).mp hholds)) (Nat.not_lt.mpr hle)
    rw [heq, hnone hnot, h.fresh number hle]
    rfl

/-! ### The next number -/

/-- Entries of the next number only are the life of its system, and nobody else's. -/
theorem of_next (h : Enrolled n roll e) {entries : Journal} (hentries : ∀ entry ∈ entries, entry.1 = n)
    (hjournal : e'.journal = e.journal ++ entries) (number : Nat) :
    e'.journal.of number = if number = n then entries.map (·.2) else e.journal.of number := by
  rw [hjournal, Journal.of_append]
  split
  · rename_i hsame
    subst hsame
    rw [h.fresh number (Nat.le_refl number), Journal.of_eq_map hentries, List.nil_append]
  · rename_i hne
    rw [Journal.of_eq_nil fun entry hmem hsame => hne (hsame.symm.trans (hentries entry hmem)), List.append_nil]

/-- The next system is not registered. -/
theorem passed (h : Enrolled n roll e) (entries : Journal) (hscheduler : e'.scheduler = e.scheduler)
    (hjournal : e'.journal = e.journal ++ entries) (hentries : ∀ entry ∈ entries, entry.1 = n)
    (hlife : WholeLife (entries.map (·.2))) : Enrolled (n + 1) roll e' := by
  have hof := h.of_next hentries hjournal
  refine ⟨h.order, fun badge hmem => ?_, ?_, hscheduler ▸ h.closed, fun number hmem => ?_, fun number hmem => ?_,
    fun number hle => ?_⟩
  · rw [hscheduler]
    exact ⟨(h.bound badge hmem).1, Nat.lt_succ_of_lt (h.bound badge hmem).2⟩
  · have hsame : e'.badges = e.badges := funext fun phase => by rw [badges, badges, hscheduler]
    rw [hsame]
    exact h.listed
  · rw [hof, if_neg (Nat.ne_of_lt (h.lt_of_mem hmem))]
    exact h.alive number hmem
  · rw [hof]
    split
    · exact hlife
    · exact h.whole number hmem
  · rw [hof, if_neg (by omega)]
    exact h.fresh number (by omega)

theorem succ (h : Enrolled n roll e) : Enrolled (n + 1) roll e :=
  h.passed [] rfl (List.append_nil _).symm (by simp) .unborn

/-- The next system is registered. -/
theorem joined (h : Enrolled n roll e) (hopen : e.scheduler.closed = false) {phase : Phase}
    {slot : Slot (Offered σ) ρ} (hbadge : slot.badge = (e.scheduler.nextId, n)) {names : List String}
    (hscheduler : e'.scheduler = { e.scheduler with
      slots := e.scheduler.slots.modify phase (· ++ [slot]), names, nextId := e.scheduler.nextId + 1 })
    (entries : Journal) (hjournal : e'.journal = e.journal ++ entries) (hentries : ∀ entry ∈ entries, entry.1 = n)
    (hlife : IsAlive (entries.map (·.2))) : Enrolled (n + 1) (roll ++ [(e.scheduler.nextId, n)]) e' := by
  have hof := h.of_next hentries hjournal
  have hmem_iff (number : Nat) : number ∈ (roll ++ [(e.scheduler.nextId, n)]).map (·.2) ↔
      number ∈ roll.map (·.2) ∨ number = n := by simp
  refine ⟨?_, fun badge hmem => ?_, ?_, fun hclosed => ?_, fun number hmem => ?_, fun number hmem => ?_,
    fun number hle => ?_⟩
  · refine List.pairwise_append.mpr ⟨h.order, List.pairwise_singleton .., fun a ha b hb => ?_⟩
    rw [List.mem_singleton.mp hb]
    exact h.bound a ha
  · rw [hscheduler]
    obtain hmem | hmem := List.mem_append.mp hmem
    · have hbound := h.bound badge hmem
      exact ⟨Nat.lt_succ_of_lt hbound.1, Nat.lt_succ_of_lt hbound.2⟩
    · rw [List.mem_singleton.mp hmem]
      exact ⟨Nat.lt_succ_self _, Nat.lt_succ_self _⟩
  · have hbadges (phase' : Phase) : e'.badges phase' =
        if phase' = phase then e.badges phase ++ [(e.scheduler.nextId, n)] else e.badges phase' := by
      rw [badges, hscheduler, ByPhase.get_modify]
      split
      · rw [List.map_append, List.map_singleton, hbadge]
        rfl
      · rfl
    refine List.Perm.trans (List.perm_iff_count.mpr fun badge => ?_) (h.listed.append_right _)
    cases phase <;> simp [Phase.all, hbadges, List.count_append, List.count_cons]
    omega
  · rw [hscheduler, hopen] at hclosed
    cases hclosed
  · rw [hof]
    split
    · exact hlife
    · exact h.alive number (((hmem_iff number).mp hmem).resolve_right ‹_›)
  · rw [hmem_iff, not_or] at hmem
    rw [hof, if_neg hmem.2]
    exact h.whole number hmem.1
  · rw [hof, if_neg (by omega)]
    exact h.fresh number (by omega)

end Enrolled

/-! ### Registration -/

theorem works_offers (sys : System σ ρ ε) (s : Offered σ) (host : ε × Journal)
    (items : List (Handle × Entity × Component)) :
    let left := (inOrder (offer sys.journaled) (s, host) items).2
    left.1.number = s.number ∧ Journal.AddsWork (· = s.number) host.2 left.2.2 := by
  let Told (state : Offered σ × ε × Journal) : Prop :=
    state.1.number = s.number ∧ Journal.AddsWork (· = s.number) host.2 state.2.2
  have hstep (state : Offered σ × ε × Journal) (item : Handle × Entity × Component) (_ : item ∈ items)
      (h : Told state) : Leaves (fun _ => Told) (fun _ => Told) (offer sys.journaled state item) := by
    obtain ⟨s', host'⟩ := state
    obtain ⟨handle, owner, c⟩ := item
    refine .of_snd (I := Told) ?_
    rw [offer]
    dsimp only
    split
    · exact ⟨h.1, h.2.trans (.single h.1 trivial)⟩
    · exact h
  exact (leaves_inOrder (I := Told) hstep ⟨rfl, .refl ..⟩).snd

/-- A system that has been initialised and then told of components is alive. -/
theorem exists_life {before initialised told : Journal} (hinit : initialised = before ++ [(n, .init true)])
    (htold : Journal.AddsWork (· = n) initialised told) :
    ∃ entries, told = before ++ entries ∧ (∀ entry ∈ entries, entry.1 = n) ∧ IsAlive (entries.map (·.2)) := by
  obtain ⟨entries, rfl, hentries⟩ := htold
  refine ⟨(n, .init true) :: entries, ?_, List.forall_mem_cons.mpr ⟨rfl, fun entry hmem => (hentries entry hmem).1⟩,
    entries.map (·.2), rfl, List.forall_mem_map.mpr fun entry hmem => (hentries entry hmem).2⟩
  rw [hinit, List.append_assoc]
  rfl

/-- A system is enrolled if its registration is done; otherwise its life is over at once. -/
theorem enrolled_register (sys : System σ ρ ε) (h : Enrolled n roll e) (phase : Phase) (s : σ) :
    Leaves (fun id e' => Enrolled (n + 1) (roll ++ [(id, n)]) e') (fun _ e' => Enrolled (n + 1) roll e')
      (register sys.journaled e phase ⟨s, n⟩) := by
  have hdelivered := works_deliver sys e
  rw [register]
  dsimp only
  split
  · exact h.succ
  rename_i hopen
  split
  · exact h.succ
  split
  · exact h.succ
  rcases hresult : deliver sys.journaled e with ⟨err | _, e₁⟩ <;> rw [hresult] at hdelivered
  · exact (h.works hdelivered).succ
  have h₁ := h.works hdelivered
  have hopen₁ : e₁.scheduler.closed = false := by
    obtain ⟨_, _, _, _, heq⟩ := hdelivered.scheduler
    rw [heq]
    simpa using hopen
  dsimp only
  generalize hreply : sys.journaled.init e₁.world phase e₁.scheduler.nextId ⟨s, n⟩ e₁.host = reply
  have hnumber : reply.system.number = n := by rw [← hreply]; rfl
  have hinit : reply.host.2 = e₁.journal ++ [(n, .init reply.outcome.isOk)] := by rw [← hreply]; rfl
  cases houtcome : reply.outcome with
  | error fault =>
    rw [houtcome] at hinit
    exact h₁.passed _ rfl hinit (by simp) .failed
  | ok _ =>
    rw [houtcome] at hinit
    obtain ⟨hsame, htold⟩ := works_offers sys reply.system reply.host e₁.world.store.attached
    rw [hnumber] at hsame htold
    dsimp only
    obtain ⟨entries, hjournal, hentries, halive⟩ := exists_life hinit htold
    rcases hoffers : inOrder (offer sys.journaled) (reply.system, reply.host) e₁.world.store.attached with
      ⟨fault | _, s₂, host₂⟩ <;> rw [hoffers] at hsame hjournal
    · dsimp only at hsame hjournal ⊢
      refine h₁.passed (entries ++ [(n, .shutdown)]) rfl ?_ (List.forall_mem_append.mpr ⟨hentries, by simp⟩) ?_
      · show host₂.2 ++ [(s₂.number, .shutdown)] = _
        rw [hjournal, hsame, List.append_assoc]
      · rw [List.map_append]
        exact halive.ended
    · exact h₁.joined hopen₁ (congrArg (Prod.mk _) hsame) rfl entries hjournal hentries halive

/-! ### Shutdown -/

/-- Sorted by their ids, the last first, the systems stand in the reverse order of the roll. -/
theorem Enrolled.map_mergeSort (h : Enrolled n roll e) :
    (e.scheduler.allSlots.mergeSort fun a b => b.id ≤ a.id).map Slot.badge = roll.reverse := by
  have hall : e.scheduler.allSlots.map Slot.badge = Phase.all.flatMap e.badges := by
    simp [Scheduler.allSlots, ByPhase.toList, Phase.all, badges, ByPhase.get]
  have hperm : ((e.scheduler.allSlots.mergeSort fun a b => b.id ≤ a.id).map Slot.badge).Perm roll.reverse := by
    refine ((List.mergeSort_perm _ _).map Slot.badge).trans ?_
    rw [hall]
    exact h.listed.trans (List.reverse_perm roll).symm
  have hsorted : ((e.scheduler.allSlots.mergeSort fun a b => b.id ≤ a.id).map Slot.badge).Pairwise
      fun a b => b.1 ≤ a.1 := by
    refine List.pairwise_map.mpr ((List.pairwise_mergeSort ?_ ?_ _).imp fun hle => of_decide_eq_true hle)
    · intro a b c hab hbc
      exact decide_eq_true (Nat.le_trans (of_decide_eq_true hbc) (of_decide_eq_true hab))
    · intro a b
      rw [Bool.or_eq_true, decide_eq_true_iff, decide_eq_true_iff]
      exact Nat.le_total b.id a.id
  have hreverse : roll.reverse.Pairwise fun a b => b.1 ≤ a.1 :=
    List.pairwise_reverse.mpr (h.order.imp fun hlt => Nat.le_of_lt hlt.1)
  have hids : (roll.map (·.1)).Nodup := List.pairwise_map.mpr (h.order.imp fun hlt => Nat.ne_of_lt hlt.1)
  refine hperm.eq_of_pairwise (fun a b ha hb hba hab => ?_) hsorted hreverse
  exact List.inj_on_of_nodup_map hids (List.mem_reverse.mp (hperm.mem_iff.mp ha)) (List.mem_reverse.mp hb)
    (Nat.le_antisymm hab hba)

theorem journal_foldl_shutdown (sys : System σ ρ ε) (slots : List (Slot (Offered σ) ρ)) (host : ε × Journal) :
    (slots.foldl (fun host slot => sys.journaled.shutdown slot.system host) host).2 =
      host.2 ++ (slots.map Slot.badge).map fun badge => (badge.2, .shutdown) := by
  induction slots generalizing host with
  | nil => exact (List.append_nil _).symm
  | cons slot rest ih =>
    rw [List.foldl_cons, ih]
    exact List.append_assoc ..

theorem Enrolled.journal_shutdown (h : Enrolled n roll e) :
    (shutdown sys.journaled e).journal = e.journal ++ roll.reverse.map fun badge => (badge.2, .shutdown) := by
  rw [shutdown]
  split
  · rename_i hclosed
    rw [h.closed hclosed]
    exact (List.append_nil _).symm
  · rw [← h.map_mergeSort]
    exact journal_foldl_shutdown ..

theorem Enrolled.shutdown (h : Enrolled n roll e) : Enrolled (n + 1) [] (shutdown sys.journaled e) := by
  have hof (number : Nat) : (Engine.shutdown sys.journaled e).journal.of number =
      e.journal.of number ++ if number ∈ roll.map (·.2) then [.shutdown] else [] := by
    have hdistinct : (roll.reverse.map (·.2)).Nodup := by
      rw [List.map_reverse]
      exact List.nodup_reverse.mpr h.nodup
    have hiff : number ∈ roll.reverse.map (·.2) ↔ number ∈ roll.map (·.2) := by simp
    rw [h.journal_shutdown, Journal.of_append, Journal.of_roll hdistinct]
    simp only [hiff]
  refine ⟨.nil, by simp, ?_, fun _ => rfl, by simp, fun number _ => ?_, fun number hle => ?_⟩
  · rw [Engine.shutdown]
    split
    · rename_i hclosed
      exact h.closed hclosed ▸ h.listed
    · exact .refl _
  · rw [hof]
    split
    · exact (h.alive number ‹_›).ended
    · rw [List.append_nil]
      exact h.whole number ‹_›
  · have hnot : number ∉ roll.map (·.2) := fun hmem => by
      have := h.lt_of_mem hmem
      omega
    rw [hof, if_neg hnot, List.append_nil]
    exact h.fresh number (by omega)

/-! ### Runs of operations -/

/-- Every operation gets a number, and with it the system that it may offer. -/
def numbered (n : Nat) : List (Op σ) → List (Op (Offered σ))
  | [] => []
  | op :: ops => op.map (⟨·, n⟩) :: numbered (n + 1) ops

theorem map_numbered (n : Nat) (ops : List (Op σ)) : (numbered n ops).map (Op.map Offered.system) = ops := by
  induction ops generalizing n with
  | nil => rfl
  | cons op rest ih =>
    have hop : (op.map (⟨·, n⟩ : σ → Offered σ)).map Offered.system = op := by cases op <;> rfl
    rw [numbered, List.map_cons, hop, ih]

theorem numbered_append (n : Nat) (ops ops' : List (Op σ)) :
    numbered n (ops ++ ops') = numbered n ops ++ numbered (n + ops.length) ops' := by
  induction ops generalizing n with
  | nil => rfl
  | cons op rest ih =>
    rw [List.cons_append, numbered, ih, numbered, List.cons_append, List.length_cons]
    congr 3
    omega

/-- Who is registered after an operation with a number, if those of `roll` were before. -/
def enrolling (number : Nat) (roll : List Nat) (op : Op σ) (answer : Except EngineError Answer) : List Nat :=
  match op, answer with
  | .register .., .ok _ => roll ++ [number]
  | .shutdown, _ => []
  | _, _ => roll

/-- Who is registered after a run, by the numbers of the operations and in the order of registration. -/
def enrolled (sys : System σ ρ ε) : Engine σ ρ ε → Nat → List Nat → List (Op σ) → List Nat
  | _, _, roll, [] => roll
  | e, n, roll, op :: ops =>
    let r := perform sys e op
    enrolled sys r.2 (n + 1) (enrolling n roll op r.1) ops

theorem enrolled_perform (sys : System σ ρ ε) (h : Enrolled n roll e) (op : Op σ) :
    let r := perform sys.journaled e (op.map (⟨·, n⟩))
    ∃ roll', Enrolled (n + 1) roll' r.2 ∧ roll'.map (·.2) = enrolling n (roll.map (·.2)) op r.1 := by
  cases op with
  | register phase s =>
    have hregister := enrolled_register sys h phase s
    dsimp only [Op.map, perform]
    rcases hresult : register sys.journaled e phase ⟨s, n⟩ with ⟨err | id, e'⟩ <;> rw [hresult] at hregister
    · exact ⟨roll, hregister, rfl⟩
    · exact ⟨roll ++ [(id, n)], hregister, List.map_append⟩
  | shutdown => exact ⟨[], h.shutdown, rfl⟩
  | _ => exact ⟨roll, (h.works (works_perform sys e (by simp [Op.map]) (by simp [Op.map]))).succ, rfl⟩

theorem enrolled_run (sys : System σ ρ ε) (h : Enrolled n roll e) (ops : List (Op σ)) :
    ∃ roll', Enrolled (n + ops.length) roll' (run sys.journaled e (numbered n ops)) ∧
      roll'.map (·.2) = enrolled sys (e.project Offered.system Prod.fst) n (roll.map (·.2)) ops := by
  induction ops generalizing n roll e with
  | nil => exact ⟨roll, h, rfl⟩
  | cons op rest ih =>
    have hop : (op.map (⟨·, n⟩ : σ → Offered σ)).map Offered.system = op := by cases op <;> rfl
    have hproject := projected_perform sys.journaled_simulates e (op.map (⟨·, n⟩))
    rw [hop] at hproject
    obtain ⟨roll₁, h₁, hroll₁⟩ := enrolled_perform sys h op
    obtain ⟨roll', h', hroll'⟩ := ih h₁
    refine ⟨roll', ?_, ?_⟩
    · rw [List.length_cons, Nat.add_comm rest.length, ← Nat.add_assoc]
      exact h'
    · rw [hroll', hroll₁, enrolled, ← hproject]
      rfl

/-! ### Once the scheduler is closed -/

theorem register_of_closed (sys : System σ ρ ε) {e : Engine σ ρ ε} (hclosed : e.scheduler.closed = true) (phase : Phase)
    (s : σ) : register sys e phase s = (.error .shutDown, e) := if_pos hclosed

/-- A closed scheduler refuses to register and to run anything. -/
theorem perform_of_closed (sys : System σ ρ ε) {e : Engine σ ρ ε} (hclosed : e.scheduler.closed = true) {op : Op σ}
    (hop : op.IsStep ∨ ∃ phase s, op = .register phase s) : perform sys e op = (.error .shutDown, e) := by
  obtain hstep | ⟨phase, s, rfl⟩ := hop
  · exact perform_of_check sys (fun _ => if_pos hclosed) hstep
  · rw [perform, register_of_closed sys hclosed]
    rfl

theorem closed_shutdown (sys : System σ ρ ε) (e : Engine σ ρ ε) : (shutdown sys e).scheduler.closed = true := by
  rw [shutdown]
  split
  · exact ‹_›
  · rfl

/-- A closed scheduler stays closed and calls nobody. -/
theorem quiet_perform (sys : System σ ρ ε) (h : Enrolled n [] e) (hclosed : e.scheduler.closed = true)
    (op : Op (Offered σ)) : let e' := (perform sys.journaled e op).2
    Works e e' ∧ e'.scheduler.closed = true ∧ e'.journal = e.journal := by
  have hworks : Works e (perform sys.journaled e op).2 := by
    cases op with
    | register phase s =>
      rw [perform, register_of_closed sys.journaled hclosed]
      exact .refl e
    | shutdown =>
      rw [perform, shutdown, if_pos hclosed]
      exact .refl e
    | _ => exact works_perform sys e (by simp) (by simp)
  refine ⟨hworks, ?_, ?_⟩
  · obtain ⟨_, _, _, _, heq⟩ := hworks.scheduler
    rw [heq]
    exact hclosed
  · obtain ⟨entries, heq, hentries⟩ := hworks.journal
    have hnil : entries = [] := List.eq_nil_iff_forall_not_mem.mpr fun entry hmem => by
      simpa using (h.holds_iff entry.1).mp (hentries entry hmem).1
    rw [heq, hnil, List.append_nil]

theorem quiet_run (sys : System σ ρ ε) (h : Enrolled n [] e) (hclosed : e.scheduler.closed = true)
    (ops : List (Op (Offered σ))) : let e' := run sys.journaled e ops
    e'.scheduler.closed = true ∧ e'.journal = e.journal := by
  induction ops generalizing e with
  | nil => exact ⟨hclosed, rfl⟩
  | cons op rest ih =>
    obtain ⟨hworks, hclosed', hjournal⟩ := quiet_perform sys h hclosed op
    obtain ⟨hclosed'', hjournal'⟩ := ih (h.works hworks) hclosed'
    exact ⟨hclosed'', hjournal'.trans hjournal⟩

/-! ### Lives -/

/-- A run whose systems keep a journal, from an engine in which nothing has happened yet. -/
def journaledRun (sys : System σ ρ ε) (settings : Settings.Scheduling) (screen : Screen) (host : ε)
    (ops : List (Op σ)) : Journaled σ ρ ε :=
  run sys.journaled (start settings screen (host, [])) (numbered 0 ops)

theorem project_journaledRun (sys : System σ ρ ε) (settings : Settings.Scheduling) (screen : Screen) (host : ε)
    (ops : List (Op σ)) : (journaledRun sys settings screen host ops).project Offered.system Prod.fst =
      run sys (start settings screen host) ops := by
  rw [journaledRun, project_run sys.journaled_simulates, map_numbered]
  rfl

/-- Every life is whole once the scheduler has been dropped, which is a last shutdown. Each shutdown shuts down those who
are registered, the one registered last first, and after it nobody is called and nothing is registered or run. -/
theorem lives_are_whole (sys : System σ ρ ε) (settings : Settings.Scheduling) (screen : Screen) (host : ε)
    (ops : List (Op σ)) :
    let e := journaledRun sys settings screen host ops
    let dropped := journaledRun sys settings screen host (ops ++ [.shutdown])
    let roll := enrolled sys (start settings screen host) 0 [] ops
    e.project Offered.system Prod.fst = run sys (start settings screen host) ops ∧
    (∀ number, WholeLife (dropped.journal.of number)) ∧
    (roll.Pairwise (· < ·) ∧ dropped.journal = e.journal ++ roll.reverse.map (·, .shutdown)) ∧
    ∀ later,
      (journaledRun sys settings screen host (ops ++ .shutdown :: later)).journal = dropped.journal ∧
      let e' := run sys (start settings screen host) (ops ++ .shutdown :: later)
      ∀ op : Op σ, op.IsStep ∨ (∃ phase s, op = .register phase s) → perform sys e' op = (.error .shutDown, e') := by
  intro e dropped roll
  obtain ⟨badges, henrolled, (hroll : badges.map (·.2) = roll)⟩ := enrolled_run sys (.start settings screen host) ops
  have hdropped : dropped = shutdown sys.journaled e := by
    show journaledRun sys settings screen host (ops ++ [.shutdown]) = _
    rw [journaledRun, numbered_append, run_append]
    rfl
  have hshut : Enrolled (0 + ops.length + 1) [] dropped := hdropped ▸ henrolled.shutdown
  refine ⟨project_journaledRun sys settings screen host ops, fun number => hshut.whole number (by simp), ⟨?_, ?_⟩,
    fun later => ?_⟩
  · rw [← hroll, List.pairwise_map]
    exact henrolled.order.imp And.right
  · rw [hdropped, ← hroll, ← List.map_reverse, List.map_map]
    exact henrolled.journal_shutdown
  · have hlater : journaledRun sys settings screen host (ops ++ .shutdown :: later) =
        run sys.journaled dropped (numbered (0 + ops.length + 1) later) := by
      rw [hdropped, journaledRun, numbered_append, run_append]
      rfl
    have hclosed : dropped.scheduler.closed = true := hdropped ▸ closed_shutdown sys.journaled e
    obtain ⟨hclosed', hjournal⟩ := quiet_run sys hshut hclosed (numbered (0 + ops.length + 1) later)
    refine ⟨hlater ▸ hjournal, fun op hop => perform_of_closed sys ?_ hop⟩
    rw [← project_journaledRun, hlater]
    exact hclosed'

/-- Systems of which some refuse to be told of a component. -/
def touchy : System Bool Unit Unit where
  name copes := if copes then "copes" else "refuses"
  accepts _ _ := true
  added _ _ _ copes host := ⟨if copes then .ok () else .error (.failed "unwanted"), copes, host⟩
  update _ _ copes host := { outcome := .ok none, system := copes, host }
  byteSize _ := 0

/-- A component, a system that takes it and one that does not. -/
def offers : List (Op Bool) :=
  [.spawn false, .attach ⟨0, 0⟩ ⟨.velocity, ⟨1, 0⟩⟩, .register .late true, .register .early false]

/-- A system whose registration fails after its initialisation is shut down at once. -/
example : (journaledRun touchy {} {} () offers).journal =
    [(2, .init true), (2, .told), (3, .init true), (3, .told), (3, .shutdown)] := rfl

end Engine

end Cadence
