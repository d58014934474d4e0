import Cadence.Proofs.Engine.Tale

/-!
What the screen presents: everything that was drawn in the late phase of the last frame that was completed, and nothing
else. What is drawn in a frame that fails is never presented.
-/

namespace Cadence

variable {σ ρ ε : Type}

open Call

/-! ### Lists in order of their layers -/

/-- The list is sorted by layer, and within a layer nothing has changed its place. -/
structure SortedByLayer (sorted ps : List Primitive) : Prop where
  perm : sorted.Perm ps
  ordered : sorted.Pairwise (·.layer ≤ ·.layer)
  stable : ∀ layer, sorted.filter (·.layer = layer) = ps.filter (·.layer = layer)

/-- What is presented of a list that has been drawn. -/
def Shown (layered : Bool) (drawn shown : List Primitive) : Prop :=
  if layered then SortedByLayer shown drawn else shown = drawn

theorem Shown.of_nil {layered : Bool} {shown : List Primitive} (h : Shown layered [] shown) : shown = [] := by
  unfold Shown at h
  split at h
  · exact h.perm.eq_nil
  · exact h

theorem DrawList.sortedByLayer (l : DrawList) : SortedByLayer l.sortByLayer.items.toList l.items.toList := by
  have htrans : ∀ p q r : Primitive, decide (p.layer ≤ q.layer) → decide (q.layer ≤ r.layer) →
      decide (p.layer ≤ r.layer) := by
    intro p q r hpq hqr
    exact decide_eq_true (Int32.le_trans (of_decide_eq_true hpq) (of_decide_eq_true hqr))
  have htotal : ∀ p q : Primitive, (decide (p.layer ≤ q.layer) || decide (q.layer ≤ p.layer)) = true := by
    intro p q
    simpa using Int32.le_total p.layer q.layer
  have hpairwise := List.pairwise_mergeSort htrans htotal l.items.toList
  refine ⟨sortByLayer_perm l, hpairwise.imp of_decide_eq_true, fun layer => ?_⟩
  -- the primitives of one layer are in order already, so sorting keeps them as they are
  have hlayer : (l.items.toList.filter (·.layer = layer)).Pairwise fun p q => decide (p.layer ≤ q.layer) := by
    refine List.pairwise_of_forall_mem_list fun p hp q hq => ?_
    have hsame : p.layer = q.layer :=
      (of_decide_eq_true (List.mem_filter.mp hp).2).trans (of_decide_eq_true (List.mem_filter.mp hq).2).symm
    exact decide_eq_true (hsame ▸ Int32.le_refl _)
  have hkept := (List.sublist_mergeSort htrans htotal hlayer List.filter_sublist).filter (·.layer = layer)
  simp only [List.filter_filter, Bool.and_self] at hkept
  exact (hkept.eq_of_length ((sortByLayer_perm l).filter _).length_eq.symm).symm

/-! ### Screens -/

namespace Screen

/-- A screen on which nothing has been drawn yet. -/
def blank (layered : Bool) (size : Nat) : Screen := (({} : Screen).withLayers layered).withMailboxSize size

/-- The screen once a frame has been completed. -/
def turned (s : Screen) : Screen := s.flip.2.clearActive

variable (s : Screen)

@[simp] theorem frame_turned : s.turned.frame = s.frame + 1 := by
  obtain ⟨_, _, drawn, _, _, _, _⟩ := s
  cases drawn <;> rfl

@[simp] theorem layered_turned : s.turned.layered = s.layered := by
  obtain ⟨_, _, drawn, _, _, _, _⟩ := s
  cases drawn <;> rfl

@[simp] theorem active_turned : s.turned.active.items = #[] := by
  obtain ⟨_, _, drawn, _, _, _, _⟩ := s
  cases drawn <;> rfl

theorem presentable_turned :
    s.turned.presentable = if s.layered then { s.active with frame := s.frame + 1 }.sortByLayer
      else { s.active with frame := s.frame + 1 } := by
  obtain ⟨_, _, drawn, _, _, _, _⟩ := s
  cases drawn <;> rfl

theorem shown_turned : s.turned.presentable.frame = s.frame + 1 ∧
    Shown s.layered s.active.items.toList s.turned.presentable.items.toList := by
  rw [presentable_turned]
  unfold Shown
  split
  · exact ⟨rfl, DrawList.sortedByLayer _⟩
  · exact ⟨rfl, rfl⟩

end Screen

namespace Engine

variable {sys : System σ ρ ε} {e e' e'' : Recorded σ ρ ε} {act : Act ρ} {acts : List (Act ρ)} {layered : Bool}

/-! ### The invariant -/

/-- What a frame has left on the screen. The list that is presented was drawn in the frame whose number the screen
bears; the other list is that of the next frame, in which nothing is drawn before the late phase. -/
structure Presents (layered : Bool) (e : Recorded σ ρ ε) : Prop where
  sorts : e.screen.layered = layered
  stamp : e.screen.presentable.frame = e.screen.frame
  shown : Shown layered (drawnLate e.screen.frame e.log) e.screen.presentable.items.toList
  drawn : e.screen.active.items.toList = drawnLate (e.screen.frame + 1) e.log
  frames : ∀ visit ∈ visits e.log, 0 < visit.context.frame ∧ visit.context.frame ≤ e.scheduler.frame
  current : e.scheduler.poisoned = false →
    e.scheduler.frame = if e.scheduler.next = .phase .early then e.screen.frame else e.screen.frame + 1
  undrawn : e.scheduler.poisoned = false → e.scheduler.next ≠ .endOfFrame →
    drawnLate (e.screen.frame + 1) e.log = []

namespace Presents

theorem start (settings : Settings.Scheduling) (layered : Bool) (size : Nat) (host : ε) :
    Presents layered (start settings (Screen.blank layered size) (host, []) : Recorded σ ρ ε) where
  sorts := rfl
  stamp := rfl
  shown := by
    unfold Shown
    split
    · exact ⟨.refl _, .nil, fun _ => rfl⟩
    · rfl
  drawn := rfl
  frames := nofun
  current _ := rfl
  undrawn _ _ := rfl

/-- Calls outside the phases have nothing to do with the screen. -/
theorem aside (h : Presents layered e) {calls : List (Call ρ)} (haside : visits calls = [])
    (hlog : e'.log = e.log ++ calls) (hscreen : e'.screen = e.screen)
    (hframe : e'.scheduler.frame = e.scheduler.frame) (hnext : e'.scheduler.next = e.scheduler.next)
    (hsticky : e.scheduler.poisoned = true → e'.scheduler.poisoned = true) : Presents layered e' := by
  have hdrawn : ∀ frame, drawnLate frame e'.log = drawnLate frame e.log := by
    intro frame
    rw [hlog, drawnLate_append, drawnLate_of_visits haside, List.append_nil]
  refine ⟨by rw [hscreen, h.sorts], by rw [hscreen, h.stamp], ?_, ?_, ?_, fun hpoisoned => ?_,
    fun hpoisoned hends => ?_⟩
  · rw [hscreen, hdrawn]
    exact h.shown
  · rw [hscreen, hdrawn]
    exact h.drawn
  · rw [hlog, visits_append, haside, List.append_nil, hframe]
    exact h.frames
  · rw [hscreen, hframe, hnext]
    exact h.current (live_before hsticky hpoisoned)
  · rw [hscreen, hdrawn]
    rw [hnext] at hends
    exact h.undrawn (live_before hsticky hpoisoned) hends

/-- A phase that may run belongs to the frame after the one that is presented. -/
theorem frame_beginPhase (h : Presents layered e) {phase : Phase} (hcheck : e.scheduler.check (.phase phase) = .ok ()) :
    (e.beginPhase phase).scheduler.frame = e.screen.frame + 1 := by
  obtain ⟨_, hlive, hnext⟩ := check_eq_ok hcheck
  have hcurrent := h.current hlive
  rw [hnext] at hcurrent
  rw [scheduler_beginPhase]
  dsimp only
  rw [hcurrent]
  cases phase <;> rfl

/-- What a phase draws, it draws on the list that is not presented; only the late phase draws. -/
theorem phase (h : Presents layered e) {phase : Phase} {calls : List (Call ρ)}
    (hcheck : e.scheduler.check (.phase phase) = .ok ()) (haccounts : Accounts phase (e.beginPhase phase) calls e')
    (hlog : e''.log = e'.log) (hscreen : e''.screen = e'.screen) (hframe : e''.scheduler.frame = e'.scheduler.frame)
    (hnext : e''.scheduler.poisoned = false → e''.scheduler.next = e'.scheduler.next.next) : Presents layered e'' := by
  obtain ⟨_, hlive, hphase⟩ := check_eq_ok hcheck
  have hbegin := h.frame_beginPhase hcheck
  have hvisits := haccounts.visits
  have hdrawing := haccounts.screen
  rw [hbegin] at hvisits hdrawing
  rw [screen_beginPhase, ← hscreen] at hdrawing
  have hcalls : e''.log = e.log ++ calls := by rw [hlog, haccounts.log, log_beginPhase]
  have hnumber : e''.scheduler.frame = e.screen.frame + 1 := by rw [hframe, haccounts.frame, hbegin]
  have hfollows : e''.scheduler.poisoned = false → e''.scheduler.next = (Step.phase phase).next := by
    intro hpoisoned
    rw [hnext hpoisoned, haccounts.next, scheduler_beginPhase, hphase]
  -- the calls belong to the frame after the one that is presented
  have hother : drawnLate e.screen.frame calls = [] := by
    refine drawnLate_eq_nil fun visit hmem hlate => ?_
    have hvisit := (hvisits visit hmem).2
    omega
  have hsame : e''.screen.frame = e.screen.frame := by rw [hdrawing, Screen.frame_drawing]
  refine ⟨?_, ?_, ?_, ?_, ?_, fun hpoisoned => ?_, fun hpoisoned hends => ?_⟩
  · rw [hdrawing, Screen.layered_drawing, h.sorts]
  · rw [hsame, hdrawing, Screen.presentable_drawing, h.stamp]
  · rw [hsame, hdrawing, Screen.presentable_drawing, hcalls, drawnLate_append, hother, List.append_nil]
    exact h.shown
  · rw [hsame, hdrawing, Screen.active_drawing, hcalls, drawnLate_append, ← h.drawn]
    simp
  · rw [hcalls, visits_append, hnumber]
    refine List.forall_mem_append.mpr ⟨fun visit hmem => ?_, fun visit hmem => ?_⟩
    · have hcurrent := h.current hlive
      obtain ⟨hpos, hle⟩ := h.frames visit hmem
      refine ⟨hpos, ?_⟩
      split at hcurrent <;> omega
    · have hvisit := (hvisits visit hmem).2
      omega
  · rw [hsame, hnumber, hfollows hpoisoned]
    cases phase <;> rfl
  · rw [hfollows hpoisoned] at hends
    have hbefore : drawnLate (e.screen.frame + 1) e.log = [] := h.undrawn hlive (by rw [hphase]; nofun)
    rw [hsame, hcalls, drawnLate_append, hbefore, List.nil_append]
    refine drawnLate_eq_nil fun visit hmem hlate => hends ?_
    rw [← (hvisits visit hmem).1, hlate.1]
    rfl

/-- The end of a frame presents what its late phase has drawn. -/
theorem ending (h : Presents layered e) (hcheck : e.scheduler.check .endOfFrame = .ok ()) (world : World) :
    Presents layered { e with
      scheduler := { e.scheduler with next := e.scheduler.next.next }, world, screen := e.screen.turned } := by
  obtain ⟨_, hlive, hnext⟩ := check_eq_ok hcheck
  have hcurrent := h.current hlive
  rw [hnext, if_neg nofun] at hcurrent
  obtain ⟨hstamp, hshown⟩ := e.screen.shown_turned
  rw [h.sorts, h.drawn] at hshown
  -- no call was made in a frame that has not begun
  have hlater : drawnLate (e.screen.frame + 1 + 1) e.log = [] := by
    refine drawnLate_eq_nil fun visit hmem hlate => ?_
    have hvisit := (h.frames visit hmem).2
    omega
  refine ⟨?_, ?_, ?_, ?_, h.frames, fun _ => ?_, fun _ _ => ?_⟩
  · rw [Screen.layered_turned, h.sorts]
  · rw [Screen.frame_turned, hstamp]
  · rw [Screen.frame_turned]
    exact hshown
  · rw [Screen.frame_turned, Screen.active_turned]
    exact hlater.symm
  · rw [Screen.frame_turned, hnext]
    exact hcurrent
  · rw [Screen.frame_turned]
    exact hlater

end Presents

theorem Does.presents (h : Does sys e act e') (he : Presents layered e) : Presents layered e' := by
  cases h with
  | routing h =>
    have haccounts := h.accounts .early
    have hscreen := haccounts.screen
    rw [drawnLate_of_visits h.visits, Screen.drawing_nil] at hscreen
    exact he.aside h.visits haccounts.log hscreen haccounts.frame haccounts.next haccounts.sticky
  | joining h =>
    obtain ⟨_, _, _, hscheduler⟩ := h.exists_scheduler
    exact he.aside (visits_of_aside h.aside) h.log h.screen (by rw [hscheduler]) (by rw [hscheduler])
      fun hpoisoned => by rw [hscheduler]; exact hpoisoned
  | done hcheck h => exact he.phase hcheck h.accounts rfl rfl rfl fun _ => rfl
  | broken hcheck h => exact he.phase hcheck h.accounts rfl rfl rfl nofun
  | ending hcheck => exact he.ending hcheck _
  | closing _ haside => exact he.aside (visits_of_aside haside) rfl rfl rfl rfl id

/-- Only the end of a frame changes what is presented. -/
theorem Does.presentable (h : Does sys e act e') (hact : act ≠ .ending) :
    e'.screen.frame = e.screen.frame ∧ e'.screen.presentable = e.screen.presentable := by
  have haccounts {phase : Phase} {e e' : Recorded σ ρ ε} {calls : List (Call ρ)} (h : Accounts phase e calls e') :
      e'.screen.frame = e.screen.frame ∧ e'.screen.presentable = e.screen.presentable := by
    rw [h.screen]
    exact ⟨Screen.frame_drawing .., Screen.presentable_drawing ..⟩
  cases h with
  | routing h => exact haccounts (h.accounts .early)
  | joining h => rw [h.screen]; exact ⟨rfl, rfl⟩
  | done _ h =>
    have hboth := haccounts h.accounts
    rw [screen_beginPhase] at hboth
    exact hboth
  | broken _ h =>
    have hboth := haccounts h.accounts
    rw [screen_beginPhase] at hboth
    exact hboth
  | ending => exact absurd rfl hact
  | closing => exact ⟨rfl, rfl⟩

theorem Story.presents (h : Story sys e acts e') (he : Presents layered e) : Presents layered e' :=
  h.preserves (I := Presents layered) (fun _ hdoes he => hdoes.presents he) he

theorem Story.presentable (h : Story sys e acts e') (hacts : .ending ∉ acts) :
    e'.screen.frame = e.screen.frame ∧ e'.screen.presentable = e.screen.presentable := by
  refine h.preserves
    (I := fun e' => e'.screen.frame = e.screen.frame ∧ e'.screen.presentable = e.screen.presentable) ?_ ⟨rfl, rfl⟩
  rintro e₁ act e₂ hmem hdoes ⟨hframe, hpresentable⟩
  obtain ⟨hframe', hpresentable'⟩ := hdoes.presentable fun hact => hacts (hact ▸ hmem)
  exact ⟨hframe'.trans hframe, hpresentable'.trans hpresentable⟩

/-! ### Operations -/

variable {op : Op σ} {r : Except EngineError Answer × Recorded σ ρ ε}

theorem Does.of_ending (h : Does sys e .ending e') :
    e'.scheduler.poisoned = false ∧ e'.scheduler.next = .phase .early := by
  cases h with
  | ending hcheck =>
    obtain ⟨_, hlive, hnext⟩ := check_eq_ok hcheck
    refine ⟨hlive, ?_⟩
    dsimp only
    rw [hnext]
    rfl

/-- An operation that completes a frame leaves the screen with the number of this frame; any other leaves what is
presented as it is. -/
theorem Performed.presents (h : Performed sys e op acts r) (he : Presents layered e) : Presents layered r.2 ∧
    (Completed op r.1 → r.2.screen.frame = r.2.scheduler.frame) ∧
    (¬ Completed op r.1 → r.2.screen.frame = e.screen.frame ∧ r.2.screen.presentable = e.screen.presentable) := by
  have hnone : visits ([] : List (Call ρ)) = [] := rfl
  have hbefore : Presents layered { e with world := op.edited e.world } :=
    he.aside hnone (List.append_nil _).symm rfl rfl rfl id
  have hstory := h.tale.story
  have hafter := hstory.presents hbefore
  refine ⟨hafter, fun hcompleted => ?_, fun hcompleted => ?_⟩
  · cases h.ends with
    | last _ _ =>
      obtain ⟨_, _, hlast⟩ := hstory.split
      obtain ⟨hlive, hnext⟩ := hlast.of_single.of_ending
      have hcurrent := hafter.current hlive
      rw [hnext, if_pos rfl] at hcurrent
      exact hcurrent.symm
    | never hnot _ => exact absurd hcompleted hnot
  · cases h.ends with
    | last hdone _ => exact absurd hdone hcompleted
    | never _ hacts => exact hstory.presentable hacts

instance : (op : Op σ) → Decidable op.EndsFrame
  | .endFrame | .runFrame _ => isTrue trivial
  | .register .. | .spawn _ | .attach .. | .detach _ | .mark _ | .clear _ | .edit _ | .runPhase .. | .deliver | .route _
  | .shutdown => isFalse id

instance : (answer : Except EngineError Answer) → Decidable (∃ a, answer = .ok a)
  | .ok a => isTrue ⟨a, rfl⟩
  | .error _ => isFalse nofun

instance (op : Op σ) (answer : Except EngineError Answer) : Decidable (Completed op answer) :=
  inferInstanceAs (Decidable (op.EndsFrame ∧ ∃ a, answer = .ok a))

/-- The number of the frame that operations have completed last, or of one that was completed before. -/
def lastCompleted (sys : System σ ρ ε) (e : Engine σ ρ ε) (before : Nat) : List (Op σ) → Nat
  | [] => before
  | op :: rest =>
    let r := perform sys e op
    lastCompleted sys r.2 (if Completed op r.1 then r.2.scheduler.frame else before) rest

/-- The screen bears the number of the frame that was completed last. -/
theorem frame_run (sys : System σ ρ ε) (he : e.Orderly) (hpresents : Presents layered e) (ops : List (Op σ)) :
    Presents layered (run sys.recorded e (ops.map Op.marked)) ∧
      (run sys.recorded e (ops.map Op.marked)).screen.frame =
        lastCompleted sys (Recorded.erase e) e.screen.frame ops := by
  induction ops generalizing e with
  | nil => exact ⟨hpresents, rfl⟩
  | cons op rest ih =>
    obtain ⟨acts, hperformed⟩ := exists_performed sys he op
    obtain ⟨hafter, hdone, hkept⟩ := hperformed.presents hpresents
    obtain ⟨hlast, hframe⟩ := ih (he.perform sys op) hafter
    have hnumber : (perform sys.recorded e op.marked).2.screen.frame =
        if Completed op (perform sys.recorded e op.marked).1 then (perform sys.recorded e op.marked).2.scheduler.frame
        else e.screen.frame := by
      split
      · exact hdone ‹_›
      · exact (hkept ‹_›).1
    refine ⟨hlast, hframe.trans ?_⟩
    rw [lastCompleted, ← erased_perform, hnumber]
    rfl

/-! ### Calls in the middle of a phase -/

theorem Accounts.presentable {phase : Phase} {calls : List (Call ρ)} (h : Accounts phase e calls e') :
    e'.screen.presentable = e.screen.presentable := by
  rw [h.screen, Screen.presentable_drawing]

theorem length_labels_roster (e : Recorded σ ρ ε) (phase : Phase) :
    (e.labels phase).length = (e.roster phase).length := by
  rw [length_labels, length_roster, length_cards]

/-- What a system finds presented when it is called is what was presented when the phase began. -/
theorem PhaseCalls.presentable {phase : Phase} {dt : Float32} {parallel : Bool} (he : e.Orderly)
    (h : PhaseCalls sys.recorded phase dt parallel e e') : e'.screen.presentable = e.screen.presentable := by
  obtain ⟨calls, htells, _⟩ := deliver_tells sys (e.beginPhase phase)
  have hbegin : e.screen.presentable = (e.beginPhase phase).screen.presentable := by rw [screen_beginPhase]
  have hdelivered := (htells.accounts phase).presentable
  have hplace := (he.beginPhase phase).place.congr (htells.accounts phase).roster
  rw [hbegin]
  cases h with
  | serial _ hdeliver hi hupdate =>
    rw [hdeliver] at hdelivered hplace
    rw [length_labels_roster] at hi
    obtain ⟨_, _, htook, _⟩ := (updateSerials_took sys phase hplace dt (Nat.le_of_lt hi)).of_ok hupdate
    exact htook.accounts.presentable.trans hdelivered
  | worker _ hdeliver hi hupdate =>
    rw [hdeliver] at hdelivered hplace
    rw [length_labels_roster] at hi
    obtain ⟨_, _, htook, _⟩ := updateParallels_took sys phase hplace dt (Nat.le_of_lt hi)
    rw [hupdate] at htook
    exact htook.accounts.presentable.trans hdelivered
  | @apply _ _ e₁ e₂ _ _ _ _ hdeliver hi hupdate happly =>
    rw [hdeliver] at hdelivered hplace
    obtain ⟨_, htook, _⟩ := updateAll_took sys phase hplace dt parallel
    rw [hupdate] at htook
    have hroster := htook.accounts.roster
    rw [length_labels_roster, ← hroster] at hi
    obtain ⟨_, hsettled, _⟩ :=
      (applyResults_settled sys phase (hplace.congr hroster) (Nat.le_of_lt hi)).of_ok happly
    exact (hsettled.accounts.presentable.trans htook.accounts.presentable).trans hdelivered

theorem Calls.presentable (he : e.Orderly) {op : Op (Marked σ)} (h : Calls sys.recorded e op e') :
    e'.screen.presentable = e.screen.presentable := by
  cases h with
  | runPhase h => exact h.presentable he
  | @runFrame before _ _ dt _ _ _ _ hbefore h =>
    obtain ⟨runs, htale, _⟩ := runPhases_tale sys he dt before
    rw [hbefore] at htale
    have hkept := (htale.story.presentable (ending_not_mem_phases runs)).2
    exact (h.presentable (htale.story.members he (ofFrame_phases runs)).1).trans hkept

/-! ### Runs -/

/-- When the late phase begins, nothing has been drawn yet. -/
theorem active_runPhases (he : e.Orderly) (hpresents : Presents layered e) (dt : Float32) (phases : List Phase) :
    let e' := (runPhases sys.recorded e dt phases).2
    e'.scheduler.check (.phase .late) = .ok () → e'.screen.active.items = #[] := by
  intro e' hcheck
  obtain ⟨runs, htale, _⟩ := runPhases_tale sys he dt phases
  have hafter := htale.story.presents hpresents
  obtain ⟨_, hlive, hnext⟩ := check_eq_ok hcheck
  have hdrawn := hafter.drawn
  rw [hafter.undrawn hlive (by rw [hnext]; nofun)] at hdrawn
  exact Array.toList_eq_nil_iff.mp hdrawn

/-- Once the scheduler is poisoned, what is presented stays. -/
theorem presentable_of_poisoned (sys : System σ ρ ε) (he : e.Orderly) (hpoisoned : e.scheduler.poisoned = true)
    (ops : List (Op σ)) : (run sys.recorded e (ops.map Op.marked)).screen.presentable = e.screen.presentable := by
  induction ops generalizing e with
  | nil => rfl
  | cons op rest ih =>
    obtain ⟨acts, hperformed⟩ := exists_performed sys he op
    obtain ⟨hstill, _, hacts⟩ := hperformed.tale.story.of_poisoned hpoisoned
    exact (ih (he.perform sys op) hstill).trans (hperformed.tale.story.presentable hacts).2

theorem poisoned_of_failed (sys : System σ ρ ε) (e : Recorded σ ρ ε) {op : Op σ} (hop : ∀ event, op ≠ .route event)
    {phase : Phase} {name : String} {fault : Fault}
    (h : (perform sys.recorded e op.marked).1 = .error (.systemFailed phase name fault)) :
    (perform sys.recorded e op.marked).2.scheduler.poisoned = true := by
  have hmarked : ∀ event, op.marked ≠ .route event := by
    intro event hroute
    cases op <;> first | exact hop _ rfl | cases hroute
  exact (poisonsOnFailure_perform sys.recorded e hmarked).of_error (Prod.ext h rfl) ⟨phase, name, fault, rfl⟩

/-- The list that the screen presents is that of one frame. -/
structure PresentsFrame (layered : Bool) (n : Nat) (e : Recorded σ ρ ε) : Prop where
  stamp : e.screen.presentable.frame = n
  shown : Shown layered (drawnLate n e.log) e.screen.presentable.items.toList
  nothing : n = 0 → e.screen.presentable.items = #[]

/-- After every run of operations, and whenever the next operation calls a system, the screen presents what was drawn in
the late phase of the frame that was completed last. Nothing but the completion of a frame changes that, nothing has
been drawn when a late phase begins, and once a system has failed what is presented stays for good. -/
theorem presented_is_last_completed (sys : System σ ρ ε) (settings : Settings.Scheduling) (layered : Bool) (size : Nat)
    (host : ε) (ops : List (Op σ)) :
    let screen := Screen.blank layered size
    let e := record sys settings screen host ops
    Recorded.erase e = run sys (start settings screen host) ops ∧
    PresentsFrame layered (lastCompleted sys (start settings screen host) 0 ops) e ∧
    (∀ op : Op σ, ¬ Completed op (perform sys (Recorded.erase e) op).1 →
      (perform sys.recorded e op.marked).2.screen.presentable = e.screen.presentable) ∧
    (∀ (op : Op σ) e', Calls sys.recorded e op.marked e' → e'.screen.presentable = e.screen.presentable) ∧
    (∀ dt phases, let e' := (runPhases sys.recorded e dt phases).2
      e'.scheduler.check (.phase .late) = .ok () → e'.screen.active.items = #[]) ∧
    ∀ op : Op σ, (∀ event, op ≠ .route event) → ∀ phase name fault,
      (perform sys (Recorded.erase e) op).1 = .error (.systemFailed phase name fault) →
        ∀ rest, (record sys settings screen host (ops ++ op :: rest)).screen.presentable = e.screen.presentable := by
  intro screen e
  have hstart := Orderly.start (σ := σ) settings screen (host, ([] : List (Call ρ)))
  have he : e.Orderly := orderly_record sys settings screen host ops
  obtain ⟨hpresents, hframe⟩ := frame_run sys hstart (.start settings layered size host) ops
  have hnumber : e.screen.frame = lastCompleted sys (start settings screen host) 0 ops := hframe
  have hsame (op : Op σ) : (perform sys (Recorded.erase e) op).1 = (perform sys.recorded e op.marked).1 :=
    (congrArg Prod.fst (erased_perform sys e op)).symm
  have hkept (op : Op σ) (hnot : ¬ Completed op (perform sys.recorded e op.marked).1) :
      (perform sys.recorded e op.marked).2.screen.presentable = e.screen.presentable := by
    obtain ⟨acts, hperformed⟩ := exists_performed sys he op
    exact ((hperformed.presents hpresents).2.2 hnot).2
  refine ⟨erase_record sys settings screen host ops, ⟨?_, ?_, fun hnone => ?_⟩, fun op hnot => ?_,
    fun op e' hcalls => hcalls.presentable he, active_runPhases he hpresents, ?_⟩
  · rw [← hnumber]
    exact hpresents.stamp
  · rw [← hnumber]
    exact hpresents.shown
  · have hshown : Shown layered (drawnLate e.screen.frame e.log) e.screen.presentable.items.toList := hpresents.shown
    have hempty : drawnLate 0 e.log = [] := by
      refine drawnLate_eq_nil fun visit hmem hlate => ?_
      have hpos := (hpresents.frames visit hmem).1
      omega
    rw [hnumber, hnone, hempty] at hshown
    exact Array.toList_eq_nil_iff.mp hshown.of_nil
  · rw [hsame] at hnot
    exact hkept op hnot
  · intro op hop phase name fault hfailed rest
    rw [hsame] at hfailed
    have hpoisoned := poisoned_of_failed sys e hop hfailed
    have hnot : ¬ Completed op (perform sys.recorded e op.marked).1 := by
      rintro ⟨_, a, ha⟩
      rw [hfailed] at ha
      cases ha
    rw [← hkept op hnot, ← presentable_of_poisoned sys (he.perform sys op) hpoisoned rest]
    rw [record_append]
    rfl

end Engine

end Cadence
