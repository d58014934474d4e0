import Cadence.Proofs.Engine.Presentation
import Cadence.Session.ScreenOp

/-!
The numbers of frames. The scheduler counts the frames that have begun, the screen those that have been completed, and
the two never disagree by more than the frame that is being run. Others may draw on the screen and read from it in the
meantime, as long as they do not flip it.
-/

namespace Cadence

variable {σ ρ ε : Type}

open Call

/-! ### Screens that are not flipped -/

namespace Screen

/-- The screen bears the same number as before, and so does the list that it presents. -/
structure Unflipped (s s' : Screen) : Prop where
  frame : s'.frame = s.frame
  stamp : s'.presentable.frame = s.presentable.frame

variable (s : Screen)

theorem unflipped_refl : Unflipped s s := ⟨rfl, rfl⟩

/-- Whatever is done to the list that is being drawn on, the screen is not flipped. -/
theorem unflipped_modifyActive (change : DrawList → DrawList) : Unflipped s (s.modifyList s.drawn change) := by
  constructor
  · unfold modifyList
    cases s.drawn <;> rfl
  · unfold presentable
    rw [drawn_modifyList, list_modifyList_other]

theorem unflipped_unsubscribe (reader : Nat) : Unflipped s (s.unsubscribe reader) := ⟨rfl, rfl⟩

theorem unflipped_receive (reader : Nat) (limit : Option Nat) : Unflipped s (s.receive reader limit).2 := by
  unfold receive
  split <;> exact ⟨rfl, rfl⟩

end Screen

/-- Of all that can be done to a screen from outside, only the flip is one. -/
theorem Session.ScreenOp.unflipped (host : Session.Host) (s : Screen) {op : Session.ScreenOp} (hop : op ≠ .flip) :
    Screen.Unflipped s (op.perform host s).2 := by
  cases op with
  | flip => exact absurd rfl hop
  | submit sketch =>
    unfold perform
    dsimp only
    split
    · exact s.unflipped_refl
    · exact s.unflipped_modifyActive (·.push _)
  | submitAll sketches =>
    unfold perform
    dsimp only
    split
    · exact s.unflipped_refl
    · exact s.unflipped_modifyActive (·.extend _)
  | clearActive => exact s.unflipped_modifyActive _
  | subscribe => exact ⟨rfl, rfl⟩
  | unsubscribe reader => exact s.unflipped_unsubscribe reader
  | receive reader limit => exact s.unflipped_receive reader limit
  | _ => exact s.unflipped_refl

namespace Engine

variable {sys : System σ ρ ε} {e e' : Recorded σ ρ ε} {act : Act ρ} {acts : List (Act ρ)}

/-! ### The invariant -/

/-- The scheduler is in the frame after the one that the screen presents, or in none. -/
structure Numbered (e : Recorded σ ρ ε) : Prop where
  stamp : e.screen.presentable.frame = e.screen.frame
  current : e.scheduler.poisoned = false →
    e.scheduler.frame = if e.scheduler.next = .phase .early then e.screen.frame else e.screen.frame + 1
  near : e.scheduler.frame = e.screen.frame ∨ e.scheduler.frame = e.screen.frame + 1

namespace Numbered

theorem start (settings : Settings.Scheduling) (layered : Bool) (size : Nat) (host : ε) :
    Numbered (start settings (Screen.blank layered size) (host, []) : Recorded σ ρ ε) :=
  ⟨rfl, fun _ => rfl, .inl rfl⟩

/-- What neither moves the cursor nor flips the screen leaves the numbers as they are. -/
theorem aside (h : Numbered e) (hscreen : Screen.Unflipped e.screen e'.screen)
    (hframe : e'.scheduler.frame = e.scheduler.frame) (hnext : e'.scheduler.next = e.scheduler.next)
    (hsticky : e.scheduler.poisoned = true → e'.scheduler.poisoned = true) : Numbered e' where
  stamp := by rw [hscreen.stamp, hscreen.frame, h.stamp]
  current hlive := by
    rw [hframe, hnext, hscreen.frame]
    exact h.current (live_before hsticky hlive)
  near := by
    rw [hframe, hscreen.frame]
    exact h.near

/-- A phase that may run belongs to the frame after the one that is presented. -/
theorem frame_beginPhase (h : Numbered e) {phase : Phase} (hcheck : e.scheduler.check (.phase phase) = .ok ()) :
    (e.beginPhase phase).scheduler.frame = e.screen.frame + 1 := by
  obtain ⟨_, hlive, hnext⟩ := check_eq_ok hcheck
  have hcurrent := h.current hlive
  rw [hnext] at hcurrent
  rw [scheduler_beginPhase]
  dsimp only
  rw [hcurrent]
  cases phase <;> rfl

/-- After a phase the frame has begun, and it has not been completed. -/
theorem begun (h : Numbered e) (hscreen : Screen.Unflipped e.screen e'.screen)
    (hframe : e'.scheduler.frame = e.screen.frame + 1)
    (hnext : e'.scheduler.poisoned = false → e'.scheduler.next ≠ .phase .early) : Numbered e' where
  stamp := by rw [hscreen.stamp, hscreen.frame, h.stamp]
  current hlive := by rw [if_neg (hnext hlive), hscreen.frame, hframe]
  near := .inr (by rw [hscreen.frame, hframe])

/-- With the end of a frame the screen has caught up with the scheduler. -/
theorem ending (h : Numbered e) (hcheck : e.scheduler.check .endOfFrame = .ok ()) (world : World) :
    Numbered { e with
      scheduler := { e.scheduler with next := e.scheduler.next.next }, world, screen := e.screen.turned } := by
  obtain ⟨_, hlive, hnext⟩ := check_eq_ok hcheck
  have hcurrent := h.current hlive
  rw [hnext, if_neg nofun] at hcurrent
  have hframe : e.scheduler.frame = e.screen.turned.frame := by rw [Screen.frame_turned, hcurrent]
  refine ⟨?_, fun _ => ?_, .inl hframe⟩
  · rw [Screen.frame_turned, e.screen.shown_turned.1]
  · dsimp only
    rw [hnext]
    exact hframe

end Numbered

theorem Does.unflipped (h : Does sys e act e') (hact : act ≠ .ending) : Screen.Unflipped e.screen e'.screen := by
  obtain ⟨hframe, hpresentable⟩ := h.presentable hact
  exact ⟨hframe, congrArg DrawList.frame hpresentable⟩

/-- Every act keeps the numbers in step; whoever is called in it sees the number of the frame that is run. -/
theorem Does.numbered (h : Does sys e act e') (he : Numbered e) :
    Numbered e' ∧ ∀ visit ∈ visits act.calls, visit.context.frame = e.screen.frame + 1 := by
  have hnobody {calls : List (Call ρ)} (hvisits : visits calls = []) :
      ∀ visit ∈ visits calls, visit.context.frame = e.screen.frame + 1 := by
    rw [hvisits]
    nofun
  cases hact : act with
  | ending =>
    subst hact
    cases h with
    | ending hcheck => exact ⟨he.ending hcheck _, nofun⟩
  | _ =>
    have hscreen := h.unflipped (by rw [hact]; nofun)
    rw [← hact]
    cases h with
    | routing h =>
      have haccounts := h.accounts .early
      exact ⟨he.aside hscreen haccounts.frame haccounts.next haccounts.sticky, hnobody h.visits⟩
    | joining h =>
      obtain ⟨_, _, _, hscheduler⟩ := h.exists_scheduler
      refine ⟨he.aside hscreen ?_ ?_ fun hpoisoned => ?_, hnobody (visits_of_aside h.aside)⟩
      · rw [hscheduler]
      · rw [hscheduler]
      · rw [hscheduler]
        exact hpoisoned
    | @done e₁ run _ hcheck h =>
      have hbegin := he.frame_beginPhase hcheck
      refine ⟨he.begun hscreen (h.accounts.frame.trans hbegin) fun _ => ?_, fun visit hmem => ?_⟩
      · dsimp only
        rw [h.accounts.next, scheduler_beginPhase, (check_eq_ok hcheck).2.2]
        cases run.phase <;> nofun
      · exact (h.accounts.visits visit hmem).2.trans hbegin
    | @broken e₁ run _ hcheck h =>
      have hbegin := he.frame_beginPhase hcheck
      exact ⟨he.begun hscreen (h.accounts.frame.trans hbegin) nofun,
        fun visit hmem => (h.accounts.visits visit hmem).2.trans hbegin⟩
    | closing host haside => exact ⟨he.aside hscreen rfl rfl id, hnobody (visits_of_aside haside)⟩
    | ending => cases hact

theorem Does.turned (h : Does sys e .ending e') : e'.screen.frame = e.screen.frame + 1 := by
  cases h with
  | ending => exact Screen.frame_turned _

theorem Story.numbered (h : Story sys e acts e') (he : Numbered e) : Numbered e' :=
  h.preserves (I := Numbered) (fun _ hdoes he => (hdoes.numbered he).1) he

/-- As long as no frame ends, everybody who is called sees the same number. -/
theorem Story.visits (h : Story sys e acts e') (he : Numbered e) (hacts : .ending ∉ acts) :
    ∀ visit ∈ Call.visits (acts.flatMap Act.calls), visit.context.frame = e.screen.frame + 1 := by
  induction h with
  | nil => nofun
  | @cons e e₁ e' act acts hfirst _ ih =>
    rw [List.mem_cons, not_or] at hacts
    obtain ⟨he₁, hvisits⟩ := hfirst.numbered he
    have hrest := ih he₁ hacts.2
    rw [(hfirst.unflipped (Ne.symm hacts.1)).frame] at hrest
    rw [List.flatMap_cons, visits_append]
    exact List.forall_mem_append.mpr ⟨hvisits, hrest⟩

/-! ### Operations -/

/-- What an operation makes of the numbers: whoever is called sees the number of the frame that is run, and this is the
number of the screen once the frame is completed. -/
theorem Performed.numbered {op : Op σ} {r : Except EngineError Answer × Recorded σ ρ ε} (h : Performed sys e op acts r)
    (he : Numbered e) :
    Numbered r.2 ∧
    (∀ visit ∈ visits (acts.flatMap Act.calls), visit.context.frame = e.screen.frame + 1) ∧
    r.2.screen.frame = e.screen.frame + (if Completed op r.1 then 1 else 0) ∧
    (Completed op r.1 → r.2.scheduler.frame = r.2.screen.frame) := by
  have hbefore : Numbered { e with world := op.edited e.world } := he.aside (Screen.unflipped_refl _) rfl rfl id
  have hstory := h.tale.story
  have hafter := hstory.numbered hbefore
  cases h.ends with
  | last hcompleted hrest =>
    obtain ⟨e₁, hphases, hlast⟩ := hstory.split
    have hturned := hlast.of_single.turned
    have hkept : e₁.screen.frame = e.screen.frame := (hphases.presentable hrest).1
    obtain ⟨hlive, hnext⟩ := hlast.of_single.of_ending
    have hcurrent := hafter.current hlive
    rw [hnext, if_pos rfl] at hcurrent
    refine ⟨hafter, ?_, ?_, fun _ => hcurrent⟩
    · rw [List.flatMap_append, visits_append]
      exact List.forall_mem_append.mpr ⟨hphases.visits hbefore hrest, nofun⟩
    · rw [if_pos hcompleted, hturned, hkept]
  | never hnot hacts =>
    refine ⟨hafter, hstory.visits hbefore hacts, ?_, fun hcompleted => absurd hcompleted hnot⟩
    rw [if_neg hnot]
    exact (hstory.presentable hacts).1

/-- The notice of a frame bears the number that the screen has got. -/
theorem notice_endFrame {τ η : Type} (sys : System τ ρ η) (e : Engine τ ρ η) {notice : Notice} {flushed : Flushed}
    (h : (endFrame sys e).1 = .ok (notice, flushed)) : notice.frame = (endFrame sys e).2.screen.frame := by
  revert h
  unfold endFrame
  rcases e.scheduler.check .endOfFrame with err | _
  · nofun
  dsimp only
  rcases deliver sys e with ⟨err | n, e₁⟩
  · nofun
  · rintro ⟨⟩
    exact (Screen.frame_turned e₁.screen).symm

/-- The report of a frame bears the number that the scheduler has got, and its notice that of the screen. -/
theorem report_runFrame {τ η : Type} (sys : System τ ρ η) (e : Engine τ ρ η) (dt : Float32) {report : FrameReport}
    (h : (runFrame sys e dt).1 = .ok report) :
    report.frame = (runFrame sys e dt).2.scheduler.frame ∧
      report.presented.frame = (runFrame sys e dt).2.screen.frame := by
  revert h
  unfold runFrame
  rcases runPhases sys e dt Phase.all with ⟨err | reports, e₁⟩
  · nofun
  dsimp only
  rcases hend : endFrame sys e₁ with ⟨err | ⟨notice, flushed⟩, e₂⟩
  · nofun
  · rintro ⟨⟩
    have hnotice := notice_endFrame sys e₁ (congrArg Prod.fst hend)
    rw [hend] at hnotice
    exact ⟨rfl, hnotice⟩

theorem notice_of_ended {τ η : Type} (sys : System τ ρ η) (e : Engine τ ρ η) {op : Op τ} {notice : Notice}
    {flushed : Flushed} (h : (perform sys e op).1 = .ok (.ended notice flushed)) :
    op.EndsFrame ∧ notice.frame = (perform sys e op).2.screen.frame := by
  cases op with
  | spawn persistent => cases h
  | edit change => cases h
  | shutdown => cases h
  | endFrame =>
    obtain ⟨_, hok, hanswer⟩ := exists_of_map_eq_ok h
    cases hanswer
    exact ⟨trivial, notice_endFrame sys e hok⟩
  | _ =>
    obtain ⟨_, _, hanswer⟩ := exists_of_map_eq_ok h
    cases hanswer

theorem report_of_frame {τ η : Type} (sys : System τ ρ η) (e : Engine τ ρ η) {op : Op τ} {report : FrameReport}
    (h : (perform sys e op).1 = .ok (.frame report)) :
    op.EndsFrame ∧ report.frame = (perform sys e op).2.scheduler.frame ∧
      report.presented.frame = (perform sys e op).2.screen.frame := by
  cases op with
  | spawn persistent => cases h
  | edit change => cases h
  | shutdown => cases h
  | runFrame dt =>
    obtain ⟨_, hok, hanswer⟩ := exists_of_map_eq_ok h
    cases hanswer
    exact ⟨trivial, report_runFrame sys e dt hok⟩
  | _ =>
    obtain ⟨_, _, hanswer⟩ := exists_of_map_eq_ok h
    cases hanswer

theorem Op.endsFrame_of_marked {op : Op σ} (h : op.marked.EndsFrame) : op.EndsFrame := by
  cases op <;> exact h

/-! ### Runs -/

/-- What is done to an engine: an operation of its own, or something that others do to its screen without flipping
it. -/
inductive Deed (σ : Type)
  | ask (op : Op σ)
  | touch (change : Screen → Screen) (unflipped : ∀ s : Screen, s.Unflipped (change s))

namespace Deed

def marked : Deed σ → Deed (Marked σ)
  | ask op => .ask op.marked
  | touch change unflipped => .touch change unflipped

/-- The engine that a deed leaves. -/
def enact (sys : System σ ρ ε) (e : Engine σ ρ ε) : Deed σ → Engine σ ρ ε
  | ask op => (perform sys e op).2
  | touch change _ => { e with screen := change e.screen }

/-- How many frames a deed completes. -/
def completes (sys : System σ ρ ε) (e : Engine σ ρ ε) : Deed σ → Nat
  | ask op => if Completed op (perform sys e op).1 then 1 else 0
  | touch .. => 0

/-- How many frames deeds complete one after the other. -/
def completed (sys : System σ ρ ε) (e : Engine σ ρ ε) : List (Deed σ) → Nat
  | [] => 0
  | deed :: rest => completes sys e deed + completed sys (enact sys e deed) rest

theorem erase_enact (sys : System σ ρ ε) (e : Recorded σ ρ ε) (deed : Deed σ) :
    Recorded.erase (enact sys.recorded e deed.marked) = enact sys (Recorded.erase e) deed := by
  cases deed with
  | ask op => exact congrArg Prod.snd (erased_perform sys e op)
  | touch => rfl

theorem erase_enactAll (sys : System σ ρ ε) (e : Recorded σ ρ ε) (deeds : List (Deed σ)) :
    Recorded.erase ((deeds.map marked).foldl (enact sys.recorded) e) = deeds.foldl (enact sys) (Recorded.erase e) := by
  induction deeds generalizing e with
  | nil => rfl
  | cons deed rest ih =>
    rw [List.map_cons, List.foldl_cons, List.foldl_cons, ih, erase_enact]

/-- The screen counts the frames that are completed. -/
theorem numbered_enact (sys : System σ ρ ε) (he : e.Orderly) (hnumbered : Numbered e) (deed : Deed σ) :
    let e' := enact sys.recorded e deed.marked
    e'.Orderly ∧ Numbered e' ∧ e'.screen.frame = e.screen.frame + completes sys (Recorded.erase e) deed := by
  cases deed with
  | ask op =>
    obtain ⟨acts, hperformed⟩ := exists_performed sys he op
    obtain ⟨hafter, _, hframe, _⟩ := hperformed.numbered hnumbered
    refine ⟨he.perform sys op, hafter, hframe.trans ?_⟩
    rw [completes, ← erased_perform]
    rfl
  | touch change unflipped =>
    have hscreen := unflipped e.screen
    exact ⟨he.congr (fun _ => rfl) rfl, hnumbered.aside hscreen rfl rfl id, hscreen.frame⟩

theorem numbered_enactAll (sys : System σ ρ ε) (he : e.Orderly) (hnumbered : Numbered e) (deeds : List (Deed σ)) :
    let e' := (deeds.map marked).foldl (enact sys.recorded) e
    e'.Orderly ∧ Numbered e' ∧ e'.screen.frame = e.screen.frame + completed sys (Recorded.erase e) deeds := by
  induction deeds generalizing e with
  | nil => exact ⟨he, hnumbered, rfl⟩
  | cons deed rest ih =>
    obtain ⟨he', hafter, hframe⟩ := numbered_enact sys he hnumbered deed
    obtain ⟨hlast, hnumbered', hcount⟩ := ih he' hafter
    refine ⟨hlast, hnumbered', hcount.trans ?_⟩
    rw [completed, ← erase_enact, hframe, Nat.add_assoc]

end Deed

/-- Of what an operation says of a frame the number is that of the frame after `n` completed ones: everybody who is
called sees it, and it stands in what is reported. -/
structure Bears (sys : System σ ρ ε) (e : Recorded σ ρ ε) (n : Nat) (op : Op σ) : Prop where
  seen : ∃ calls, (perform sys.recorded e op.marked).2.log = e.log ++ calls ∧
    ∀ visit ∈ visits calls, visit.context.frame = n + 1
  noticed : ∀ notice flushed, (perform sys.recorded e op.marked).1 = .ok (.ended notice flushed) → notice.frame = n + 1
  reported : ∀ report, (perform sys.recorded e op.marked).1 = .ok (.frame report) →
    report.frame = n + 1 ∧ report.presented.frame = n + 1

theorem bears_next (sys : System σ ρ ε) (he : e.Orderly) (hnumbered : Numbered e) (op : Op σ) :
    Bears sys e e.screen.frame op := by
  obtain ⟨acts, hperformed⟩ := exists_performed sys he op
  obtain ⟨_, hvisits, hframe, hcaught⟩ := hperformed.numbered hnumbered
  have hended (hcompleted : Completed op (perform sys.recorded e op.marked).1) :
      (perform sys.recorded e op.marked).2.screen.frame = e.screen.frame + 1 := by
    rw [hframe, if_pos hcompleted]
  refine ⟨⟨_, hperformed.tale.story.log, hvisits⟩, fun notice flushed hanswer => ?_, fun report hanswer => ?_⟩
  · obtain ⟨hop, hnotice⟩ := notice_of_ended sys.recorded e hanswer
    exact hnotice.trans (hended ⟨Op.endsFrame_of_marked hop, _, hanswer⟩)
  · obtain ⟨hop, hreport, hpresented⟩ := report_of_frame sys.recorded e hanswer
    have hcompleted : Completed op (perform sys.recorded e op.marked).1 := ⟨Op.endsFrame_of_marked hop, _, hanswer⟩
    exact ⟨hreport.trans ((hcaught hcompleted).trans (hended hcompleted)), hpresented.trans (hended hcompleted)⟩

/-- After every run of operations, with the screen touched by others in between but not flipped, the scheduler and
the screen agree on the number of the frame: before an early phase they are the same, and once it has begun the
scheduler is one ahead; if it is poisoned, either may be. The screen bears the number of completed frames, as does the
list that it presents; and the frame that is run next goes by the number after it, wherever it is told. -/
theorem frame_numbers_agree (sys : System σ ρ ε) (settings : Settings.Scheduling) (layered : Bool) (size : Nat)
    (host : ε) (deeds : List (Deed σ)) :
    let screen := Screen.blank layered size
    let e : Recorded σ ρ ε := (deeds.map Deed.marked).foldl (Deed.enact sys.recorded) (start settings screen (host, []))
    let n := Deed.completed sys (start settings screen host) deeds
    Recorded.erase e = deeds.foldl (Deed.enact sys) (start settings screen host) ∧
    (e.scheduler.poisoned = false →
      e.scheduler.frame = if e.scheduler.next = .phase .early then e.screen.frame else e.screen.frame + 1) ∧
    (e.scheduler.frame = e.screen.frame ∨ e.scheduler.frame = e.screen.frame + 1) ∧
    e.screen.frame = n ∧ e.screen.presentable.frame = n ∧
    ∀ op : Op σ, Bears sys e n op := by
  intro screen e n
  have hstart := Orderly.start (σ := σ) settings screen (host, ([] : List (Call ρ)))
  obtain ⟨he, hnumbered, hcount⟩ :=
    Deed.numbered_enactAll sys hstart (.start settings layered size host) deeds
  have hframe : e.screen.frame = n := hcount.trans (Nat.zero_add _)
  refine ⟨Deed.erase_enactAll sys (start settings screen (host, [])) deeds, hnumbered.current, hnumbered.near, hframe,
    hnumbered.stamp.trans hframe, fun op => ?_⟩
  rw [← hframe]
  exact bears_next sys he hnumbered op

end Engine

end Cadence
