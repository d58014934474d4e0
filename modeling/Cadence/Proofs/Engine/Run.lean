import Cadence.Proofs.Engine.Rule

/-!
Runs of operations from an engine in which nothing has happened yet, and the calls of the systems that an operation
makes on the way. An invariant that follows the rule holds after every run and at every call.
-/

namespace Cadence.Engine

variable {σ ρ ε : Type}

/-- An engine in which nothing has happened yet. -/
def start (settings : Settings.Scheduling) (screen : Screen) (host : ε) : Engine σ ρ ε :=
  { scheduler := { settings }, screen, host }

/-- Does operations one after the other; those that fail leave their engine too. -/
def run (sys : System σ ρ ε) (e : Engine σ ρ ε) (ops : List (Op σ)) : Engine σ ρ ε :=
  ops.foldl (fun e op => (perform sys e op).2) e

theorem run_append (sys : System σ ρ ε) (e : Engine σ ρ ε) (ops ops' : List (Op σ)) :
    run sys e (ops ++ ops') = run sys (run sys e ops) ops' := List.foldl_append ..

/-- The operation is there to run phases or to end a frame. -/
def Op.IsStep : Op σ → Prop
  | runPhase .. | endFrame | runFrame _ => True
  | _ => False

/-- What the scheduler refuses leaves the engine as it is. -/
theorem perform_of_check (sys : System σ ρ ε) {e : Engine σ ρ ε} {err : EngineError}
    (hcheck : ∀ step, e.scheduler.check step = .error err) {op : Op σ} (hop : op.IsStep) :
    perform sys e op = (.error err, e) := by
  cases op with
  | runPhase phase dt parallel => simp only [perform, runPhase, hcheck, answered, Except.map]
  | endFrame => simp only [perform, endFrame, hcheck, answered, Except.map]
  | runFrame dt => simp only [perform, runFrame, runPhases, Phase.all, runPhase, hcheck, answered, Except.map]
  | _ => cases hop

/-! ### What an operation does to the world -/

/-- The world once an operation has changed it, before anything is routed. -/
def Op.edited (w : World) : Op σ → World
  | spawn persistent => (w.spawn persistent).2
  | attach entity c => (w.attach entity c).2
  | detach h => (w.detach h).2
  | mark entity => (w.mark entity).2
  | clear persistentToo => (w.clear persistentToo).2
  | edit change => (w.perform change).2
  | _ => w

/-- An operation on `w` that changes the world itself only as `edits` allows, and registers systems only where `fits`
does. -/
structure Op.Keeps (edits : World → World → Prop) (fits : Phase → σ → Prop) (w : World) (op : Op σ) : Prop where
  edited : edits w (op.edited w)
  fits : ∀ phase s, op = .register phase s → fits phase s
  unrouted : ∀ event, op ≠ .route event

/-- The change that an operation makes to the world itself. -/
def Op.change? : Op σ → Option (World.Edit Entity Handle)
  | spawn persistent => some (.spawn persistent)
  | attach entity c => some (.attach entity c)
  | detach h => some (.detach h)
  | mark entity => some (.mark entity)
  | clear persistentToo => some (.clear persistentToo)
  | edit change => some change
  | _ => none

theorem Op.edited_eq (w : World) (op : Op σ) : op.edited w = op.change?.elim w fun change => (w.perform change).2 := by
  cases op <;> rfl

theorem Op.IsRouted.change {fits : Phase → σ → Prop} {op : Op σ} (h : op.IsRouted fits)
    {change : World.Edit Entity Handle} (hchange : op.change? = some change) : change.IsRouted := by
  cases op with
  | edit change' =>
    cases hchange
    exact h
  | _ => cases hchange <;> trivial

theorem Op.IsUnflushed.keeps {edits : World → World → Prop} {fits : Phase → σ → Prop} {op : Op σ}
    (h : op.IsUnflushed fits) {w : World} (hrefl : edits w w)
    (hchange : ∀ change, op.change? = some change → edits w (w.perform change).2) : op.Keeps edits fits w where
  edited := by
    rw [edited_eq]
    cases hop : op.change? with
    | none => exact hrefl
    | some change => exact hchange change hop
  fits := by
    rintro phase s rfl
    exact h
  unrouted := by
    rintro event rfl
    exact h

theorem Op.IsRouted.isUnflushed {fits : Phase → σ → Prop} {op : Op σ} (h : op.IsRouted fits) : op.IsUnflushed fits := by
  cases op with
  | edit change => cases change <;> trivial
  | _ => exact h

/-- Every operation of a list keeps to `edits` and `fits` when its turn comes. -/
def KeepsTo (edits : World → World → Prop) (fits : Phase → σ → Prop) (sys : System σ ρ ε) (e : Engine σ ρ ε) :
    List (Op σ) → Prop
  | [] => True
  | op :: rest => op.Keeps edits fits e.world ∧ KeepsTo edits fits sys (perform sys e op).2 rest

theorem keepsTo_append {edits : World → World → Prop} {fits : Phase → σ → Prop} {sys : System σ ρ ε} {e : Engine σ ρ ε}
    {ops ops' : List (Op σ)} :
    KeepsTo edits fits sys e (ops ++ ops') ↔
      KeepsTo edits fits sys e ops ∧ KeepsTo edits fits sys (run sys e ops) ops' := by
  induction ops generalizing e with
  | nil => simp [KeepsTo, run]
  | cons op rest ih =>
    rw [List.cons_append, KeepsTo, KeepsTo, ih, and_assoc]
    rfl

/-! ### Calls -/

/-- A phase that runs on `e` calls a system in `e'`: to update it, on this thread or on a worker, when the first `i`
systems have been updated, or to apply a result, when those of the first `i` systems have been applied. -/
inductive PhaseCalls (sys : System σ ρ ε) (phase : Phase) (dt : Float32) : Bool → Engine σ ρ ε → Engine σ ρ ε → Prop
  | serial {e e₁ e' : Engine σ ρ ε} {n i : Nat} (hcheck : e.scheduler.check (.phase phase) = .ok ())
      (hdeliver : deliver sys (e.beginPhase phase) = (.ok n, e₁)) (hi : i < (e₁.labels phase).length)
      (hupdate : inOrder (updateSerial sys phase dt) e₁ (List.range i) = (.ok (), e')) :
      PhaseCalls sys phase dt false e e'
  | worker {e e₁ e' : Engine σ ρ ε} {n i : Nat} {failure : Option EngineError}
      (hcheck : e.scheduler.check (.phase phase) = .ok ())
      (hdeliver : deliver sys (e.beginPhase phase) = (.ok n, e₁)) (hi : i < (e₁.labels phase).length)
      (hupdate : (List.range i).foldl (updateParallel sys phase dt) (none, e₁) = (failure, e')) :
      PhaseCalls sys phase dt true e e'
  | apply {parallel : Bool} {e e₁ e₂ : Engine σ ρ ε} {a : Applied σ ρ ε} {n i : Nat}
      (hcheck : e.scheduler.check (.phase phase) = .ok ())
      (hdeliver : deliver sys (e.beginPhase phase) = (.ok n, e₁)) (hi : i < (e₁.labels phase).length)
      (hupdate : updateAll sys phase dt parallel e₁ = (.ok (), e₂))
      (happly : inOrder (applyResult sys phase) { engine := e₂ } (List.range i) = (.ok (), a)) :
      PhaseCalls sys phase dt parallel e a.engine

/-- An operation on `e` calls a system to update it or to apply its result in `e'`. -/
inductive Calls (sys : System σ ρ ε) (e : Engine σ ρ ε) : Op σ → Engine σ ρ ε → Prop
  | runPhase {phase : Phase} {dt : Float32} {parallel : Bool} {e' : Engine σ ρ ε}
      (h : PhaseCalls sys phase dt parallel e e') : Calls sys e (.runPhase phase dt parallel) e'
  | runFrame {before after : List Phase} {phase : Phase} {dt : Float32} {reports : List PhaseReport}
      {e₁ e' : Engine σ ρ ε} (hall : Phase.all = before ++ phase :: after)
      (hbefore : runPhases sys e dt before = (.ok reports, e₁))
      (h : PhaseCalls sys phase dt (e₁.scheduler.settings.parallel.get phase) e₁ e') : Calls sys e (.runFrame dt) e'

namespace PhaseRule

variable {sys : System σ ρ ε} {I : Stage → Engine σ ρ ε → Prop}

/-- Of the stages in which a phase makes calls. -/
def InCall (I : Stage → Engine σ ρ ε → Prop) (e : Engine σ ρ ε) : Prop :=
  ∃ phase i, (∃ failed, I (.updating phase i failed) e) ∨ I (.applying phase i) e

theorem at_phaseCalls (rule : PhaseRule sys I) {phase : Phase} {dt : Float32} {parallel : Bool} {e e' : Engine σ ρ ε}
    (h : I .between e) (hcalls : PhaseCalls sys phase dt parallel e e') : InCall I e' ∧ e'.world.events = #[] := by
  cases hcalls with
  | serial hcheck hdeliver hi hupdate =>
    have hat := (rule.leaves_begin h hcheck).of_ok hdeliver
    obtain ⟨hstage, hevents, _⟩ := (rule.leaves_updateSerials dt (Nat.le_of_lt hi) hat).of_ok hupdate
    exact ⟨⟨phase, _, .inl ⟨false, hstage⟩⟩, hevents⟩
  | worker hcheck hdeliver hi hupdate =>
    have hat := (rule.leaves_begin h hcheck).of_ok hdeliver
    obtain ⟨hstage, hevents, _⟩ := rule.at_updateParallels dt (Nat.le_of_lt hi) hat
    rw [hupdate] at hstage hevents
    exact ⟨⟨phase, _, .inl ⟨_, hstage⟩⟩, hevents⟩
  | apply hcheck hdeliver hi hupdate happly =>
    have hat := (rule.leaves_begin h hcheck).of_ok hdeliver
    have hturn := ((rule.leaves_updateAll dt parallel hat).of_ok hupdate).turn rule
    obtain ⟨hstage, hevents, _⟩ := (rule.leaves_applyResults (Nat.le_of_lt hi) hturn).of_ok happly
    exact ⟨⟨phase, _, .inr hstage⟩, hevents⟩

theorem between_runPhases (rule : PhaseRule sys I) (dt : Float32) (phases : List Phase) {e : Engine σ ρ ε}
    (h : I .between e) : I .between (runPhases sys e dt phases).2 := by
  induction phases generalizing e with
  | nil => exact h
  | cons phase rest ih =>
    have hphase := rule.between_runPhase h phase dt (e.scheduler.settings.parallel.get phase)
    rw [runPhases]
    rcases hresult : runPhase sys e phase dt (e.scheduler.settings.parallel.get phase) with ⟨err | report, e₁⟩
    · rw [hresult] at hphase
      exact hphase
    · rw [hresult] at hphase
      exact ih hphase

theorem at_calls (rule : PhaseRule sys I) {e e' : Engine σ ρ ε} {op : Op σ} (h : I .between e)
    (hcalls : Calls sys e op e') : InCall I e' ∧ e'.world.events = #[] := by
  cases hcalls with
  | runPhase hphase => exact rule.at_phaseCalls h hphase
  | @runFrame before _ _ dt _ _ _ _ hbefore hphase =>
    -- the phases before this one have been run
    have hstart := rule.between_runPhases dt before h
    rw [hbefore] at hstart
    exact rule.at_phaseCalls hstart hphase

end PhaseRule

/-! ### Operations -/

namespace RuleFor

variable {edits : World → World → Prop} {sys : System σ ρ ε} {fits : Phase → σ → Prop}
  {I : Stage → Engine σ ρ ε → Prop}

theorem between_deliver (rule : RuleFor edits sys fits I) {e : Engine σ ρ ε} (h : I .between e) :
    I .between (Engine.deliver sys e).2 := by
  refine ((rule.delivered h).mono ?_ ?_).snd
  · rintro _ e' ⟨hstage, _⟩
    exact hstage
  · rintro _ e' ⟨hbroken, hpoisoned⟩
    exact rule.settle hbroken hpoisoned

theorem between_endFrame (rule : RuleFor edits sys fits I) {e : Engine σ ρ ε} (h : I .between e) :
    I .between (Engine.endFrame sys e).2 := by
  rw [Engine.endFrame]
  cases e.scheduler.check .endOfFrame with
  | error err => exact h
  | ok _ =>
    have hdelivered := rule.delivered h
    dsimp only
    rcases hresult : Engine.deliver sys e with ⟨err | _, e₁⟩
    · exact rule.abort (hdelivered.of_error hresult).1
    · obtain ⟨hstage, hevents, _⟩ := hdelivered.of_ok hresult
      exact rule.endFrame hstage hevents

theorem between_runFrame (rule : RuleFor edits sys fits I) (dt : Float32) {e : Engine σ ρ ε} (h : I .between e) :
    I .between (runFrame sys e dt).2 := by
  have hphases := rule.between_runPhases dt Phase.all h
  rw [runFrame]
  rcases hresult : runPhases sys e dt Phase.all with ⟨err | reports, e₁⟩
  · rw [hresult] at hphases
    exact hphases
  · rw [hresult] at hphases
    have hend := rule.between_endFrame hphases
    dsimp only
    rcases hresult : Engine.endFrame sys e₁ with ⟨err | report, e₂⟩ <;> rw [hresult] at hend <;> exact hend

theorem between_immediately {α : Type} (rule : RuleFor edits sys fits I) {e : Engine σ ρ ε} (h : I .between e)
    (op : World → Except WorldError α × World) (hop : edits e.world (op e.world).2) :
    I .between (immediately sys e op).2 := by
  have hedit := rule.edit h hop
  rw [immediately]
  rcases hresult : op e.world with ⟨err | a, world⟩
  · rw [hresult] at hedit
    exact hedit
  · rw [hresult] at hedit
    have hdeliver := rule.between_deliver hedit
    dsimp only at hdeliver ⊢
    rcases hresult : Engine.deliver sys { e with world } with ⟨err | n, e₁⟩ <;> rw [hresult] at hdeliver <;> exact hdeliver

theorem between_register (rule : RuleFor edits sys fits I) {e : Engine σ ρ ε} (h : I .between e) {phase : Phase} {s : σ}
    (hs : fits phase s) : I .between (Engine.register sys e phase s).2 := by
  have hdelivered := (rule.delivered h).and (leaves_deliver sys e)
  rw [Engine.register]
  dsimp only
  split
  · exact h
  split
  · exact h
  rename_i hname
  split
  · exact h
  rcases hresult : Engine.deliver sys e with ⟨err | _, e₁⟩
  · obtain ⟨⟨hbroken, hpoisoned⟩, _⟩ := hdelivered.of_error hresult
    exact rule.settle hbroken hpoisoned
  obtain ⟨⟨hstage, hevents, _⟩, hframe, _⟩ := hdelivered.of_ok hresult
  have hfresh : sys.name s ∉ e₁.scheduler.names := by
    obtain ⟨_, _, rfl⟩ := hframe
    simpa using hname
  dsimp only
  cases hinit : (sys.init e₁.world phase e₁.scheduler.nextId s e₁.host).outcome with
  | error fault => exact rule.host hstage (.init hinit)
  | ok _ =>
    dsimp only
    split
    · rename_i hoffers
      exact rule.host hstage (.offer hoffers)
    · rename_i hoffers
      exact rule.register hstage hevents hs hfresh hinit hoffers

theorem between_perform_of_keeps (rule : RuleFor edits sys fits I) {e : Engine σ ρ ε} (h : I .between e) {op : Op σ}
    (hop : op.Keeps edits fits e.world) : I .between (perform sys e op).2 := by
  have hedited := hop.edited
  cases op with
  | register phase s => exact rule.between_register h (hop.fits phase s rfl)
  | spawn persistent => exact rule.edit h hedited
  | attach entity c => exact rule.between_immediately h (·.attach entity c) hedited
  | detach handle => exact rule.between_immediately h (·.detach handle) hedited
  | mark entity => exact rule.between_immediately h (·.mark entity) hedited
  | clear persistentToo => exact rule.between_immediately h (·.clear persistentToo) hedited
  | edit change => exact rule.edit h hedited
  | runPhase phase dt parallel => exact rule.between_runPhase h phase dt parallel
  | endFrame => exact rule.between_endFrame h
  | runFrame dt => exact rule.between_runFrame dt h
  | deliver => exact rule.between_deliver h
  | route event => exact absurd rfl (hop.unrouted event)
  | shutdown => exact rule.shutdown h

theorem between_run_of_keeps (rule : RuleFor edits sys fits I) {e : Engine σ ρ ε} (h : I .between e)
    {ops : List (Op σ)} (hops : KeepsTo edits fits sys e ops) : I .between (run sys e ops) := by
  induction ops generalizing e with
  | nil => exact h
  | cons op rest ih => exact ih (rule.between_perform_of_keeps h hops.1) hops.2

end RuleFor

namespace Rule

variable {sys : System σ ρ ε} {fits : Phase → σ → Prop} {I : Stage → Engine σ ρ ε → Prop}

theorem between_perform (rule : Rule sys fits I) {e : Engine σ ρ ε} (h : I .between e) {op : Op σ}
    (hop : op.IsRouted fits) : I .between (perform sys e op).2 :=
  rule.between_perform_of_keeps h (hop.isUnflushed.keeps (.refl _) fun change hchange =>
    .perform _ change (hop.change hchange))

theorem between_run (rule : Rule sys fits I) {e : Engine σ ρ ε} (h : I .between e) {ops : List (Op σ)}
    (hops : ∀ op ∈ ops, op.IsRouted fits) : I .between (run sys e ops) := by
  induction ops generalizing e with
  | nil => exact h
  | cons op rest ih =>
    exact ih (rule.between_perform h (hops op (by simp))) fun op hmem => hops op (by simp [hmem])

end Rule

end Cadence.Engine
