import Cadence.Proofs.Engine.Tale
import Cadence.Proofs.World.Retention

/-!
Deletions take effect at the end of a frame. Short of a flush nothing is released, and a flush releases what has been
marked or detached; so where systems leave the flush to the end of the frame, all that can be dereferenced when a frame
starts can be dereferenced in each of its callbacks.
-/

namespace Cadence

variable {σ ρ ε : Type}

/-- Systems that change the world by its operations only, and leave the flush to the end of the frame. -/
structure System.NeverFlushes (sys : System σ ρ ε) : Prop where
  updateSerial : ∀ (ctx : Context) dt s host, ctx.world.Unflushed (sys.updateSerial ctx dt s host).world
  apply : ∀ result (ctx : Context) s host, ctx.world.Unflushed (sys.apply result ctx s host).world

namespace Engine

variable {sys : System σ ρ ε} {e e' : Engine σ ρ ε} {w : World}

/-! ### Worlds without a flush -/

theorem world_deliver (sys : System σ ρ ε) (e : Engine σ ρ ε) : (deliver sys e).2.world = e.world.drain.2 :=
  ((leaves_deliver sys e).mono (fun _ _ h => h.1.world) fun _ _ h => h.1).snd
    (I := fun (e' : Engine σ ρ ε) => e'.world = e.world.drain.2)

theorem world_route (sys : System σ ρ ε) (e : Engine σ ρ ε) (event : Event) : (route sys e event).2.world = e.world :=
  ((leaves_route sys e event).mono (fun _ _ h => h.1.world) fun _ _ h => h.1.world).snd
    (I := fun (e' : Engine σ ρ ε) => e'.world = e.world)

theorem unflushed_deliver (sys : System σ ρ ε) (h : w.Unflushed e.world) : w.Unflushed (deliver sys e).2.world := by
  rw [world_deliver]
  exact h.trans (.perform e.world .drain nofun)

/-- No step of a phase flushes. -/
theorem unflushed_rule (hsys : sys.NeverFlushes) (w : World) :
    PhaseRule sys fun _ (e : Engine σ ρ ε) => w.Unflushed e.world where
  deliver h := .of_snd (I := fun (e : Engine σ ρ ε) => w.Unflushed e.world) (unflushed_deliver sys h)
  begin {phase e} h _ := by
    rw [beginPhase]
    split <;> exact h
  serial {phase dt i e slot reply result} h _ _ hreply _ := by
    subst hreply
    rw [world_after]
    exact h.trans (hsys.updateSerial ..)
  serial_error {phase dt i e slot reply fault} h _ _ hreply _ := by
    subst hreply
    rw [world_after]
    exact h.trans (hsys.updateSerial ..)
  worker h _ _ _ _ := by
    rw [world_after]
    exact h
  worker_error h _ _ _ _ := by
    rw [world_after]
    exact h
  join h := h
  turn h _ := h
  skip h _ _ := h
  apply {phase i e slot result reply} h _ _ _ hreply _ := by
    subst hreply
    rw [world_after]
    exact h.trans (hsys.apply ..)
  apply_error {phase i e slot result reply fault} h _ _ _ hreply _ := by
    subst hreply
    rw [world_after]
    exact h.trans (hsys.apply ..)
  finish h _ := h
  abort h := h

theorem unflushed_register (sys : System σ ρ ε) (h : w.Unflushed e.world) (phase : Phase) (s : σ) :
    w.Unflushed (register sys e phase s).2.world := by
  have hdelivered := unflushed_deliver sys h
  rw [register]
  dsimp only
  split
  · exact h
  split
  · exact h
  split
  · exact h
  rcases hresult : deliver sys e with ⟨err | _, e₁⟩ <;> rw [hresult] at hdelivered
  · exact hdelivered
  dsimp only
  split
  · exact hdelivered
  split <;> exact hdelivered

theorem unflushed_immediately {α : Type} (sys : System σ ρ ε) (op : World → Except WorldError α × World)
    (h : w.Unflushed (op e.world).2) : w.Unflushed (immediately sys e op).2.world := by
  rw [immediately]
  rcases hresult : op e.world with ⟨err | a, world⟩ <;> rw [hresult] at h
  · exact h
  have hdelivered := unflushed_deliver sys (e := { e with world }) h
  dsimp only
  rcases hresult : deliver sys { e with world } with ⟨err | _, e₁⟩ <;> rw [hresult] at hdelivered <;> exact hdelivered

/-- The end of a frame flushes, unless it is refused or broken off. -/
theorem flushes_endFrame (sys : System σ ρ ε) (h : w.Unflushed e.world) :
    Leaves (fun _ e' => ∃ w', w.Unflushed w' ∧ e'.world = w'.flush.2) (fun _ e' => w.Unflushed e'.world)
      (endFrame sys e) := by
  rw [endFrame]
  cases e.scheduler.check .endOfFrame with
  | error err => exact h
  | ok _ =>
    have hdelivered := unflushed_deliver sys h
    dsimp only
    rcases hresult : deliver sys e with ⟨err | _, e₁⟩ <;> rw [hresult] at hdelivered
    · exact hdelivered
    · exact ⟨e₁.world, hdelivered, rfl⟩

theorem flushes_runFrame (hsys : sys.NeverFlushes) (h : w.Unflushed e.world) (dt : Float32) :
    Leaves (fun _ e' => ∃ w', w.Unflushed w' ∧ e'.world = w'.flush.2) (fun _ e' => w.Unflushed e'.world)
      (runFrame sys e dt) := by
  have hphases := (unflushed_rule hsys w).between_runPhases dt Phase.all h
  rw [runFrame]
  rcases hresult : runPhases sys e dt Phase.all with ⟨err | reports, e₁⟩ <;> rw [hresult] at hphases
  · exact hphases
  have hend := flushes_endFrame sys hphases
  dsimp only
  rcases hresult : endFrame sys e₁ with ⟨err | report, e₂⟩
  · exact hend.of_error hresult
  · exact hend.of_ok hresult

/-! ### Operations -/

/-- An operation flushes once, at its end, if it completes a frame, and otherwise not at all. -/
def FlushesIf (completed : Prop) (w w' : World) : Prop :=
  (completed → ∃ w₁, w.Unflushed w₁ ∧ w' = w₁.flush.2) ∧ (¬ completed → w.Unflushed w')

theorem FlushesIf.never {completed : Prop} {w' : World} (h : w.Unflushed w') (hnot : ¬ completed) :
    FlushesIf completed w w' := ⟨fun hcompleted => absurd hcompleted hnot, fun _ => h⟩

theorem FlushesIf.of_leaves {α : Type} {op : Op σ} {r : Except EngineError α × Engine σ ρ ε} (f : α → Answer)
    (hop : op.EndsFrame)
    (h : Leaves (fun _ e' => ∃ w', w.Unflushed w' ∧ e'.world = w'.flush.2) (fun _ e' => w.Unflushed e'.world) r) :
    FlushesIf (Completed op (answered f r).1) w (answered f r).2.world := by
  obtain ⟨err | a, e'⟩ := r
  · refine .never h ?_
    rintro ⟨_, _, ⟨⟩⟩
  · exact ⟨fun _ => h, fun hnot => absurd ⟨hop, f a, rfl⟩ hnot⟩

theorem flushesIf_perform (hsys : sys.NeverFlushes) (e : Engine σ ρ ε) {op : Op σ} (hop : op ≠ .edit .flush) :
    FlushesIf (Completed op (perform sys e op).1) e.world (perform sys e op).2.world := by
  have hsame : e.world.Unflushed e.world := .refl e.world
  have hchange (edit : World.Edit Entity Handle) (hedit : edit ≠ .flush) : e.world.Unflushed (e.world.perform edit).2 :=
    .perform e.world edit hedit
  cases op with
  | register phase s => exact .never (unflushed_register sys hsame phase s) And.left
  | spawn persistent => exact .never (hchange (.spawn persistent) nofun) And.left
  | attach entity c =>
    exact .never (unflushed_immediately sys (·.attach entity c) (hchange (.attach entity c) nofun)) And.left
  | detach handle =>
    exact .never (unflushed_immediately sys (·.detach handle) (hchange (.detach handle) nofun)) And.left
  | mark entity => exact .never (unflushed_immediately sys (·.mark entity) (hchange (.mark entity) nofun)) And.left
  | clear persistentToo =>
    exact .never (unflushed_immediately sys (·.clear persistentToo) (hchange (.clear persistentToo) nofun)) And.left
  | edit change => exact .never (hchange change fun hflush => hop (congrArg Op.edit hflush)) And.left
  | runPhase phase dt parallel =>
    exact .never ((unflushed_rule hsys e.world).between_runPhase hsame phase dt parallel) And.left
  | endFrame => exact .of_leaves _ trivial (flushes_endFrame sys hsame)
  | runFrame dt => exact .of_leaves _ trivial (flushes_runFrame hsys hsame dt)
  | deliver => exact .never (unflushed_deliver sys hsame) And.left
  | route event =>
    refine .never ?_ And.left
    show e.world.Unflushed (route sys e event).2.world
    rw [world_route]
    exact hsame
  | shutdown =>
    refine .never ?_ And.left
    rw [perform, shutdown]
    split <;> exact hsame

/-! ### Runs -/

/-- No frame is completed by these operations. -/
def WithinFrame (sys : System σ ρ ε) : Engine σ ρ ε → List (Op σ) → Prop
  | _, [] => True
  | e, op :: ops => ¬ Completed op (perform sys e op).1 ∧ WithinFrame sys (perform sys e op).2 ops

theorem unflushed_run (hsys : sys.NeverFlushes) {ops : List (Op σ)} (hops : ∀ op ∈ ops, op ≠ .edit .flush)
    (hframe : WithinFrame sys e ops) (h : w.Unflushed e.world) : w.Unflushed (run sys e ops).world := by
  induction ops generalizing e with
  | nil => exact h
  | cons op rest ih =>
    obtain ⟨hop, hrest⟩ := List.forall_mem_cons.mp hops
    exact ih hrest hframe.2 (h.trans ((flushesIf_perform hsys e hop).2 hframe.1))

theorem sound_run (hsys : sys.NeverFlushes) {ops : List (Op σ)} (hops : ∀ op ∈ ops, op ≠ .edit .flush)
    (h : e.world.Sound) : (run sys e ops).world.Sound := by
  induction ops generalizing e with
  | nil => exact h
  | cons op rest ih =>
    obtain ⟨hop, hrest⟩ := List.forall_mem_cons.mp hops
    refine ih hrest ?_
    have hflushes := flushesIf_perform hsys e hop
    by_cases hcompleted : Completed op (perform sys e op).1
    · obtain ⟨w, hw, hflush⟩ := hflushes.1 hcompleted
      rw [hflush]
      exact World.sound_flush (hw.sound h)
    · exact (hflushes.2 hcompleted).sound h

/-! ### Callbacks -/

/-- A callback that an operation makes gets to see a world. The callbacks for attached and detached components see
none. -/
inductive Shows (sys : System σ ρ ε) (e : Engine σ ρ ε) : Op σ → World → Prop
  | init {phase : Phase} {s : σ} {n : Nat} {e' : Engine σ ρ ε} (hdeliver : deliver sys e = (.ok n, e')) :
      Shows sys e (.register phase s) e'.world
  | frame {op : Op σ} {e' : Engine σ ρ ε} (hcalls : Calls sys e op e') : Shows sys e op e'.world

theorem Shows.unflushed (hsys : sys.NeverFlushes) {op : Op σ} {w' : World} (hshows : Shows sys e op w')
    (h : w.Unflushed e.world) : w.Unflushed w' := by
  cases hshows with
  | init hdeliver =>
    have hdelivered := unflushed_deliver sys h
    rw [hdeliver] at hdelivered
    exact hdelivered
  | frame hcalls =>
    obtain ⟨⟨_, _, ⟨_, hcall⟩ | hcall⟩, _⟩ := (unflushed_rule hsys w).at_calls h hcalls
    · exact hcall
    · exact hcall

/-- Whatever exists or is stored stays so through every change that is no flush, and keeps its data unless the change is
a write to it; a flush removes what has been deleted and nothing else. Hence whatever can be dereferenced at some
moment, such as the start of a frame, can be dereferenced throughout every callback until the frame is completed, if
only the ends of frames flush. -/
theorem deletion_is_deferred (sys : System σ ρ ε) (hsys : sys.NeverFlushes) (settings : Settings.Scheduling)
    (screen : Screen) (host : ε) (before during : List (Op σ)) (hops : ∀ op ∈ before ++ during, op ≠ .edit .flush) :
    (∀ edits (edit : World.Edit Entity Handle), edit ≠ .flush →
      let w := World.run .empty edits
      w.Resolves (edit.target? = some ·) (w.perform edit).2) ∧
    (∀ edits, let w := World.run .empty edits
      w.DropsDeleted w.flush.2) ∧
    let e := run sys (start settings screen host) before
    WithinFrame sys e during →
      ∀ op w, Shows sys (run sys e during) op w → ∀ w', w.Unflushed w' → e.world.Resolves (fun _ => True) w' := by
  refine ⟨fun edits edit hedit => ?_, fun edits => ?_, fun hframe op w hshows w' hw' => ?_⟩
  · have hretains := World.retains_perform (World.sound_run World.sound_empty edits) hedit
    exact hretains.resolves.mono fun h hmem => by simpa using hmem
  · exact World.dropsDeleted_flush (World.sound_run World.sound_empty edits)
  · obtain ⟨hbefore, hduring⟩ := List.forall_mem_append.mp hops
    have hsound := sound_run hsys (e := start settings screen host) hbefore World.sound_empty
    have hlater := hshows.unflushed hsys (unflushed_run hsys hduring hframe (.refl _))
    have hthroughout : (run sys (start settings screen host) before).world.Unflushed w' := hlater.trans hw'
    obtain ⟨written, hretains⟩ := hthroughout.retains hsound
    exact hretains.resolves.mono fun _ _ => trivial

/-! ### A component detached in the middle of a frame -/

/-- A system that detaches one component whenever it is updated. -/
def detaching : System Handle Unit Unit where
  name h := if h.index = 1 then "first" else "second"
  accepts _ _ := false
  update _ _ h host := { outcome := .ok none, system := h, host }
  updateSerial ctx _ h host := { outcome := .ok none, system := h, host, world := (ctx.world.detach h).2 }
  byteSize _ := 0

theorem detaching_neverFlushes : detaching.NeverFlushes where
  updateSerial ctx _ h _ := .perform ctx.world (.detach h) nofun
  apply _ ctx _ _ := .refl ctx.world

/-- An entity with a component, and systems that detach components in the early phase and in the script phase. -/
def detachers : List (Op Handle) :=
  [.spawn false, .attach ⟨0, 0⟩ ⟨.velocity, ⟨1, 0⟩⟩, .register .early ⟨1, 1⟩, .register .script ⟨2, 1⟩]

/-- The component is detached in the early phase, and then the entity is marked. -/
def detachEarly : List (Op Handle) := [.runPhase .early 1 false, .mark ⟨0, 0⟩]

/-- The engine between the early and the script phase. -/
def detachedEarly : Engine Handle Unit Unit := run detaching (run detaching (start {} {} ()) detachers) detachEarly

/-- What was deleted in the early phase can be dereferenced in the script phase. -/
theorem deleted_resolves_in_script :
    ∃ w, Shows detaching detachedEarly (.runPhase .script 1 false) w ∧
      w.state? ⟨0, 0⟩ = some .pending ∧ w.store.attachment? ⟨1, 1⟩ = some .detached ∧
      (run detaching (start {} {} ()) detachers).world.Resolves (fun _ => True) w := by
  have hdeferred := deletion_is_deferred detaching detaching_neverFlushes {} {} () detachers detachEarly
    (by simp [detachers, detachEarly])
  have hframe : WithinFrame detaching (run detaching (start {} {} ()) detachers) detachEarly :=
    ⟨And.left, And.left, trivial⟩
  have hdeliver : deliver detaching (detachedEarly.beginPhase .script) = (.ok 0, (deliver detaching detachedEarly).2) :=
    Prod.ext rfl rfl
  have hshows : Shows detaching detachedEarly (.runPhase .script 1 false) (deliver detaching detachedEarly).2.world :=
    .frame (.runPhase (.serial (i := 0) rfl hdeliver (by decide) rfl))
  refine ⟨_, hshows, ?_, ?_, hdeferred.2.2 hframe _ _ hshows _ (.refl _)⟩
  · rw [world_deliver]
    rfl
  · rw [world_deliver]
    rfl

end Engine

end Cadence
