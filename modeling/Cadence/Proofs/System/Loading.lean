import Cadence.Proofs.Engine.Projection
import Cadence.Proofs.System.Users

/-!
What an interpreter has loaded. Its requests are written down beside its state. In every run whatever it is asked in
turn to load and to unload a script, and what it has loaded are the scripts that the system has users of. As long as no
script in play is overwritten, these are the scripts that attached components name.
-/

namespace Cadence

variable {σ ρ ε τ : Type}

/-! ### Requests -/

/-- What an interpreter is asked to do. -/
inductive Request
  | load (script : String)
  | call (seen : List ScriptInstance)
  | unload (script : String)

namespace Request

/-- Whether a script is loaded after these requests, the last of which comes first. -/
def loaded (script : String) : List Request → Bool
  | [] => false
  | load s :: rest => s == script || loaded script rest
  | call _ :: rest => loaded script rest
  | unload s :: rest => s != script && loaded script rest

/-- A script is loaded only when it is not, and unloaded only when it is. -/
def Alternate : List Request → Prop
  | [] => True
  | load s :: rest => loaded s rest = false ∧ Alternate rest
  | call _ :: rest => Alternate rest
  | unload s :: rest => loaded s rest = true ∧ Alternate rest

/-- Only scripts that are loaded are run. -/
def RunsLoaded : List Request → Prop
  | [] => True
  | load _ :: rest => RunsLoaded rest
  | call seen :: rest => (∀ found ∈ seen, loaded found.script rest = true) ∧ RunsLoaded rest
  | unload _ :: rest => RunsLoaded rest

end Request

open Request

/-- The same interpreter, writing down beside its state what it is asked. A script that cannot be loaded is not. -/
def Interpreter.recorded (I : Interpreter τ ε) : Interpreter (τ × List Request) ε where
  load script s host :=
    let reply := I.load script s.1 host
    match reply.outcome with
    | .error fault => ⟨.error fault, (reply.system, s.2), reply.host⟩
    | .ok () => ⟨.ok (), (reply.system, .load script :: s.2), reply.host⟩
  call dt seen s host := (I.call dt seen s.1 host).map (·, .call seen :: s.2) id
  unload script s host :=
    let (state, host) := I.unload script s.1 host
    ((state, .unload script :: s.2), host)

/-! ### Interpreters that do the same -/

/-- Whatever `I'` is asked comes out as it does with `I`, on the projection of its state. -/
structure Interpreter.Simulates {τ' : Type} (I' : Interpreter τ' ε) (I : Interpreter τ ε) (f : τ' → τ) : Prop where
  load : ∀ script s host, (I'.load script s host).project f id = I.load script (f s) host
  call : ∀ dt seen s host, (I'.call dt seen s host).project f id = I.call dt seen (f s) host
  unload : ∀ script s host, (I'.unload script s host).map f id = I.unload script (f s) host

namespace Scripts

section simulation

variable {τ' : Type} {I' : Interpreter τ' ε} {I : Interpreter τ ε} {f : τ' → τ}

/-- A script system, with the state of its interpreter projected. -/
def onInterpreter (f : τ' → τ) (s : Scripts τ') : Scripts τ := { s with interpreter := f s.interpreter }

theorem onInterpreter_addUser (hI : I'.Simulates I f) (h : Handle) (owner : Entity) (script : String) (s : Scripts τ')
    (host : ε) :
    (addUser I' h owner script s host).project (onInterpreter f) id =
      addUser I h owner script (s.onInterpreter f) host := by
  have hload := hI.load script s.interpreter host
  have husage : (s.onInterpreter f).usage = s.usage := rfl
  have hinterpreter : (s.onInterpreter f).interpreter = f s.interpreter := rfl
  unfold addUser
  rw [husage, hinterpreter, ← hload]
  dsimp only
  by_cases hcount : (s.usage.count? script).getD 0 = 0
  · rw [if_pos hcount, if_pos hcount]
    rcases I'.load script s.interpreter host with ⟨_ | _, state, host'⟩ <;> rfl
  · rw [if_neg hcount, if_neg hcount]
    rfl

theorem onInterpreter_dropUser (hI : I'.Simulates I f) (script : String) (s : Scripts τ') (host : ε) :
    (dropUser I' script s host).map (onInterpreter f) id = dropUser I script (s.onInterpreter f) host := by
  have hunload := hI.unload script s.interpreter host
  have husage : (s.onInterpreter f).usage = s.usage := rfl
  have hinterpreter : (s.onInterpreter f).interpreter = f s.interpreter := rfl
  unfold dropUser
  rw [husage, hinterpreter, ← hunload]
  cases s.usage.count? script with
  | none => rfl
  | some n =>
    dsimp only
    split <;> rfl

theorem onInterpreter_call (hI : I'.Simulates I f) (w : World) (dt : Float32) (s : Scripts τ') (host : ε) :
    (call I' w dt s host).project (onInterpreter f) id = call I w dt (s.onInterpreter f) host := by
  have hattachments : (s.onInterpreter f).attachments = s.attachments := rfl
  have hinstances : (s.onInterpreter f).instances w = s.instances w := rfl
  unfold call
  rw [hattachments, hinstances]
  split
  · rfl
  · cases s.instances w with
    | error err => rfl
    | ok seen =>
      have hcall := hI.call dt seen s.interpreter host
      have hinterpreter : (s.onInterpreter f).interpreter = f s.interpreter := rfl
      dsimp only
      rw [hinterpreter, ← hcall]
      rfl

theorem onInterpreter_unloads (hI : I'.Simulates I f) (scripts : List String) (state : τ') (host : ε) :
    (scripts.foldl (fun (left : τ' × ε) script => I'.unload script left.1 left.2) (state, host)).map f id =
      scripts.foldl (fun (left : τ × ε) script => I.unload script left.1 left.2) (f state, host) := by
  induction scripts generalizing state host with
  | nil => rfl
  | cons script rest ih =>
    have hrest := ih (I'.unload script state host).1 (I'.unload script state host).2
    rw [List.foldl_cons, List.foldl_cons, ← hI.unload]
    exact hrest

/-- A script system does what its interpreter does. -/
theorem simulates_system (hI : I'.Simulates I f) : Simulates (system I') (system I) (onInterpreter f) id where
  name _ := rfl
  version _ := rfl
  init _ _ _ _ _ := rfl
  accepts _ _ := rfl
  added h owner c s host := by
    simp only [system]
    cases c.as .script with
    | none => rfl
    | some script => exact onInterpreter_addUser hI h owner script.name s host
  removed h owner c s host := by
    simp only [system]
    have hattachments : (s.onInterpreter f).attachments = s.attachments := rfl
    rw [hattachments]
    rcases s.attachments.remove h with ⟨_ | entry, attachments⟩
    · rfl
    · cases c.as .script with
      | none => rfl
      | some script =>
        have hdropped := onInterpreter_dropUser hI script.name { s with attachments } host
        exact congrArg (fun left : Scripts τ × ε => (⟨.ok (), left.1, left.2⟩ : Reply (Scripts τ) ε Unit)) hdropped
  update ctx dt s host := by
    have hcalled := onInterpreter_call hI ctx.world dt s host
    exact congrArg (fun reply : Reply (Scripts τ) ε _ => ({ reply with } : DrawReply (Scripts τ) ε _)) hcalled
  updateSerial ctx dt s host := by
    have hcalled := onInterpreter_call hI ctx.world dt s host
    exact congrArg (fun reply : Reply (Scripts τ) ε _ =>
      ({ reply with world := ctx.world } : WriteReply (Scripts τ) ε _)) hcalled
  apply _ _ _ _ := rfl
  shutdown s host := congrArg Prod.snd (onInterpreter_unloads hI s.usage.scripts s.interpreter host)
  duplicate _ _ := rfl
  release _ _ := rfl
  byteSize _ := rfl

end simulation

/-! ### Interpreters with a record -/

variable {other : System σ ρ ε} {s s' : Scripts (τ × List Request)}

/-- What the interpreter of a system has been asked. -/
def requests (s : Scripts (τ × List Request)) : List Request := s.interpreter.2

/-- The interpreter without its record. -/
def unrecorded (s : Scripts (τ × List Request)) : Scripts τ := { s with interpreter := s.interpreter.1 }

theorem recorded_simulates (I : Interpreter τ ε) : I.recorded.Simulates I Prod.fst where
  load script s host := by
    dsimp only [Interpreter.recorded, Reply.project]
    rcases I.load script s.1 host with ⟨_ | _, state, host'⟩ <;> rfl
  call dt seen s host := by
    dsimp only [Interpreter.recorded, Reply.map, Reply.project]
    rcases I.call dt seen s.1 host with ⟨_ | _, state, host'⟩ <;> rfl
  unload _ _ _ := rfl

/-- To write down the requests changes nothing else. -/
theorem simulates_recorded (I : Interpreter τ ε) : Simulates (system I.recorded) (system I) unrecorded id :=
  simulates_system (recorded_simulates I)

/-- A run is the same with the record and without it. -/
theorem project_run_recorded (other : System σ ρ ε) (I : Interpreter τ ε)
    (e : Engine (σ ⊕ Scripts (τ × List Request)) (ρ ⊕ List Command) ε)
    (ops : List (Engine.Op (σ ⊕ Scripts (τ × List Request)))) :
    (Engine.run (other.sum (system I.recorded)) e ops).project (Sum.map id unrecorded) id =
      Engine.run (other.sum (system I)) (e.project (Sum.map id unrecorded) id)
        (ops.map (Engine.Op.map (Sum.map id unrecorded))) :=
  Engine.project_run ((Simulates.refl other).sum (simulates_recorded I)) e ops

/-! ### Loads and unloads -/

/-- What is loaded are the scripts that have users. -/
structure Accounted (s : Scripts (τ × List Request)) : Prop where
  alternate : Alternate s.requests
  used : ∀ script, s.usage.count? script ≠ some 0
  loaded_eq : ∀ script, loaded script s.requests = (s.usage.count? script).isSome

/-- What becomes of the users and of the requests when a component is added or removed. -/
inductive Reckons (s s' : Scripts (τ × List Request)) : Prop
  | same (husage : s'.usage = s.usage) (hrequests : s'.requests = s.requests)
  | first {script : String} (hcount : (s.usage.count? script).getD 0 = 0) (husage : s'.usage = s.usage.set script 1)
      (hrequests : s'.requests = .load script :: s.requests)
  | recount {script : String} {n m : Nat} (hcount : s.usage.count? script = some n) (hm : m ≠ 0)
      (husage : s'.usage = s.usage.set script m) (hrequests : s'.requests = s.requests)
  | last {script : String} {n : Nat} (hcount : s.usage.count? script = some n)
      (husage : s'.usage = s.usage.erase script) (hrequests : s'.requests = .unload script :: s.requests)

theorem reckons_addUser (I : Interpreter τ ε) (h : Handle) (owner : Entity) (script : String)
    (s : Scripts (τ × List Request)) (host : ε) : s.Reckons (addUser I.recorded h owner script s host).system := by
  by_cases hcount : (s.usage.count? script).getD 0 = 0
  · rcases hload : I.load script s.interpreter.1 host with ⟨_ | _, state, host'⟩
    · refine .same ?_ ?_ <;> simp [addUser, requests, Interpreter.recorded, hcount, hload]
    · refine .first hcount ?_ ?_ <;> simp [addUser, requests, Interpreter.recorded, hcount, hload]
  · obtain ⟨n, hn⟩ : ∃ n, s.usage.count? script = some n := by
      cases hsome : s.usage.count? script with
      | none => simp [hsome] at hcount
      | some n => exact ⟨n, rfl⟩
    have hused : n ≠ 0 := by simpa [hn] using hcount
    refine .recount hn (Nat.succ_ne_zero n) ?_ ?_ <;> simp [addUser, requests, hn, hused]

theorem reckons_dropUser (I : Interpreter τ ε) (script : String) (s : Scripts (τ × List Request)) (attachments : Index)
    (host : ε) : s.Reckons (dropUser I.recorded script { s with attachments } host).1 := by
  cases hcount : s.usage.count? script with
  | none => refine .same ?_ ?_ <;> simp [dropUser, requests, hcount]
  | some n =>
    by_cases hlast : n - 1 = 0
    · refine .last hcount ?_ ?_ <;> simp [dropUser, requests, Interpreter.recorded, hcount, hlast]
    · refine .recount hcount hlast ?_ ?_ <;> simp [dropUser, requests, hcount, hlast]

theorem Accounted.reckons (hs : s.Accounted) (h : s.Reckons s') : s'.Accounted := by
  obtain ⟨halternate, hused, hloaded⟩ := hs
  cases h with
  | same husage hrequests =>
    refine ⟨?_, ?_, ?_⟩ <;> simp only [husage, hrequests] <;> assumption
  | @first script hcount husage hrequests =>
    have hnone : s.usage.count? script = none := by
      cases hsome : s.usage.count? script with
      | none => rfl
      | some n =>
        simp only [hsome, Option.getD_some] at hcount
        exact absurd (hcount ▸ hsome) (hused script)
    refine ⟨?_, husage ▸ Usage.used_set hused script Nat.one_ne_zero, fun other => ?_⟩
    · rw [hrequests]
      exact ⟨by rw [hloaded, hnone]; rfl, halternate⟩
    · rw [husage, hrequests, Usage.count?_set, loaded, hloaded]
      by_cases heq : other = script
      · simp [heq]
      · simp [heq, Ne.symm heq]
  | @recount script n m hcount hm husage hrequests =>
    refine ⟨hrequests ▸ halternate, husage ▸ Usage.used_set hused script hm, fun other => ?_⟩
    rw [husage, hrequests, Usage.count?_set, hloaded]
    by_cases heq : other = script <;> simp [heq, hcount]
  | @last script n hcount husage hrequests =>
    refine ⟨?_, husage ▸ Usage.used_erase hused script, fun other => ?_⟩
    · rw [hrequests]
      exact ⟨by rw [hloaded, hcount]; rfl, halternate⟩
    · rw [husage, hrequests, Usage.count?_erase, loaded, hloaded]
      by_cases heq : other = script
      · simp [heq]
      · simp [heq, Ne.symm heq]

theorem runsLoaded_reckons (hs : RunsLoaded s.requests) (h : s.Reckons s') : RunsLoaded s'.requests := by
  cases h with
  | same _ hrequests => rwa [hrequests]
  | first _ _ hrequests => rwa [hrequests]
  | recount _ _ _ hrequests => rwa [hrequests]
  | last _ _ hrequests => rwa [hrequests]

theorem reckons_added (I : Interpreter τ ε) (h : Handle) (owner : Entity) (c : Component)
    (s : Scripts (τ × List Request)) (host : ε) : s.Reckons ((system I.recorded).added h owner c s host).system := by
  simp only [system]
  cases c.as .script with
  | none => exact .same rfl rfl
  | some script => exact reckons_addUser ..

theorem reckons_removed (I : Interpreter τ ε) (h : Handle) (owner : Entity) (c : Component)
    (s : Scripts (τ × List Request)) (host : ε) : s.Reckons ((system I.recorded).removed h owner c s host).system := by
  simp only [system]
  rcases s.attachments.remove h with ⟨_ | entry, attachments⟩
  · exact .same rfl rfl
  · cases c.as .script with
    | none => exact .same rfl rfl
    | some script => exact reckons_dropUser I script.name s attachments host

/-- An update calls the interpreter with what the system sees, or does not call it. -/
theorem system_call (I : Interpreter τ ε) (w : World) (dt : Float32) (s : Scripts (τ × List Request)) (host : ε) :
    (call I.recorded w dt s host).system = s ∨ ∃ seen state, s.instances w = .ok seen ∧
      (call I.recorded w dt s host).system = { s with interpreter := (state, .call seen :: s.requests) } := by
  rw [call]
  split
  · exact .inl rfl
  · cases s.instances w with
    | error err => exact .inl rfl
    | ok seen => exact .inr ⟨seen, _, rfl, rfl⟩

theorem Accounted.called (hs : s.Accounted) (I : Interpreter τ ε) (w : World) (dt : Float32) (host : ε) :
    (call I.recorded w dt s host).system.Accounted := by
  obtain hsame | ⟨seen, state, _, hcalled⟩ := system_call I w dt s host
  · rwa [hsame]
  · rw [hcalled]
    exact ⟨hs.alternate, hs.used, hs.loaded_eq⟩

theorem stable_accounted (I : Interpreter τ ε) : Stable (system I.recorded) Accounted where
  init h := h
  added h := h.reckons (reckons_added ..)
  removed h := h.reckons (reckons_removed ..)
  update h := h.called ..
  updateSerial h := h.called ..
  apply h := h

/-! ### Runs -/

/-- A script system that has been told of nothing and has asked its interpreter for nothing, or another system. -/
def IsUnused (x : σ ⊕ Scripts (τ × List Request)) : Prop :=
  ∀ s, x = .inr s → ∃ state, s = { interpreter := (state, []) }

theorem IsUnused.isNew {x : σ ⊕ Scripts (τ × List Request)} (hx : IsUnused x) : IsNew x := by
  intro s hs
  obtain ⟨state, hstate⟩ := hx s hs
  exact ⟨(state, []), hstate⟩

theorem accounted_new (state : τ) : ({ interpreter := (state, []) } : Scripts (τ × List Request)).Accounted :=
  ⟨trivial, fun _ => by rintro ⟨⟩, fun _ => rfl⟩

/-- Whatever is done to the engine and to the world, script systems load and unload a script in turn, and have loaded
those that have users. -/
theorem run_accounted (other : System σ ρ ε) (I : Interpreter τ ε) (settings : Settings.Scheduling) (screen : Screen)
    (host : ε) (ops : List (Engine.Op (σ ⊕ Scripts (τ × List Request))))
    (hops : ∀ phase x, .register phase x ∈ ops → IsUnused x) :
    ∀ phase i slot s,
      (Engine.run (other.sum (system I.recorded)) (Engine.start settings screen host) ops).slotAt? phase i = some slot →
      slot.system = .inr s → s.Accounted := by
  intro phase i slot s hslot hs
  have hstable : Stable (other.sum (system I.recorded)) (Sum.elim (fun _ => True) Accounted) :=
    (Stable.const other True).sum (stable_accounted I)
  have hnew : ∀ phase x, .register phase x ∈ ops → (Sum.elim (fun _ => True) Accounted x : Prop) := by
    intro phase x hmem
    cases x with
    | inl x => trivial
    | inr s =>
      obtain ⟨state, rfl⟩ := hops phase _ hmem s rfl
      exact accounted_new state
  have hplaced := Engine.placed_run (fun _ => hstable) (.start settings screen host) hnew
  have haccounted := hplaced.slot hslot
  rw [hs] at haccounted
  exact haccounted

/-- Of a system that counts right, when the queue is empty: a script is loaded if an attached component names it, and if
none does it is not. -/
theorem Accounted.loaded_iff {w : World} (hs : s.Accounted) (h : Tallied w (.inr s : σ ⊕ Scripts (τ × List Request)))
    (hevents : w.events = #[]) (script : String) : loaded script s.requests = true ↔ w.users script ≠ 0 := by
  rw [hs.loaded_eq, h.count?_eq hevents]
  split <;> simp [*]

theorem runsLoaded_call {w : World} (hs : s.Accounted) (hruns : RunsLoaded s.requests)
    (h : Tallied w (.inr s : σ ⊕ Scripts (τ × List Request))) (hevents : w.events = #[]) (I : Interpreter τ ε)
    (dt : Float32) (host : ε) : RunsLoaded (call I.recorded w dt s host).system.requests := by
  obtain hsame | ⟨seen, state, hseen, hcalled⟩ := system_call I w dt s host
  · rwa [hsame]
  · rw [hcalled]
    refine ⟨fun found hmem => ?_, hruns⟩
    have hlists : s.catalog.Lists w := (Catalog.tracks_iff_lists hevents).mp (h.tracking _ rfl)
    rw [instances_eq hlists] at hseen
    cases hseen
    exact (hs.loaded_iff h hevents _).mpr (users_ne_zero ((perm_scripted hlists).mem_iff.mp hmem))

/-- What a script system has loaded are the scripts that have users, and no others have been run; of other systems
nothing is said. -/
def Served : σ ⊕ Scripts (τ × List Request) → Prop :=
  Sum.elim (fun _ => True) fun s => s.Accounted ∧ RunsLoaded s.requests

theorem IsUnused.served {x : σ ⊕ Scripts (τ × List Request)} (hx : IsUnused x) : Served x := by
  cases x with
  | inl x => trivial
  | inr s =>
    obtain ⟨state, rfl⟩ := hx s rfl
    exact ⟨accounted_new state, trivial⟩

theorem attentive_served (other : System σ ρ ε) (I : Interpreter τ ε) :
    Attentive (other.sum (system I.recorded)) Served := by
  have hscripts : Attentive (system I.recorded) fun s => s.Accounted ∧ RunsLoaded s.requests :=
    { init := id
      added := fun h => ⟨h.1.reckons (reckons_added ..), runsLoaded_reckons h.2 (reckons_added ..)⟩
      removed := fun h => ⟨h.1.reckons (reckons_removed ..), runsLoaded_reckons h.2 (reckons_removed ..)⟩ }
  exact (Stable.const other True).attentive.sum hscripts

theorem Served.update {ctx : Context} {x : σ ⊕ Scripts (τ × List Request)} (hx : Served x) (h : Tallied ctx.world x)
    (hevents : ctx.world.events = #[]) (I : Interpreter τ ε) (dt : Float32) (host : ε) :
    Served ((other.sum (system I.recorded)).update ctx dt x host).system := by
  cases x with
  | inl x => trivial
  | inr s => exact ⟨hx.1.called .., runsLoaded_call hx.1 hx.2 h hevents ..⟩

theorem Served.updateSerial {ctx : Context} {x : σ ⊕ Scripts (τ × List Request)} (hx : Served x)
    (h : Tallied ctx.world x) (hevents : ctx.world.events = #[]) (I : Interpreter τ ε) (dt : Float32) (host : ε) :
    Served ((other.sum (system I.recorded)).updateSerial ctx dt x host).system := by
  cases x with
  | inl x => trivial
  | inr s => exact ⟨hx.1.called .., runsLoaded_call hx.1 hx.2 h hevents ..⟩

theorem Served.apply {x : σ ⊕ Scripts (τ × List Request)} (hx : Served x) (result : ρ ⊕ List Command) (ctx : Context)
    (I : Interpreter τ ε) (host : ε) : Served ((other.sum (system I.recorded)).apply result ctx x host).system := by
  cases result <;> cases x <;> exact hx

theorem keptBeside_served (other : System σ ρ ε) (I : Interpreter τ ε) :
    Engine.KeptBeside (Engine.SoFar (Engine.Followed World.Routable Tallied)) (other.sum (system I.recorded))
      (fun _ x => IsUnused x) fun _ => Served where
  fits := IsUnused.served
  attentive _ := attentive_served other I
  update {_ dt _ _ e _} hfollowed hevents hslot hserved :=
    hserved.update (Engine.Followed.follows hfollowed hslot) hevents I dt e.host
  updateSerial {_ dt _ e _} hfollowed hevents hslot hserved :=
    hserved.updateSerial (Engine.Followed.follows hfollowed hslot) hevents I dt e.host
  apply {_ _ e _ result} _ _ _ hserved := hserved.apply result _ I e.host

/-- Every script that a system has been told is attached is loaded; when there is nothing left to tell, the scripts that
are loaded are those of the attached components. -/
structure KeepsLoaded (s : Scripts (τ × List Request)) (w : World) : Prop where
  known : ∀ h script, (s.attachments.owner? h).isSome → w.scriptName? h = some script →
    loaded script s.requests = true
  attached : w.events = #[] → ∀ script, loaded script s.requests = true ↔ w.users script ≠ 0

theorem keepsLoaded {w : World} (hs : s.Accounted) (h : Tallied w (.inr s : σ ⊕ Scripts (τ × List Request))) :
    s.KeepsLoaded w where
  known handle script hsome hname := by
    rw [hs.loaded_eq]
    exact (h.counts s rfl).isSome_count? (h.sound _ rfl) hsome hname
  attached := hs.loaded_iff h

end Scripts

end Cadence
