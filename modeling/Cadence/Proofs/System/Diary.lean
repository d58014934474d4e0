import Cadence.Proofs.System.Loading

/-!
The requests of a script system, beside what it has been told. Both are written into one diary in the order in which
they come, so that of every single request it can be said what the system knew when it was made: a script is unloaded
only when no component names it of which the system knows that it is attached. This holds as long as no script in play
is overwritten. The name of a script is read when it is run, and if it has been overwritten since the system was told of
it, that script may not be loaded.
-/

namespace Cadence

variable {σ ρ ε τ : Type}

open Request

/-! ### Diaries -/

/-- What a script system is told of a component, or asks its interpreter. -/
inductive Note
  | told (event : Event) (c : Component)
  | asked (request : Request)

namespace Note

def asked? : Note → Option Request
  | asked request => some request
  | told .. => none

/-- The script that a component names of which a system knows that it is attached: it has been told so, and has not been
told since that it is detached. The last note comes first. -/
def known? (h : Handle) : List Note → Option String
  | [] => none
  | told (.attached h' _) c :: past => if h = h' then (c.as .script).map (·.name) else known? h past
  | told (.detached h' _) _ :: past => if h = h' then none else known? h past
  | asked _ :: past => known? h past

/-- A script is unloaded only when no component names it of which it is known that it is attached. -/
def UnloadsUnused : List Note → Prop
  | [] => True
  | asked (.unload script) :: past => (∀ h, known? h past ≠ some script) ∧ UnloadsUnused past
  | _ :: past => UnloadsUnused past

end Note

open Note

/-- The same interpreter, noting in a diary what it is asked. A script that cannot be loaded is not. -/
def Interpreter.noting (I : Interpreter τ ε) : Interpreter (τ × List Note) ε where
  load script s host :=
    let reply := I.load script s.1 host
    match reply.outcome with
    | .error fault => ⟨.error fault, (reply.system, s.2), reply.host⟩
    | .ok () => ⟨.ok (), (reply.system, .asked (.load script) :: s.2), reply.host⟩
  call dt seen s host := (I.call dt seen s.1 host).map (·, .asked (.call seen) :: s.2) id
  unload script s host :=
    let (state, host) := I.unload script s.1 host
    ((state, .asked (.unload script) :: s.2), host)

namespace Scripts

variable {other : System σ ρ ε} {I : Interpreter τ ε} {s s' : Scripts (τ × List Note)}
  {name? name?' : Handle → Option String}

def diary (s : Scripts (τ × List Note)) : List Note := s.interpreter.2

/-- A script system that has noted something. -/
def jot (note : Note) (s : Scripts (τ × List Note)) : Scripts (τ × List Note) :=
  { s with interpreter := (s.interpreter.1, note :: s.diary) }

/-- Script systems that note what they are told, and then what they ask their interpreters. -/
def noted (I : Interpreter τ ε) : System (Scripts (τ × List Note)) (List Command) ε :=
  { system I.noting with
    added := fun h owner c s host => (system I.noting).added h owner c (s.jot (.told (.attached h owner) c)) host
    removed := fun h owner c s host => (system I.noting).removed h owner c (s.jot (.told (.detached h owner) c)) host }

/-- The requests that are noted in a diary. -/
def recordOf (state : τ × List Note) : τ × List Request := (state.1, state.2.filterMap asked?)

/-- A diary of which no more is known than the requests. -/
def diaryOf (state : τ × List Request) : τ × List Note := (state.1, state.2.map .asked)

theorem recordOf_diaryOf (state : τ × List Request) : recordOf (diaryOf state) = state := by
  simp [recordOf, diaryOf, List.filterMap_map, Function.comp_def, asked?]

theorem noting_simulates (I : Interpreter τ ε) : I.noting.Simulates I.recorded recordOf where
  load script s host := by
    dsimp only [Interpreter.noting, Interpreter.recorded, recordOf, Reply.project]
    rcases I.load script s.1 host with ⟨_ | _, state, host'⟩ <;> rfl
  call _ _ _ _ := rfl
  unload _ _ _ := rfl

/-- To keep a diary changes nothing in what is asked. -/
theorem simulates_noted (I : Interpreter τ ε) : Simulates (noted I) (system I.recorded) (onInterpreter recordOf) id :=
  have hnoting := simulates_system (noting_simulates I)
  { hnoting with
    added := fun h owner c s host => hnoting.added h owner c (s.jot (.told (.attached h owner) c)) host
    removed := fun h owner c s host => hnoting.removed h owner c (s.jot (.told (.detached h owner) c)) host }

/-! ### What is known -/

/-- The diary of a system is in order: what is known by it are the components of the index, under their names, and it
unloads what is not used. -/
structure Recalls (s : Scripts (τ × List Note)) (name? : Handle → Option String) : Prop where
  known?_eq : ∀ h, known? h s.diary = if (s.attachments.owner? h).isSome then name? h else none
  unused : UnloadsUnused s.diary

theorem recalls_new (state : τ) (name? : Handle → Option String) :
    ({ interpreter := (state, []) } : Scripts (τ × List Note)).Recalls name? := by
  refine ⟨fun h => ?_, trivial⟩
  rw [Index.owner?_empty]
  rfl

theorem Recalls.congr (hs : s.Recalls name?) (hsame : ∀ h, (s.attachments.owner? h).isSome → name?' h = name? h) :
    s.Recalls name?' := by
  refine ⟨fun h => ?_, hs.unused⟩
  rw [hs.known?_eq]
  split
  · rename_i hsome
    rw [hsame h hsome]
  · rfl

/-- The users have no part in the diary. -/
theorem Recalls.of_eq (hs : s.Recalls name?) (hattachments : s'.attachments = s.attachments)
    (hdiary : s'.diary = s.diary) : s'.Recalls name? := by
  refine ⟨fun h => ?_, hdiary ▸ hs.unused⟩
  rw [hdiary, hattachments, hs.known?_eq]

/-- To ask for something tells the system nothing. -/
theorem Recalls.asked (hs : s.Recalls name?) {request : Request} (hattachments : s'.attachments = s.attachments)
    (hdiary : s'.diary = .asked request :: s.diary)
    (hunload : ∀ script, request = .unload script → ∀ h, known? h s.diary ≠ some script) : s'.Recalls name? := by
  refine ⟨fun h => ?_, ?_⟩
  · rw [hdiary, hattachments, known?, hs.known?_eq]
  · rw [hdiary]
    cases request with
    | unload script => exact ⟨hunload script rfl, hs.unused⟩
    | _ => exact hs.unused

/-- A component that was not known has become known. -/
theorem Recalls.attached (hs : s.Recalls name?) (hsound : s.attachments.Sound) {h : Handle}
    (hnone : s.attachments.owner? h = none) {data : Script} (hname : name? h = some data.name) (owner : Entity) :
    { s.jot (.told (.attached h owner) ⟨.script, data⟩) with
      attachments := (s.attachments.insert h owner).2 }.Recalls name? := by
  refine ⟨fun h' => ?_, hs.unused⟩
  show (if h' = h then some data.name else known? h' s.diary) =
    if ((s.attachments.insert h owner).2.owner? h').isSome then name? h' else none
  rw [Index.owner?_insert hsound, hs.known?_eq]
  by_cases heq : h' = h
  · simp [heq, hnone, hname]
  · simp [heq]

/-- A component is no longer known. -/
theorem Recalls.detached (hs : s.Recalls name?) (hsound : s.attachments.Sound) (h : Handle) (owner : Entity)
    (c : Component) :
    { s.jot (.told (.detached h owner) c) with attachments := (s.attachments.remove h).2 }.Recalls name? := by
  refine ⟨fun h' => ?_, hs.unused⟩
  show (if h' = h then none else known? h' s.diary) =
    if ((s.attachments.remove h).2.owner? h').isSome then name? h' else none
  rw [Index.owner?_remove hsound, hs.known?_eq]
  by_cases heq : h' = h
  · simp [heq]
  · simp [heq]

theorem diary_addUser (I : Interpreter τ ε) (h : Handle) (owner : Entity) (script : String)
    (s : Scripts (τ × List Note)) (host : ε) :
    let s' := (addUser I.noting h owner script s host).system
    s'.diary = s.diary ∨ s'.diary = .asked (.load script) :: s.diary := by
  by_cases hcount : (s.usage.count? script).getD 0 = 0
  · rcases hload : I.load script s.interpreter.1 host with ⟨_ | _, state, host'⟩
    · exact .inl (by simp [addUser, diary, Interpreter.noting, hcount, hload])
    · exact .inr (by simp [addUser, diary, Interpreter.noting, hcount, hload])
  · exact .inl (by simp [addUser, diary, hcount])

theorem diary_dropUser (I : Interpreter τ ε) (script : String) (s : Scripts (τ × List Note)) (host : ε) :
    let s' := (dropUser I.noting script s host).1
    s'.diary = s.diary ∨ s'.diary = .asked (.unload script) :: s.diary ∧ s'.usage.count? script = none := by
  cases hcount : s.usage.count? script with
  | none => exact .inl (by simp [dropUser, diary, hcount])
  | some n =>
    by_cases hlast : n - 1 = 0
    · exact .inr (by simp [dropUser, diary, Interpreter.noting, hcount, hlast])
    · exact .inl (by simp [dropUser, diary, hcount, hlast])

theorem Recalls.added (hs : s.Recalls name?) (hsound : s.attachments.Sound) {h : Handle}
    (hnone : s.attachments.owner? h = none) {data : Script} (hname : name? h = some data.name) {owner : Entity}
    {host : ε} (hok : ((noted I).added h owner ⟨.script, data⟩ s host).outcome = .ok ()) :
    ((noted I).added h owner ⟨.script, data⟩ s host).system.Recalls name? := by
  have hattached := hs.attached hsound hnone hname owner
  simp only [noted, system, Component.as_kind] at hok ⊢
  have hattachments := attachments_addUser hok
  obtain hdiary | hdiary := diary_addUser I h owner data.name (s.jot (.told (.attached h owner) ⟨.script, data⟩)) host
  · exact hattached.of_eq hattachments hdiary
  · exact hattached.asked hattachments hdiary (by rintro _ ⟨⟩)

/-- What is unloaded has no users left, and what is known has. -/
theorem Recalls.removed (I : Interpreter τ ε) (hs : s.Recalls name?) (hcounts : s.Counts name?)
    (hsound : s.attachments.Sound) {h : Handle} {data : Script} (hname : name? h = some data.name) (owner : Entity)
    (host : ε) : ((noted I).removed h owner ⟨.script, data⟩ s host).system.Recalls name? := by
  have hdetached := hs.detached hsound h owner ⟨.script, data⟩
  have hleft : ((noted I).removed h owner ⟨.script, data⟩ s host).system.Counts name? :=
    (hcounts.of_eq rfl rfl : (s.jot (.told (.detached h owner) ⟨.script, data⟩)).Counts name?).removed I.noting hsound
      hname owner host
  simp only [noted, system, Component.as_kind] at hleft ⊢
  have hattachments : (s.jot (.told (.detached h owner) ⟨.script, data⟩)).attachments = s.attachments := rfl
  rw [hattachments] at hleft ⊢
  rcases hremove : s.attachments.remove h with ⟨_ | entry, attachments⟩ <;> rw [hremove] at hdetached hleft
  · have hself := Index.remove_eq_self hsound (congrArg Prod.fst hremove)
    rw [hremove] at hself
    exact hdetached.of_eq hself.symm rfl
  · dsimp only at hleft ⊢
    have hsame := attachments_dropUser I.noting data.name
      { s.jot (.told (.detached h owner) ⟨.script, data⟩) with attachments } host
    obtain hdiary | ⟨hdiary, hnone⟩ := diary_dropUser I data.name
      { s.jot (.told (.detached h owner) ⟨.script, data⟩) with attachments } host
    · exact hdetached.of_eq hsame hdiary
    · refine hdetached.asked hsame hdiary ?_
      rintro script ⟨⟩ h' hknown
      rw [hdetached.known?_eq] at hknown
      obtain ⟨hsome, hnamed⟩ := Option.ite_none_right_eq_some.mp hknown
      have hsound' : attachments.Sound := by
        have hremoved := hsound.remove h
        rw [hremove] at hremoved
        exact hremoved
      have hused := hleft.isSome_count? (hsame.symm ▸ hsound') (hsame.symm ▸ hsome) hnamed
      rw [hnone] at hused
      cases hused

/-- A call of the interpreter tells the system nothing. -/
theorem Recalls.called (hs : s.Recalls name?) (I : Interpreter τ ε) (w : World) (dt : Float32) (host : ε) :
    (call I.noting w dt s host).system.Recalls name? := by
  rw [call]
  split
  · exact hs
  · cases s.instances w with
    | error err => exact hs
    | ok seen => exact hs.asked rfl rfl (by rintro _ ⟨⟩)

/-! ### Beside other systems -/

/-- A script system with an empty diary that has been told of nothing, or another system. -/
def IsBlank (x : σ ⊕ Scripts (τ × List Note)) : Prop := ∀ s, x = .inr s → ∃ state, s = { interpreter := (state, []) }

/-- Of a diary only the requests are left. -/
def undiaried : σ ⊕ Scripts (τ × List Note) → σ ⊕ Scripts (τ × List Request) := Sum.map id (onInterpreter recordOf)

/-- A script system that is to keep a diary. -/
def diaried : σ ⊕ Scripts (τ × List Request) → σ ⊕ Scripts (τ × List Note) := Sum.map id (onInterpreter diaryOf)

theorem undiaried_diaried (x : σ ⊕ Scripts (τ × List Request)) : undiaried (diaried x) = x := by
  cases x with
  | inl t => rfl
  | inr s => exact congrArg (fun state => Sum.inr { s with interpreter := state }) (recordOf_diaryOf s.interpreter)

theorem simulates_beside (other : System σ ρ ε) (I : Interpreter τ ε) :
    Simulates (other.sum (noted I)) (other.sum (system I.recorded)) undiaried id :=
  (Simulates.refl other).sum (simulates_noted I)

theorem IsUnused.isBlank {x : σ ⊕ Scripts (τ × List Request)} (hx : IsUnused x) : IsBlank (diaried x) := by
  cases x with
  | inl t => rintro s ⟨⟩
  | inr s =>
    obtain ⟨state, rfl⟩ := hx s rfl
    rintro _ ⟨⟩
    exact ⟨state, rfl⟩

theorem IsBlank.isNew {x : σ ⊕ Scripts (τ × List Note)} (hx : IsBlank x) : IsNew (undiaried x) := by
  cases x with
  | inl t => rintro s ⟨⟩
  | inr s =>
    obtain ⟨state, rfl⟩ := hx s rfl
    rintro _ ⟨⟩
    exact ⟨_, rfl⟩

theorem IsBlank.init {x : σ ⊕ Scripts (τ × List Note)} (hx : IsBlank x) (w : World) (phase : Phase) (id : Nat)
    (host : ε) : IsBlank ((other.sum (noted I)).init w phase id x host).system := by
  cases x with
  | inl t => rintro s ⟨⟩
  | inr s => exact hx

/-- The diary of the system, if it is a script system, is in order. -/
def RecallsOn (name? : Handle → Option String) (x : σ ⊕ Scripts (τ × List Note)) : Prop :=
  ∀ s, x = .inr s → s.Recalls name?

theorem recallsOn_told {event : Event} {c : Component}
    {slot slot' : Slot (σ ⊕ Scripts (τ × List Note)) (ρ ⊕ List Command)}
    (h : (other.sum (noted I)).Told event c slot slot')
    (hbooks : CountsOn name? slot.system ∧ RecallsOn name? slot.system)
    (hname : ∀ data, c = ⟨.script, data⟩ → name? event.handle = some data.name)
    (hsound : ∀ k, beside? (undiaried slot.system) = some k → k.index.Sound)
    (hfresh : ∀ k, beside? (undiaried slot.system) = some k →
      ∀ h owner, event = .attached h owner → k.index.owner? h = none) :
    CountsOn name? slot'.system ∧ RecallsOn name? slot'.system := by
  suffices hboth : ∀ s', slot'.system = .inr s' → s'.Counts name? ∧ s'.Recalls name? from
    ⟨fun s' hs' => (hboth s' hs').1, fun s' hs' => (hboth s' hs').2⟩
  intro s' hs'
  obtain ⟨s, hs, rfl | ⟨haccepts, host, hok, rfl⟩⟩ := told_beside h hs'
  · exact ⟨hbooks.1 s' hs, hbooks.2 s' hs⟩
  rw [hs] at hsound hfresh
  have hcounts : s.Counts name? := hbooks.1 s hs
  have hrecalls : s.Recalls name? := hbooks.2 s hs
  have hjotted (note : Note) : (s.jot note).Counts name? := hcounts.of_eq rfl rfl
  obtain ⟨kind, data⟩ := c
  have hkind : kind = .script := by simpa [noted, system] using haccepts
  subst hkind
  cases event with
  | attached h' owner =>
    have hnone := hfresh _ rfl h' owner rfl
    exact ⟨(hjotted _).added (hsound _ rfl) hnone (hname data rfl) hok,
      hrecalls.added (hsound _ rfl) hnone (hname data rfl) hok⟩
  | detached h' owner =>
    exact ⟨(hjotted _).removed I.noting (hsound _ rfl) (hname data rfl) owner host,
      hrecalls.removed I hcounts (hsound _ rfl) (hname data rfl) owner host⟩

theorem RecallsOn.heard (hother : other.IsGentle) {w : World} {events : List Event}
    {slot slot' : Slot (σ ⊕ Scripts (τ × List Note)) (ρ ⊕ List Command)}
    (h : (other.sum (noted I)).Heard w.store events slot slot') (hcounts : CountsOn w.scriptName? slot.system)
    (hrecalls : RecallsOn w.scriptName? slot.system)
    (hsound : ∀ k, beside? (undiaried slot.system) = some k → k.index.Sound)
    (hunheard : ∀ k, beside? (undiaried slot.system) = some k → k.Unheard w events) :
    RecallsOn w.scriptName? slot'.system := by
  have hcatalogs := (keepsCatalogs_beside hother I.recorded).of_simulates (simulates_beside other I)
  refine (hcatalogs.preserves (P := fun x => CountsOn w.scriptName? x ∧ RecallsOn w.scriptName? x) ?_ h hsound hunheard
    ⟨hcounts, hrecalls⟩).2
  exact fun hsome htold hsound hfresh hbooks => recallsOn_told htold hbooks (name_of_stored hsome) hsound hfresh

theorem RecallsOn.update {x : σ ⊕ Scripts (τ × List Note)} (hx : RecallsOn name? x) (ctx : Context) (dt : Float32)
    (host : ε) : RecallsOn name? ((other.sum (noted I)).update ctx dt x host).system := by
  cases x with
  | inl t => rintro s ⟨⟩
  | inr s =>
    rintro s' ⟨⟩
    exact (hx s rfl).called I ctx.world dt host

theorem RecallsOn.updateSerial {x : σ ⊕ Scripts (τ × List Note)} (hx : RecallsOn name? x) (ctx : Context)
    (dt : Float32) (host : ε) : RecallsOn name? ((other.sum (noted I)).updateSerial ctx dt x host).system := by
  cases x with
  | inl t => rintro s ⟨⟩
  | inr s =>
    rintro s' ⟨⟩
    exact (hx s rfl).called I ctx.world dt host

theorem RecallsOn.apply {x : σ ⊕ Scripts (τ × List Note)} (hx : RecallsOn name? x) (result : ρ ⊕ List Command)
    (ctx : Context) (host : ε) : RecallsOn name? ((other.sum (noted I)).apply result ctx x host).system := by
  cases result <;> cases x with
  | inl t => rintro s ⟨⟩
  | inr s => exact hx

theorem IsBlank.recallsOn_offered (hother : other.IsGentle) {x : σ ⊕ Scripts (τ × List Note)} (hx : IsBlank x)
    {w : World} {host : ε} {left : (σ ⊕ Scripts (τ × List Note)) × ε}
    (hoffers : inOrder (Engine.offer (other.sum (noted I))) (x, host) w.store.attached = (.ok (), left)) :
    RecallsOn w.scriptName? left.1 := by
  let slot : Slot (σ ⊕ Scripts (τ × List Note)) (ρ ⊕ List Command) :=
    { id := 0, name := "", phase := .early, system := x }
  have hheard := System.heard_of_offers w.get?_of_mem_attached slot hoffers
  obtain ⟨hsound, hunheard⟩ := hx.isNew.unheard_offered w
  have hbooks : ∀ s, x = .inr s → s.Counts w.scriptName? ∧ s.Recalls w.scriptName? := by
    intro s hs
    obtain ⟨state, rfl⟩ := hx s hs
    exact ⟨counts_new _ _, recalls_new state _⟩
  exact RecallsOn.heard hother hheard (fun s hs => (hbooks s hs).1) (fun s hs => (hbooks s hs).2) hsound hunheard

/-- Without its diary the system is in step with the world, and its diary is in order. -/
structure Diarised (w : World) (x : σ ⊕ Scripts (τ × List Note)) : Prop where
  tallied : Tallied w (undiaried x)
  recalls : RecallsOn w.scriptName? x

theorem Diarised.counts {w : World} {x : σ ⊕ Scripts (τ × List Note)} (h : Diarised w x) :
    CountsOn w.scriptName? x := by
  rintro s rfl
  exact (h.tallied.counts _ rfl).of_eq rfl rfl

theorem lasting_diarised : Lasting World.Gently World.Routable (Diarised (σ := σ) (τ := τ)) where
  refl := lasting_tallied (σ := σ) (τ := τ × List Request) |>.refl
  sound_edit := lasting_tallied (σ := σ) (τ := τ × List Request) |>.sound_edit
  sound_drain := World.Routable.drain
  sound_flush := World.Routable.flush
  edit hw h hgently := by
    refine ⟨lasting_tallied.edit hw h.tallied hgently, ?_⟩
    rintro s rfl
    exact (h.recalls s rfl).congr fun handle hsome => h.tallied.scriptName?_edited hw hgently hsome
  flush hw hevents h := by
    refine ⟨lasting_tallied.flush hw hevents h.tallied, ?_⟩
    rintro s rfl
    exact (h.recalls s rfl).congr fun handle hsome => h.tallied.scriptName?_flushed hw hevents hsome

theorem following_diarised (hother : other.IsGentle) (I : Interpreter τ ε) :
    Following World.Gently (other.sum (noted I)) (fun _ x => IsBlank x) World.Routable Diarised := by
  have hbooks := (following_tallied hother I.recorded).of_simulates (simulates_beside other I)
  refine { lasting_diarised with register := ?_, hear := ?_, update := ?_, updateSerial := ?_, apply := ?_ }
  · intro w phase id x host left hw hevents hx hinit hoffers
    exact ⟨hbooks.register hw hevents hx.isNew hinit hoffers, (hx.init w phase id host).recallsOn_offered hother hoffers⟩
  · intro w slot slot' hw h hheard
    have hrecalls : RecallsOn w.scriptName? slot'.system :=
      RecallsOn.heard hother hheard h.counts h.recalls h.tallied.sound h.tallied.unheard
    exact ⟨hbooks.hear hw h.tallied hheard, hrecalls⟩
  · intro ctx dt x host hw h
    exact ⟨hbooks.update ctx dt x host hw h.tallied, h.recalls.update ctx dt host⟩
  · intro ctx dt x host result hw h hok
    obtain ⟨htallied, hworld⟩ := hbooks.updateSerial hw h.tallied hok
    exact ⟨⟨htallied, h.recalls.updateSerial ctx dt host⟩, hworld⟩
  · intro result ctx x host hw h hok
    obtain ⟨htallied, hworld⟩ := hbooks.apply hw h.tallied hok
    exact ⟨⟨htallied, h.recalls.apply result ctx host⟩, hworld⟩

/-! ### Runs -/

/-- In a run whose script systems keep diaries, these are in order as long as nothing has failed. -/
theorem recalls_run (hother : other.IsGentle) (I : Interpreter τ ε) (settings : Settings.Scheduling) (screen : Screen)
    (host : ε) {ops : List (Engine.Op (σ ⊕ Scripts (τ × List Request)))}
    (hops : Engine.KeepsTo World.Gently (fun _ x => IsUnused x) (other.sum (system I.recorded))
      (Engine.start settings screen host) ops) :
    let e := Engine.run (other.sum (noted I)) (Engine.start settings screen host) (ops.map (Engine.Op.map diaried))
    e.scheduler.poisoned = false → ∀ phase i slot s, e.slotAt? phase i = some slot → slot.system = .inr s →
      s.Recalls e.world.scriptName? := by
  intro e hpoisoned phase i slot s hslot hs
  have hstart : Engine.Followed World.Routable Diarised
      (Engine.start settings screen host : Engine (σ ⊕ Scripts (τ × List Note)) (ρ ⊕ List Command) ε) :=
    .start World.routable_empty settings screen host
  have hkeeps : Engine.KeepsTo World.Gently (fun _ x => IsBlank x) (other.sum (noted I))
      (Engine.start settings screen host) (ops.map (Engine.Op.map diaried)) :=
    Engine.KeepsTo.lifted undiaried_diaried (simulates_beside other I) (fun _ _ hx => hx.isBlank) hops
  have rule := Engine.following_rule (following_diarised hother I)
  exact ((rule.between_run_of_keeps (fun _ => hstart) hkeeps hpoisoned).follows hslot).recalls s hs

/-- Scripts are run by script systems only when they are loaded, and unloaded only when they have been loaded, beside
any systems that do not overwrite a script in play: in every run of operations that do not either, also when something
has failed. As long as nothing has failed, every script that a system knows to be attached is loaded; and in the same
run with diaries a script has been unloaded only when the system knew of no component that is attached and names it. -/
theorem only_loaded_scripts_run (hother : other.IsGentle) (I : Interpreter τ ε) (settings : Settings.Scheduling)
    (screen : Screen) (host : ε) (ops : List (Engine.Op (σ ⊕ Scripts (τ × List Request))))
    (hops : Engine.KeepsTo World.Gently (fun _ x => IsUnused x) (other.sum (system I.recorded))
      (Engine.start settings screen host) ops) :
    let e := Engine.run (other.sum (system I.recorded)) (Engine.start settings screen host) ops
    let diarised := Engine.run (other.sum (noted I)) (Engine.start settings screen host)
      (ops.map (Engine.Op.map diaried))
    (∀ phase i slot s, e.slotAt? phase i = some slot → slot.system = .inr s →
      Alternate s.requests ∧ RunsLoaded s.requests ∧ (e.scheduler.poisoned = false → s.KeepsLoaded e.world)) ∧
    diarised.project undiaried id = e ∧
    (e.scheduler.poisoned = false → ∀ phase i slot s, diarised.slotAt? phase i = some slot → slot.system = .inr s →
      s.Recalls e.world.scriptName?) := by
  intro e diarised
  have hsame : diarised.project undiaried id = e :=
    Engine.project_run_lift undiaried_diaried (simulates_beside other I) (Engine.start settings screen host) ops
  refine ⟨fun phase i slot s hslot hs => ?_, hsame, ?_⟩
  · have hfollowing := Engine.following_rule (following_tallied hother I.recorded)
    have hunused : Engine.RuleFor World.Gently (other.sum (system I.recorded)) (fun _ x => IsUnused x) _ :=
      { hfollowing with register := fun h hevents hx => hfollowing.register h hevents hx.isNew }
    have rule := hunused.beside (keptBeside_served other I)
    have hstart : Engine.Followed World.Routable Tallied
        (Engine.start settings screen host : Engine (σ ⊕ Scripts (τ × List Request)) (ρ ⊕ List Command) ε) :=
      .start World.routable_empty settings screen host
    obtain ⟨hfollowed, hplaced⟩ := rule.between_run_of_keeps ⟨fun _ => hstart, .start settings screen host⟩ hops
    have hserved : Served (.inr s : σ ⊕ Scripts (τ × List Request)) := hs ▸ hplaced.slot hslot
    refine ⟨hserved.1.alternate, hserved.2, fun hpoisoned => ?_⟩
    have htallied : Tallied e.world (.inr s : σ ⊕ Scripts (τ × List Request)) :=
      hs ▸ (hfollowed hpoisoned).follows hslot
    exact keepsLoaded hserved.1 htallied
  · rw [← hsame]
    exact recalls_run hother I settings screen host hops

/-! ### A run beside the motion system -/

/-- The motion system and a script system whose interpreter does nothing but write down what it is asked. -/
abbrev withRecord : System (Motion ⊕ Scripts (Unit × List Request)) (List Motion.Move ⊕ List Command) Unit :=
  (Motion.system Unit).sum (system Interpreter.idle.recorded)

/-- A script is attached, and the script system is told. -/
def loading : List (Engine.Op (Motion ⊕ Scripts (Unit × List Request))) :=
  [.register .script (.inr { interpreter := ((), []) }), .spawn false, .attach ⟨0, 0⟩ ⟨.script, ⟨"a"⟩⟩]

theorem isUnused_idle : IsUnused (.inr { interpreter := ((), []) } : Motion ⊕ Scripts (Unit × List Request)) := by
  rintro s ⟨⟩
  exact ⟨(), rfl⟩

theorem attached_script_is_loaded :
    let e := Engine.run withRecord (Engine.start {} {} ()) loading
    e.world.users "a" ≠ 0 ∧ ∃ slot s, e.slotAt? .script 0 = some slot ∧ slot.system = .inr s ∧
      loaded "a" s.requests = true := by
  have hops : Engine.KeepsTo World.Gently (fun _ x => IsUnused x) withRecord (Engine.start {} {} ()) loading := by
    refine ⟨.stepwise isUnused_idle ?_, .stepwise trivial ?_, .stepwise trivial ?_, trivial⟩
    all_goals rintro _ ⟨⟩ <;> exact ⟨trivial, by rintro _ _ ⟨⟩⟩
  have hused : (Engine.run withRecord (Engine.start {} {} ()) loading).world.users "a" ≠ 0 := by decide
  obtain ⟨hserved, _⟩ := only_loaded_scripts_run (Motion.isGentle Unit) .idle {} {} () loading hops
  obtain ⟨_, _, hkeeps⟩ := hserved .script 0 _ _ rfl rfl
  exact ⟨hused, _, _, rfl, rfl, ((hkeeps rfl).attached rfl "a").mpr hused⟩

/-- The script has been loaded for its first user. -/
def loadedEngine (world : World) (attachments : Index) :
    Engine (Motion ⊕ Scripts (Unit × List Request)) (List Motion.Move ⊕ List Command) Unit where
  scheduler :=
    { slots := ⟨[], [{
        id := 0, name := "script", phase := .script
        system := .inr { interpreter := ((), [.load "a"]), attachments, usage := ⟨[("a", 1)]⟩ } }], []⟩
      names := ["script"]
      nextId := 1 }
  world
  screen := {}
  host := ()

/-- Were a script overwritten while it is attached, one would be run that is not loaded. -/
theorem overwritten_script_runs_unloaded :
    ¬ ∀ ops : List (Engine.Op (Motion ⊕ Scripts (Unit × List Request))),
      (∀ op ∈ ops, op.IsRouted fun _ x => IsUnused x) →
      ∀ phase i slot s, (Engine.run withRecord (Engine.start {} {} ()) ops).slotAt? phase i = some slot →
        slot.system = .inr s → RunsLoaded s.requests := by
  intro hclaim
  have hops : ∀ op ∈ loading ++ [.edit (.overwrite ⟨1, 1⟩ ⟨.script, ⟨"b"⟩⟩), .runFrame 0],
      Engine.Op.IsRouted (fun _ x => IsUnused x) op := by
    simpa [loading, Engine.Op.IsRouted, World.Edit.IsRouted] using isUnused_idle
  have hruns := hclaim _ hops .script 0
  have hloaded : Engine.run withRecord (Engine.start {} {} ()) loading =
      loadedEngine ((World.empty.spawn false).2.attach ⟨0, 0⟩ ⟨.script, ⟨"a"⟩⟩).2.drain.2
        (Index.insert {} ⟨1, 1⟩ ⟨0, 0⟩).2 := rfl
  -- what is run depends on the array of the index, not on its table
  obtain ⟨positions, hindex⟩ : ∃ positions, (Index.insert {} ⟨1, 1⟩ ⟨0, 0⟩).2 = ⟨positions, #[⟨⟨1, 1⟩, ⟨0, 0⟩⟩]⟩ :=
    ⟨Std.HashMap.insert ∅ ⟨1, 1⟩ 0, by simp [Index.insert]⟩
  rw [Engine.run_append, hloaded, hindex] at hruns
  -- the name that is run was never loaded
  have hseen := (hruns _ _ rfl rfl).1 ⟨⟨0, 0⟩, "b", none, none⟩ (List.mem_singleton_self _)
  cases hseen

end Scripts

end Cadence
