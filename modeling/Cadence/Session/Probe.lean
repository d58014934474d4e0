import Cadence.Session.WorldOp

/-!
Probes: systems that do what a plan says, log every callback and fail where the plan wants it.
-/

namespace Cadence.Session

/-- What a probe may be told to do. -/
inductive Task
  | log (text : String)
  | entries
  | fail (text : String)
  | missing (handle : Ref Handle)
  | submit (sketch : Sketch)
  | submitAll (sketches : List Sketch)
  | liveCount
  | world (op : WorldOp)

/-- A task with the word that names it in the log. It is done in all frames or in the listed ones only, and a
tolerant one only logs its failure. -/
structure Action where
  word : String
  task : Task
  frames : Option (List Nat) := none
  tolerant : Bool := false

/-- The callbacks that are to fail, by their count from one. -/
structure Breakage where
  init : Bool := false
  added : List Nat := []
  removed : List Nat := []
  update : List Nat := []
  apply : List Nat := []

/-- The components a probe accepts: of all kinds or of the listed ones. A custom component named in `floor` is accepted
instead if it holds at least the given number. -/
structure Taste where
  kinds : Option (List Kind) := some []
  floor : Option (String × Int) := none

namespace Taste

def accepts (t : Taste) (c : Component) : Bool :=
  let byKind := t.kinds.all (·.contains c.kind)
  match t.floor, c with
  | some (name, least), ⟨.custom name', value⟩ => if name' = name then least ≤ value else byKind
  | _, _ => byKind

end Taste

structure Probe.Plan where
  name : String
  version : String := apiVersion
  taste : Taste := {}
  breakage : Breakage := {}
  update : List Action := []
  serial : Option (List Action) := none
  emit : Option (List Action) := none
  emitFrames : Option (List Nat) := none
  bytes : Nat := 0

/-- The calls of each callback so far. -/
structure Probe.Counts where
  added : Nat := 0
  removed : Nat := 0
  update : Nat := 0
  apply : Nat := 0

structure Probe where
  plan : Probe.Plan
  index : Index := {}
  counts : Probe.Counts := {}

/-- A result of a probe: what is to be done when it is applied. -/
structure Parcel where
  name : String
  actions : List Action
  bytes : Nat

namespace Probe

/-- What an action may reach: the world to read, or to write, and the host. -/
structure Scene where
  context : Context
  writable : Bool
  host : Host
  drawn : Array Primitive := #[]

namespace Scene

def faultOf : WorldFailure → Fault
  | .badInput text => .failed text
  | .world e => .world e

/-- Draws primitives once their sources are resolved. -/
def draw (scene : Scene) (sketches : List Sketch) : Except Fault Unit × Scene :=
  match sketches.mapM (Sketch.resolve scene.host) with
  | .error text => (.error (.failed text), scene)
  | .ok ps =>
    match scene.context.draw with
    | .error fault => (.error fault, scene)
    | .ok () => (.ok (), { scene with drawn := scene.drawn ++ ps.toArray })

def unknown (scene : Scene) (word : String) : Except Fault Deed × Scene := (.error (.failed (unknownOp word)), scene)

/-- Does one task. Only a writable scene allows changes, and only a read-only one whole lists of primitives. -/
def perform (scene : Scene) (index : Index) (word : String) : Task → Except Fault Deed × Scene
  | .log text => (.ok (.text text), scene)
  | .entries => (.ok (.entries index.entries), scene)
  | .fail text => (.error (.failed text), scene)
  | .missing ref =>
    match scene.host.handle ref with
    | .error text => (.error (.failed text), scene)
    | .ok h => (.error (.missingComponent h), scene)
  | .submit sketch =>
    let (outcome, scene) := scene.draw [sketch]
    (outcome.map fun _ => .nothing, scene)
  | .submitAll sketches =>
    if scene.writable then scene.unknown word
    else
      let (outcome, scene) := scene.draw sketches
      (outcome.map fun _ => .count sketches.length, scene)
  | .liveCount =>
    if scene.writable then (.ok (.count scene.context.world.liveCount), scene) else scene.unknown word
  | .world (.ask query) =>
    (((ask scene.host scene.context.world query).mapError faultOf).map .world, scene)
  | .world (.edit change) =>
    if scene.writable then
      let (outcome, world, host) := edit scene.host scene.context.world change
      ((outcome.mapError faultOf).map .world, { scene with context := { scene.context with world }, host })
    else scene.unknown word
  | .world (.unknown word) => scene.unknown word

/-- Does one action and logs what it has come to. -/
def act (name : String) (index : Index) (scene : Scene) (action : Action) : Except Fault Unit × Scene :=
  if action.frames.all (·.contains scene.context.frame) then
    let (outcome, scene) := scene.perform index action.word action.task
    let log (deed : Deed) : Scene := { scene with host := scene.host.note name (.did action.word deed) }
    match outcome with
    | .ok deed => (.ok (), log deed)
    | .error fault => if action.tolerant then (.ok (), log (.fault fault)) else (.error fault, scene)
  else (.ok (), scene)

end Scene

/-- Does actions up to the first that fails. -/
def actAll (p : Probe) (scene : Scene) (actions : List Action) : Except Fault Unit × Scene :=
  inOrder (Scene.act p.plan.name p.index) scene actions

/-- The failure that the plan wants of a callback's call. -/
def check (p : Probe) (callback : String) (broken : List Nat) (count : Nat) : Except Fault Unit :=
  if broken.contains count then .error (.failed s!"{p.plan.name} {callback} {count}") else .ok ()

/-- What an update hands back in a frame. -/
def emission (p : Probe) (frame : Nat) : Option Parcel :=
  if p.plan.emitFrames.all (·.contains frame) then
    p.plan.emit.map fun actions => ⟨p.plan.name, actions, p.plan.bytes⟩
  else none

/-- The common part of all updates, after the callback has been logged. -/
def advance (p : Probe) (scene : Scene) (actions : List Action) : Except Fault (Option Parcel) × Probe × Scene :=
  let p := { p with counts := { p.counts with update := p.counts.update + 1 } }
  match p.check "update" p.plan.breakage.update p.counts.update with
  | .error fault => (.error fault, p, scene)
  | .ok () =>
    let (outcome, scene) := p.actAll scene actions
    (outcome.map fun _ => p.emission scene.context.frame, p, scene)

def update (ctx : Context) (dt : Float32) (p : Probe) (host : Host) : DrawReply Probe Host (Option Parcel) :=
  let host := host.note p.plan.name (.update ctx.phase ctx.frame ctx.parallel dt)
  let (outcome, p, scene) := p.advance { context := ctx, writable := false, host } p.plan.update
  { outcome, system := p, host := scene.host, drawn := scene.drawn }

def updateSerial (ctx : Context) (dt : Float32) (p : Probe) (host : Host) : WriteReply Probe Host (Option Parcel) :=
  match p.plan.serial with
  | none => { update ctx dt p host with world := ctx.world }
  | some actions =>
    let host := host.note p.plan.name (.serial ctx.phase ctx.frame dt)
    let (outcome, p, scene) := p.advance { context := ctx, writable := true, host } actions
    { outcome, system := p, host := scene.host, drawn := scene.drawn, world := scene.context.world }

def apply (parcel : Parcel) (ctx : Context) (p : Probe) (host : Host) : WriteReply Probe Host Unit :=
  let host := host.note p.plan.name (.apply ctx.phase ctx.frame)
  let p := { p with counts := { p.counts with apply := p.counts.apply + 1 } }
  match p.check "apply" p.plan.breakage.apply p.counts.apply with
  | .error fault => { outcome := .error fault, system := p, host, world := ctx.world }
  | .ok () =>
    let (outcome, scene) := p.actAll { context := ctx, writable := true, host } parcel.actions
    { outcome, system := p, host := scene.host, drawn := scene.drawn, world := scene.context.world }

def added (h : Handle) (owner : Entity) (c : Component) (p : Probe) (host : Host) : Reply Probe Host Unit :=
  let host := host.note p.plan.name (.added h owner c.kind)
  let p := { p with counts := { p.counts with added := p.counts.added + 1 } }
  match p.check "added" p.plan.breakage.added p.counts.added with
  | .error fault => ⟨.error fault, p, host⟩
  | .ok () => ⟨.ok (), { p with index := (p.index.insert h owner).2 }, host⟩

def removed (h : Handle) (owner : Entity) (c : Component) (p : Probe) (host : Host) : Reply Probe Host Unit :=
  let host := host.note p.plan.name (.removed h owner c.kind (p.index.contains h))
  let p := { p with counts := { p.counts with removed := p.counts.removed + 1 } }
  match p.check "removed" p.plan.breakage.removed p.counts.removed with
  | .error fault => ⟨.error fault, p, host⟩
  | .ok () => ⟨.ok (), { p with index := (p.index.remove h).2 }, host⟩

def system : System Probe Parcel Host where
  name p := p.plan.name
  version p := p.plan.version
  init world phase id p host :=
    let host := host.note p.plan.name (.init phase id world.liveCount)
    let outcome := if p.plan.breakage.init then .error (.failed s!"{p.plan.name} init") else .ok ()
    ⟨outcome, p, host⟩
  accepts p c := p.plan.taste.accepts c
  added := added
  removed := removed
  update := update
  updateSerial := updateSerial
  apply := apply
  shutdown p host := host.note p.plan.name .shutdown
  duplicate parcel host := (parcel, host.note parcel.name .duplicate)
  release parcel host := host.note parcel.name .release
  byteSize parcel := parcel.bytes

end Probe

end Cadence.Session
