import Cadence.Store

/-!
The world: entities, the components attached to them, and the queue of events that tells the systems what was
attached and detached. An entity is live until it is marked for deletion, then pending until the next flush, then
gone for good: its id is used again under the next generation.

An operation that fails answers its error together with the world it leaves.
-/

namespace Cadence

inductive Lifecycle
  | live
  | pending
  deriving DecidableEq, Inhabited

/-- The state is `none` while nobody uses the id. -/
structure World.Slot where
  generation : UInt32 := 0
  state : Option Lifecycle := none
  persistent : Bool := false
  handles : Array Handle := #[]
  deriving Inhabited

/-- A component was attached to, or detached from, its owner. -/
inductive Event
  | attached (handle : Handle) (owner : Entity)
  | detached (handle : Handle) (owner : Entity)
  deriving DecidableEq, Inhabited

namespace Event

def handle : Event → Handle
  | attached h _ => h
  | detached h _ => h

def owner : Event → Entity
  | attached _ e => e
  | detached _ e => e

end Event

inductive WorldError
  | staleEntity (entity : Entity)
  | entityNotLive (entity : Entity)
  | unknownComponent (handle : Handle)
  | kindMismatch (handle : Handle) (expected : Kind)
  deriving DecidableEq, Inhabited

namespace WorldError

def message : WorldError → String
  | staleEntity e => s!"{e.display} has been freed"
  | entityNotLive e => s!"{e.display} is pending deletion"
  | unknownComponent h => s!"no component for handle {h.describe}"
  | kindMismatch h k => s!"component {h.describe} is not a {k.fullName}"

end WorldError

/-- What a flush has freed. -/
structure Flushed where
  entities : Nat
  components : Nat
  deriving DecidableEq, Inhabited

structure World where
  slots : Array World.Slot := #[]
  freeIds : List Nat := []
  pending : Array Entity := #[]
  liveCount : Nat := 0
  store : Store := {}
  events : Array Event := #[]
  deriving Inhabited

namespace World

def empty : World := {}

/-! ### Reading -/

/-- The slot of an entity that is live or pending. -/
def slot? (w : World) (e : Entity) : Option Slot :=
  w.slots[e.id]?.filter fun slot => slot.generation == e.generation && slot.state.isSome

def state? (w : World) (e : Entity) : Option Lifecycle := (w.slot? e).bind (·.state)

def isLive (w : World) (e : Entity) : Bool := w.state? e == some .live

def contains (w : World) (e : Entity) : Bool := (w.state? e).isSome

def isPersistent (w : World) (e : Entity) : Except WorldError Bool :=
  match w.slot? e with
  | none => .error (.staleEntity e)
  | some slot => .ok slot.persistent

/-- The handles attached to an entity in the order in which they were attached. -/
def handlesOf (w : World) (e : Entity) : Except WorldError (Array Handle) :=
  match w.slot? e with
  | none => .error (.staleEntity e)
  | some slot => .ok slot.handles

/-- The live entities in the order of their ids. -/
def liveEntities (w : World) : List Entity :=
  w.slots.toList.zipIdx.filterMap fun (slot, id) =>
    if slot.state = some .live then some ⟨id, slot.generation⟩ else none

/-- The first component of kind `k` on an entity. -/
def first? (w : World) (k : Kind) (e : Entity) : Option (Handle × k.Data) :=
  (w.slot? e).bind fun slot => slot.handles.toList.findSome? fun h => (w.store.getAs? k h).map (h, ·)

/-- The component of kind `k` behind a handle. -/
def component (w : World) (k : Kind) (h : Handle) : Except WorldError k.Data :=
  match w.store.get? h with
  | none => .error (.unknownComponent h)
  | some c =>
    match c.as k with
    | none => .error (.kindMismatch h k)
    | some data => .ok data

/-! ### Writing -/

def modifySlot (w : World) (id : Nat) (f : Slot → Slot) : World := { w with slots := w.slots.modify id f }

/-- A new live entity, on the id freed last if there is one. -/
def spawn (w : World) (persistent : Bool) : Entity × World :=
  match w.freeIds with
  | [] =>
    (⟨w.slots.size, 0⟩,
      { w with
        slots := w.slots.push { state := some .live, persistent }
        liveCount := w.liveCount + 1 })
  | id :: rest =>
    let generation := (w.slots[id]?.map (·.generation)).getD 0
    (⟨id, generation⟩,
      { w.modifySlot id ({ · with state := some .live, persistent }) with
        freeIds := rest
        liveCount := w.liveCount + 1 })

def setPersistent (w : World) (e : Entity) (persistent : Bool) : Except WorldError Unit × World :=
  match w.slot? e with
  | none => (.error (.staleEntity e), w)
  | some _ => (.ok (), w.modifySlot e.id ({ · with persistent }))

/-- Attaches a component to a live entity. -/
def attach (w : World) (e : Entity) (c : Component) : Except WorldError Handle × World :=
  match w.slot? e with
  | none => (.error (.staleEntity e), w)
  | some slot =>
    if slot.state ≠ some .live then (.error (.entityNotLive e), w)
    else
      let (h, store) := w.store.insert e c
      let w := { w with store }
      match w.slot? e with
      | none => (.error (.staleEntity e), w)
      | some _ =>
        let w := w.modifySlot e.id fun slot => { slot with handles := slot.handles.push h }
        (.ok h, { w with events := w.events.push (.attached h e) })

/-- Detaches a component from its owner; answers `false` if it was detached before. It stays readable until the next
flush. -/
def detach (w : World) (h : Handle) : Except WorldError Bool × World :=
  match w.store.owner? h with
  | none => (.error (.unknownComponent h), w)
  | some owner =>
    match w.store.detach h with
    | (false, _) => (.ok false, w)
    | (true, store) =>
      let w := { w with store }
      let w := match w.slot? owner with
        | none => w
        | some _ => w.modifySlot owner.id fun slot => { slot with handles := slot.handles.filter (· ≠ h) }
      (.ok true, { w with store := w.store.scheduleRelease h, events := w.events.push (.detached h owner) })

/-- Detaches what an entity that is no longer live still holds, and reports each component. -/
def unroute (e : Entity) (w : World) (h : Handle) : World :=
  match w.store.detach h with
  | (false, _) => w
  | (true, store) => { w with store, events := w.events.push (.detached h e) }

/-- Marks a live entity for deletion; answers `false` if it was marked before. Its components are detached at once
but stay with it until the next flush. -/
def mark (w : World) (e : Entity) : Except WorldError Bool × World :=
  match w.slot? e with
  | none => (.error (.staleEntity e), w)
  | some slot =>
    if slot.state = some .pending then (.ok false, w)
    else
      match w.slot? e with
      | none => (.error (.staleEntity e), w)
      | some _ =>
        let w := w.modifySlot e.id ({ · with state := some .pending })
        let w := { w with liveCount := w.liveCount - 1, pending := w.pending.push e }
        (.ok true, slot.handles.toList.foldl (unroute e) w)

/-- Marks several entities and counts those that were live; stops at an error. -/
def markAll (w : World) (count : Nat) : List Entity → Except WorldError Nat × World
  | [] => (.ok count, w)
  | e :: rest =>
    match w.mark e with
    | (.error err, w) => (.error err, w)
    | (.ok marked, w) => markAll w (if marked then count + 1 else count) rest

/-- Marks the live entities, the persistent ones only if `persistentToo`. -/
def clear (w : World) (persistentToo : Bool) : Except WorldError Nat × World :=
  let isDoomed (e : Entity) : Bool := persistentToo || !(w.slots[e.id]?.any (·.persistent))
  w.markAll 0 (w.liveEntities.filter isDoomed)

/-- Frees one pending entity: its components are scheduled for release and its id may be used again. -/
def free (state : Nat × World) (e : Entity) : Nat × World :=
  let (count, w) := state
  match w.slots[e.id]? with
  | none => (count, w)
  | some slot =>
    if slot.generation ≠ e.generation ∨ slot.state ≠ some .pending then (count, w)
    else
      let w := w.modifySlot e.id fun slot => { generation := slot.generation + 1 }
      (count + 1,
        { w with
          store := slot.handles.foldl Store.scheduleRelease w.store
          freeIds := e.id :: w.freeIds })

/-- Frees the pending entities and releases the detached components. Events about components that are not attached
can no longer be delivered and are dropped. -/
def flush (w : World) : Flushed × World :=
  let (entities, w) := w.pending.toList.foldl free (0, { w with pending := #[] })
  let events := w.events.filter fun event => w.store.attachment? event.handle == some .attached
  let (components, store) := w.store.releaseScheduled
  (⟨entities, components⟩, { w with store, events })

/-- Takes all queued events. -/
def drain (w : World) : Array Event × World := (w.events, { w with events := #[] })

/-- Changes the component of kind `k` behind a handle. -/
def modify (w : World) (k : Kind) (h : Handle) (f : k.Data → k.Data) : Except WorldError Unit × World :=
  match w.component k h with
  | .error err => (.error err, w)
  | .ok data => (.ok (), { w with store := w.store.set h ⟨k, f data⟩ })

end World

end Cadence
