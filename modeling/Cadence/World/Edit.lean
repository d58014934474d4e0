import Cadence.World.Query

/-!
Changes to a world as data, over the same open types of entities and handles as the questions.
-/

namespace Cadence.World

inductive Edit (ε η : Type)
  | spawn (persistent : Bool)
  | attach (entity : ε) (component : Component)
  | detach (handle : η)
  | mark (entity : ε)
  | clear (persistentToo : Bool)
  | flush
  | setPersistent (entity : ε) (persistent : Bool)
  | drain
  | overwrite (handle : η) (component : Component)
  | moveTo (handle : η) (x y : Float32)
  | rotateTo (handle : η) (rotation : Float32)
  | setVelocity (handle : η) (dx dy : Float32)

/-- Resolves the entities and handles that a change is about. -/
def Edit.mapM {m : Type → Type} [Monad m] {ε ε' η η' : Type} (f : ε → m ε') (g : η → m η') :
    Edit ε η → m (Edit ε' η')
  | spawn persistent => return .spawn persistent
  | attach e c => return .attach (← f e) c
  | detach h => return .detach (← g h)
  | mark e => return .mark (← f e)
  | clear persistentToo => return .clear persistentToo
  | flush => return .flush
  | setPersistent e persistent => return .setPersistent (← f e) persistent
  | drain => return .drain
  | overwrite h c => return .overwrite (← g h) c
  | moveTo h x y => return .moveTo (← g h) x y
  | rotateTo h rotation => return .rotateTo (← g h) rotation
  | setVelocity h dx dy => return .setVelocity (← g h) dx dy

/-- Maps the result of an operation to an answer. -/
def answered {α : Type} (f : α → Answer) (r : Except WorldError α × World) : Except WorldError Answer × World :=
  (r.1.map f, r.2)

def perform (w : World) : Edit Entity Handle → Except WorldError Answer × World
  | .spawn persistent =>
    let (e, w) := w.spawn persistent
    (.ok (.entity e), w)
  | .attach e c => answered .handle (w.attach e c)
  | .detach h => answered .flag (w.detach h)
  | .mark e => answered .flag (w.mark e)
  | .clear persistentToo => answered .count (w.clear persistentToo)
  | .flush =>
    let (report, w) := w.flush
    (.ok (.flushed report), w)
  | .setPersistent e persistent => answered (fun _ => .nothing) (w.setPersistent e persistent)
  | .drain =>
    let (events, w) := w.drain
    (.ok (.events events), w)
  | .overwrite h c => answered (fun _ => .nothing) (w.modify c.kind h fun _ => c.data)
  | .moveTo h x y => answered (fun _ => .nothing) (w.modify .transform h (·.moveTo x y))
  | .rotateTo h rotation => answered (fun _ => .nothing) (w.modify .transform h (·.rotateTo rotation))
  | .setVelocity h dx dy => answered (fun _ => .nothing) (w.modify .velocity h fun _ => ⟨dx, dy⟩)

end Cadence.World
