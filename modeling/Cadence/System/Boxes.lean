import Cadence.InOrder
import Cadence.System.Basic

/-!
Keeps a box around the sprites of every entity that has a transform, in the first bounds of the entity or in new
ones. An entity with several sprites gets one box around all of them.
-/

namespace Cadence

structure Boxes where
  sprites : Index := {}
  deriving Inhabited

namespace Boxes

/-- The box of an entity, and the bounds it is to be written to; without any, new ones are attached. -/
structure Box where
  entity : Entity
  target : Option Handle
  bounds : Bounds

/-- Widens the box of its entity by `box`, or appends it as the entity's first. -/
def insertBox (box : Box) : List Box → List Box
  | [] => [box]
  | other :: rest =>
    if other.entity = box.entity then { other with bounds := other.bounds.union box.bounds } :: rest
    else other :: insertBox box rest

/-- The box around one sprite. -/
def box? (w : World) (entry : Index.Entry) : Except WorldError (Option Box) :=
  match w.component .sprite entry.handle with
  | .error e => .error e
  | .ok sprite =>
    .ok <| (w.first? .transform entry.owner).map fun (_, t) =>
      { entity := entry.owner
        target := (w.first? .bounds entry.owner).map (·.1)
        bounds := Bounds.around t sprite.width sprite.height }

/-- Whether the box differs from what its target holds. -/
def isNews (w : World) (box : Box) : Bool :=
  match box.target with
  | none => true
  | some h =>
    match w.component .bounds h with
    | .error _ => true
    | .ok current => current != box.bounds

/-- The boxes to be written, one for each entity, in the order in which the index names the entities first. -/
def boxes (b : Boxes) (w : World) : Except WorldError (List Box) :=
  (b.sprites.entries.toList.mapM (box? w)).map fun found =>
    ((found.filterMap id).foldl (fun boxes box => insertBox box boxes) []).filter (isNews w)

/-- Writes a box, unless its entity has been marked for deletion meanwhile. -/
def applyBox (w : World) (box : Box) : Except WorldError Unit × World :=
  if w.isLive box.entity then
    match box.target with
    | some h => w.modify .bounds h fun _ => box.bounds
    | none =>
      let (r, w) := w.attach box.entity ⟨.bounds, box.bounds⟩
      (r.map fun _ => (), w)
  else (.ok (), w)

def applyBoxes (w : World) (boxes : List Box) : Except WorldError Unit × World :=
  inOrder applyBox w boxes

def system (ε : Type) : System Boxes (List Box) ε where
  name _ := "bounds"
  accepts _ c := c.kind == .sprite
  added h owner _ b host := ⟨.ok (), { b with sprites := (b.sprites.insert h owner).2 }, host⟩
  removed h _ _ b host := ⟨.ok (), { b with sprites := (b.sprites.remove h).2 }, host⟩
  update ctx _ b host :=
    let outcome := match b.boxes ctx.world with
      | .error e => .error (.world e)
      | .ok [] => .ok none
      | .ok boxes => .ok (some boxes)
    { outcome, system := b, host }
  apply boxes ctx b host :=
    let (outcome, world) := applyBoxes ctx.world boxes
    { outcome := outcome.mapError .world, system := b, host, world }
  byteSize boxes := vectorBytes 40 boxes.length

end Boxes

end Cadence
