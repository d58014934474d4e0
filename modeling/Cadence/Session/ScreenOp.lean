import Cadence.Drawing.Screen
import Cadence.Session.WorldOp

/-!
Operations on a screen.
-/

namespace Cadence.Session

inductive ScreenOp
  | submit (sketch : Sketch)
  | submitAll (sketches : List Sketch)
  | flip
  | clearActive
  | active
  | presentable
  | fromSource (entity : Ref Entity)
  | info
  | subscribe
  | unsubscribe (reader : Nat)
  | receive (reader : Nat) (limit : Option Nat)
  | unknown (word : String)

inductive ScreenAnswer
  | nothing
  | count (value : Nat)
  | notice (notice : Notice)
  | notices (notices : Option (List Notice))
  | list (list : DrawList)
  | primitives (items : Array Primitive)
  | info (frame : Nat) (active : Nat) (subscribers : Nat)

/-- The answer, or the text of what is wrong with the operation. -/
def ScreenOp.perform (host : Host) (s : Screen) : ScreenOp → Except String ScreenAnswer × Screen
  | .submit sketch =>
    match sketch.resolve host with
    | .error text => (.error text, s)
    | .ok p =>
      let s := s.submit p
      (.ok (.count s.active.size), s)
  | .submitAll sketches =>
    match sketches.mapM (Sketch.resolve host) with
    | .error text => (.error text, s)
    | .ok ps =>
      let (count, s) := s.submitAll ps.toArray
      (.ok (.count count), s)
  | .flip =>
    let (notice, s) := s.flip
    (.ok (.notice notice), s)
  | .clearActive => (.ok .nothing, s.clearActive)
  | .active => (.ok (.list s.active), s)
  | .presentable => (.ok (.list s.presentable), s)
  | .fromSource entity => ((host.entity entity).map fun e => .primitives (s.presentable.fromSource e), s)
  | .info => (.ok (.info s.frame s.drawn.index s.subscriberCount), s)
  | .subscribe =>
    let s := s.subscribe
    (.ok (.count s.subscriberCount), s)
  | .unsubscribe reader =>
    let s := s.unsubscribe reader
    (.ok (.count s.subscriberCount), s)
  | .receive reader limit =>
    let (notices, s) := s.receive reader limit
    (.ok (.notices notices), s)
  | .unknown word => (.error (unknownOp word), s)

end Cadence.Session
