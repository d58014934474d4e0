import Cadence.Session.Host

/-!
Operations on a world that refer to earlier entities and handles.
-/

namespace Cadence.Session

abbrev Query : Type := World.Query (Ref Entity) (Ref Handle)

abbrev Edit : Type := World.Edit (Ref Entity) (Ref Handle)

inductive WorldOp
  | ask (query : Query)
  | edit (edit : Edit)
  | unknown (word : String)

/-- Why an operation on a world came to nothing. -/
inductive WorldFailure
  | badInput (text : String)
  | world (error : WorldError)

def unknownOp (word : String) : String := s!"unknown op {word}"

/-- Asks a question once its references are resolved. -/
def ask (host : Host) (w : World) (query : Query) : Except WorldFailure World.Answer :=
  match query.mapM host.entity host.handle with
  | .error text => .error (.badInput text)
  | .ok query => (w.ask query).mapError .world

/-- Changes the world once the references are resolved. -/
def edit (host : Host) (w : World) (edit : Edit) : Except WorldFailure World.Answer × World × Host :=
  match edit.mapM host.entity host.handle with
  | .error text => (.error (.badInput text), w, host)
  | .ok edit =>
    match w.perform edit with
    | (.error e, w) => (.error (.world e), w, host)
    | (.ok answer, w) => (.ok answer, w, host.remember answer)

def WorldOp.perform (host : Host) (w : World) : WorldOp → Except WorldFailure World.Answer × World × Host
  | .ask query => (Session.ask host w query, w, host)
  | .edit change => Session.edit host w change
  | .unknown word => (.error (.badInput (unknownOp word)), w, host)

end Cadence.Session
