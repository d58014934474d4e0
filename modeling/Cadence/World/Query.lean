import Cadence.World.Basic

/-!
Questions about a world as data. The types `ε` and `η` of the entities and handles they ask about are left open, so
that a question can be written down before it is known which entity and which handle it is about.
-/

namespace Cadence.World

inductive Query (ε η : Type)
  | state (entity : ε)
  | alive (entity : ε)
  | isPersistent (entity : ε)
  | live
  | pending
  | handlesOf (entity : ε)
  | first (entity : ε) (kind : Kind)
  | component (handle : η) (kind : Kind)
  | describe (handle : η) (kind : Kind)
  | getAs (handle : η) (kind : Kind)
  | owner (handle : η)
  | attachment (handle : η)
  | contains (handle : η)
  | attached
  | kinds

/-- What the world answers, to a question or to a change. -/
inductive Answer
  | nothing
  | flag (value : Bool)
  | flags (first second : Bool)
  | count (value : Nat)
  | state (value : Option Lifecycle)
  | entity (value : Entity)
  | owner (value : Option Entity)
  | entities (values : List Entity)
  | handle (value : Handle)
  | handles (values : Array Handle)
  | component (value : Option Component)
  | found (value : Option (Handle × Component))
  | described (value : Option (Component × Bool))
  | attachment (value : Option Attachment)
  | attached (values : List (Handle × Entity × Component))
  | names (values : List String)
  | flushed (value : Flushed)
  | events (values : Array Event)
  deriving Inhabited

/-- Resolves the entities and handles that a question is about. -/
def Query.mapM {m : Type → Type} [Monad m] {ε ε' η η' : Type} (f : ε → m ε') (g : η → m η') :
    Query ε η → m (Query ε' η')
  | state e => return .state (← f e)
  | alive e => return .alive (← f e)
  | isPersistent e => return .isPersistent (← f e)
  | live => return .live
  | pending => return .pending
  | handlesOf e => return .handlesOf (← f e)
  | first e k => return .first (← f e) k
  | component h k => return .component (← g h) k
  | describe h k => return .describe (← g h) k
  | getAs h k => return .getAs (← g h) k
  | owner h => return .owner (← g h)
  | attachment h => return .attachment (← g h)
  | contains h => return .contains (← g h)
  | attached => return .attached
  | kinds => return .kinds

/-- The full names of the kinds of the attached components, each once, in alphabetical order. -/
def kindNames (w : World) : List String :=
  (w.store.attached.map fun (_, _, c) => c.kind.fullName).mergeSort.eraseDups

def ask (w : World) : Query Entity Handle → Except WorldError Answer
  | .state e => .ok (.state (w.state? e))
  | .alive e => .ok (.flags (w.isLive e) (w.contains e))
  | .isPersistent e => (w.isPersistent e).map .flag
  | .live => .ok (.entities w.liveEntities)
  | .pending => .ok (.entities w.pending.toList)
  | .handlesOf e => (w.handlesOf e).map .handles
  | .first e k => .ok (.found ((w.first? k e).map fun (h, data) => (h, ⟨k, data⟩)))
  | .component h k => (w.component k h).map fun data => .component (some ⟨k, data⟩)
  | .describe h k => .ok (.described ((w.store.get? h).map fun c => (c, c.kind == k)))
  | .getAs h k => .ok (.component ((w.store.getAs? k h).map (⟨k, ·⟩)))
  | .owner h => .ok (.owner (w.store.owner? h))
  | .attachment h => .ok (.attachment (w.store.attachment? h))
  | .contains h => .ok (.flags (w.store.contains h) w.store.isEmpty)
  | .attached => .ok (.attached w.store.attached)
  | .kinds => .ok (.names w.kindNames)

end Cadence.World
