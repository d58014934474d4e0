import Cadence.Component.Bounds
import Cadence.Component.Sprite

/-!
Components: plain data attached to an entity. A component is its kind together with data of that kind. Besides the
kinds that the systems of this library know there is one kind for every name a user picks, which carries a number.
-/

namespace Cadence

/-- Names the script that an entity runs. -/
structure Script where
  name : String := ""
  deriving DecidableEq, Inhabited

inductive Kind
  | transform
  | velocity
  | sprite
  | bounds
  | script
  | custom (name : String)
  deriving DecidableEq, Inhabited

namespace Kind

/-- The data that a component of a kind holds. -/
@[reducible] def Data : Kind → Type
  | transform => Transform
  | velocity => Velocity
  | sprite => Sprite
  | bounds => Bounds
  | script => Script
  | custom _ => Int

/-- The full name under which messages speak of a kind. -/
def fullName : Kind → String
  | transform => "frame_engine::ecs::components::Transform"
  | velocity => "frame_engine::ecs::components::Velocity"
  | sprite => "frame_engine::ecs::components::Sprite"
  | bounds => "frame_engine::ecs::components::Bounds"
  | script => "frame_engine::script::ScriptAttachment"
  | custom name => name

end Kind

structure Component where
  kind : Kind
  data : kind.Data

namespace Component

instance : Inhabited Component := ⟨.script, default⟩

/-- The data, if the component is of kind `k`. -/
def as (c : Component) (k : Kind) : Option k.Data :=
  if h : c.kind = k then some (h ▸ c.data) else none

@[simp] theorem as_kind (k : Kind) (d : k.Data) : (Component.mk k d).as k = some d := by
  simp [as]

theorem as_eq_some_iff {c : Component} {k : Kind} {d : k.Data} : c.as k = some d ↔ c = ⟨k, d⟩ := by
  constructor
  · intro h
    unfold as at h
    split at h
    · rename_i e
      cases c
      subst e
      simpa using h
    · cases h
  · rintro rfl
    exact as_kind k d

theorem as_eq_none_iff {c : Component} {k : Kind} : c.as k = none ↔ c.kind ≠ k := by
  simp [as]

def display (c : Component) : String := s!"Component<{c.kind.fullName}>"

end Component

end Cadence
