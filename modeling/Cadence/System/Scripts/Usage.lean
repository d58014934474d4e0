/-!
How many users each script has, in the order of the scripts' names.
-/

namespace Cadence

structure Usage where
  counts : List (String × Nat) := []
  deriving Inhabited

namespace Usage

def count? (u : Usage) (script : String) : Option Nat := u.counts.lookup script

def put (script : String) (n : Nat) : List (String × Nat) → List (String × Nat)
  | [] => [(script, n)]
  | (name, m) :: rest =>
    if script = name then (script, n) :: rest
    else if script < name then (script, n) :: (name, m) :: rest
    else (name, m) :: put script n rest

def set (u : Usage) (script : String) (n : Nat) : Usage := ⟨put script n u.counts⟩

def erase (u : Usage) (script : String) : Usage := ⟨u.counts.filter (·.1 ≠ script)⟩

def scripts (u : Usage) : List String := u.counts.map (·.1)

theorem lookup_cons_eq_ite (script name : String) (n : Nat) (l : List (String × Nat)) :
    ((name, n) :: l).lookup script = if script = name then some n else l.lookup script := by
  rw [List.lookup_cons]
  cases h : script == name <;> simp_all

theorem lookup_put (script other : String) (n : Nat) (l : List (String × Nat)) :
    (put script n l).lookup other = if other = script then some n else l.lookup other := by
  fun_induction put script n l <;> grind [lookup_cons_eq_ite]

theorem lookup_filter_ne (script other : String) (l : List (String × Nat)) :
    (l.filter (·.1 ≠ script)).lookup other = if other = script then none else l.lookup other := by
  induction l with
  | nil => simp
  | cons p rest ih => grind [lookup_cons_eq_ite]

@[simp] theorem count?_set (u : Usage) (script other : String) (n : Nat) :
    (u.set script n).count? other = if other = script then some n else u.count? other :=
  lookup_put ..

@[simp] theorem count?_erase (u : Usage) (script other : String) :
    (u.erase script).count? other = if other = script then none else u.count? other :=
  lookup_filter_ne ..

end Usage

end Cadence
