/-!
Steps that change a state and may fail, done one after the other.
-/

namespace Cadence

variable {σ α ε : Type}

/-- Does a step for each element, on the state that the step before has left, and stops at the first that fails. -/
def inOrder (step : σ → α → Except ε Unit × σ) (s : σ) : List α → Except ε Unit × σ
  | [] => (.ok (), s)
  | a :: rest =>
    match step s a with
    | (.error e, s) => (.error e, s)
    | (.ok (), s) => inOrder step s rest

@[simp] theorem inOrder_nil (step : σ → α → Except ε Unit × σ) (s : σ) : inOrder step s [] = (.ok (), s) := rfl

theorem inOrder_append (step : σ → α → Except ε Unit × σ) (s : σ) (xs ys : List α) :
    inOrder step s (xs ++ ys) =
      match inOrder step s xs with
      | (.error e, s) => (.error e, s)
      | (.ok (), s) => inOrder step s ys := by
  induction xs generalizing s with
  | nil => rfl
  | cons a rest ih =>
    simp only [List.cons_append, inOrder]
    split
    · rfl
    · exact ih _

end Cadence
