import Cadence.InOrder

/-!
Rules for operations that may fail: a statement about such an operation says what holds of the state it leaves when
it is done, and what holds when it has failed; a statement about two of them, that they come out the same and how their
states are related.
-/

namespace Cadence

variable {σ τ υ α β ε ε' : Type}

/-- An operation that is done leaves what `done` says, and one that has failed leaves what `failed` says. -/
def Leaves (done : α → σ → Prop) (failed : ε → σ → Prop) : Except ε α × σ → Prop
  | (.ok a, s) => done a s
  | (.error e, s) => failed e s

theorem exists_of_map_eq_ok {f : α → β} {x : Except ε α} {b : β} (h : x.map f = .ok b) : ∃ a, x = .ok a ∧ f a = b := by
  cases x with
  | error e => cases h
  | ok a => exact ⟨a, rfl, Except.ok.inj h⟩

namespace Leaves

variable {done done' : α → σ → Prop} {failed failed' : ε → σ → Prop} {r : Except ε α × σ}

theorem mono (h : Leaves done failed r) (hdone : ∀ a s, done a s → done' a s) (hfailed : ∀ e s, failed e s → failed' e s) :
    Leaves done' failed' r := by
  obtain ⟨_ | a, s⟩ := r
  · exact hfailed _ _ h
  · exact hdone _ _ h

theorem and (h : Leaves done failed r) (h' : Leaves done' failed' r) :
    Leaves (fun a s => done a s ∧ done' a s) (fun e s => failed e s ∧ failed' e s) r := by
  obtain ⟨_ | a, s⟩ := r
  · exact ⟨h, h'⟩
  · exact ⟨h, h'⟩

/-- What holds either way holds of the state that is left. -/
theorem snd {I : σ → Prop} (h : Leaves (fun (_ : α) s => I s) (fun (_ : ε) s => I s) r) : I r.2 := by
  obtain ⟨_ | a, s⟩ := r
  · exact h
  · exact h

theorem of_snd {I : σ → Prop} (h : I r.2) : Leaves (fun _ s => I s) (fun _ s => I s) r := by
  obtain ⟨_ | a, s⟩ := r
  · exact h
  · exact h

theorem of_ok (h : Leaves done failed r) {a : α} {s : σ} (hr : r = (.ok a, s)) : done a s := by
  rw [hr] at h
  exact h

theorem of_error (h : Leaves done failed r) {e : ε} {s : σ} (hr : r = (.error e, s)) : failed e s := by
  rw [hr] at h
  exact h

end Leaves

/-- Both operations are done with the same value, and `done` relates the states they leave, or both fail with the same
error, and `failed` relates the states. -/
inductive Agree (done failed : σ → τ → Prop) : Except ε α × σ → Except ε α × τ → Prop
  | ok {a : α} {s : σ} {t : τ} (h : done s t) : Agree done failed (.ok a, s) (.ok a, t)
  | error {e : ε} {s : σ} {t : τ} (h : failed s t) : Agree done failed (.error e, s) (.error e, t)

namespace Agree

variable {done failed : σ → τ → Prop} {r : Except ε α × σ} {r' : Except ε α × τ}

theorem cases (h : Agree done failed r r') :
    (∃ a s t, r = (.ok a, s) ∧ r' = (.ok a, t) ∧ done s t) ∨
      ∃ e s t, r = (.error e, s) ∧ r' = (.error e, t) ∧ failed s t := by
  cases h with
  | ok h => exact .inl ⟨_, _, _, rfl, rfl, h⟩
  | error h => exact .inr ⟨_, _, _, rfl, rfl, h⟩

theorem mono {done' failed' : σ → τ → Prop} (h : Agree done failed r r') (hdone : ∀ s t, done s t → done' s t)
    (hfailed : ∀ s t, failed s t → failed' s t) : Agree done' failed' r r' := by
  cases h with
  | ok h => exact .ok (hdone _ _ h)
  | error h => exact .error (hfailed _ _ h)

theorem symm {done' failed' : τ → σ → Prop} (h : Agree done failed r r') (hdone : ∀ s t, done s t → done' t s)
    (hfailed : ∀ s t, failed s t → failed' t s) : Agree done' failed' r' r := by
  cases h with
  | ok h => exact .ok (hdone _ _ h)
  | error h => exact .error (hfailed _ _ h)

theorem trans {done₁ failed₁ : τ → υ → Prop} {done₂ failed₂ : σ → υ → Prop} {r'' : Except ε α × υ}
    (h : Agree done failed r r') (h₁ : Agree done₁ failed₁ r' r'')
    (hdone : ∀ s t u, done s t → done₁ t u → done₂ s u) (hfailed : ∀ s t u, failed s t → failed₁ t u → failed₂ s u) :
    Agree done₂ failed₂ r r'' := by
  cases h with
  | ok h =>
    cases h₁ with
    | ok h₁ => exact .ok (hdone _ _ _ h h₁)
  | error h =>
    cases h₁ with
    | error h₁ => exact .error (hfailed _ _ _ h h₁)

theorem map (f : α → β) (h : Agree done failed r r') : Agree done failed (r.1.map f, r.2) (r'.1.map f, r'.2) := by
  cases h with
  | ok h => exact .ok h
  | error h => exact .error h

end Agree

/-! ### Steps in order -/

theorem inOrder_cons_of_ok {step : σ → α → Except ε Unit × σ} {s : σ} {a : α} (h : (step s a).1 = .ok ())
    (rest : List α) : inOrder step s (a :: rest) = inOrder step (step s a).2 rest := by
  rw [inOrder]
  rcases hresult : step s a with ⟨_ | _, s'⟩
  · rw [hresult] at h
    cases h
  · rfl

/-- Steps that never fail are all done. -/
theorem inOrder_of_ok {step : σ → α → Except ε Unit × σ} (h : ∀ s a, (step s a).1 = .ok ()) (s : σ) (xs : List α) :
    (inOrder step s xs).1 = .ok () := by
  induction xs generalizing s with
  | nil => rfl
  | cons a rest ih =>
    rw [inOrder_cons_of_ok (h s a)]
    exact ih _

/-- Steps none of which does anything leave the state as it is. -/
theorem inOrder_eq_self {step : σ → α → Except ε Unit × σ} {s : σ} {xs : List α}
    (h : ∀ a ∈ xs, step s a = (.ok (), s)) : inOrder step s xs = (.ok (), s) := by
  induction xs with
  | nil => rfl
  | cons a rest ih =>
    rw [inOrder, h a (by simp)]
    exact ih fun a hmem => h a (by simp [hmem])

theorem agree_inOrder {step : σ → α → Except ε Unit × σ} {step' : τ → α → Except ε Unit × τ}
    {done failed : σ → τ → Prop} (hstep : ∀ s t a, done s t → Agree done failed (step s a) (step' t a)) (xs : List α)
    {s : σ} {t : τ} (h : done s t) : Agree done failed (inOrder step s xs) (inOrder step' t xs) := by
  induction xs generalizing s t with
  | nil => exact .ok h
  | cons a rest ih =>
    unfold inOrder
    obtain ⟨_, s', t', hr, hr', h'⟩ | ⟨err, s', t', hr, hr', h'⟩ := (hstep s t a h).cases <;> rw [hr, hr']
    · exact ih h'
    · exact .error h'

theorem leaves_inOrder {step : σ → α → Except ε Unit × σ} {I : σ → Prop} {failed : ε → σ → Prop} {xs : List α}
    (hstep : ∀ s, ∀ a ∈ xs, I s → Leaves (fun _ s' => I s') failed (step s a)) {s : σ} (h : I s) :
    Leaves (fun _ s' => I s') failed (inOrder step s xs) := by
  induction xs generalizing s with
  | nil => exact h
  | cons a rest ih =>
    have hfirst := hstep s a (by simp) h
    rw [inOrder]
    rcases hresult : step s a with ⟨_ | _, s'⟩
    · exact hfirst.of_error hresult
    · exact ih (fun s a hmem => hstep s a (by simp [hmem])) (hfirst.of_ok hresult)

theorem inOrder_range_succ (step : σ → Nat → Except ε Unit × σ) (s : σ) (n : Nat) :
    inOrder step s (List.range (n + 1)) =
      match inOrder step s (List.range n) with
      | (.error e, s) => (.error e, s)
      | (.ok (), s) => step s n := by
  rw [List.range_succ, inOrder_append]
  rcases inOrder step s (List.range n) with ⟨e | _, s'⟩
  · rfl
  · simp only [inOrder]
    rcases step s' n with ⟨e | _, s''⟩ <;> rfl

/-- Positions are taken one after the other; `I i` holds when the first `i` of them are done. -/
theorem leaves_inOrder_range {step : σ → Nat → Except ε Unit × σ} {I : Nat → σ → Prop} {failed : ε → σ → Prop} {n : Nat}
    (hstep : ∀ i s, i < n → I i s → Leaves (fun _ s' => I (i + 1) s') failed (step s i)) {s : σ} (h : I 0 s) :
    Leaves (fun _ s' => I n s') failed (inOrder step s (List.range n)) := by
  induction n with
  | zero => exact h
  | succ n ih =>
    have hbefore := ih fun i s hi => hstep i s (by omega)
    rw [inOrder_range_succ]
    rcases hresult : inOrder step s (List.range n) with ⟨_ | _, s'⟩
    · exact hbefore.of_error hresult
    · exact hstep n s' (by omega) (hbefore.of_ok hresult)

theorem foldl_range {step : σ → Nat → σ} {I : Nat → σ → Prop} {n : Nat}
    (hstep : ∀ i s, i < n → I i s → I (i + 1) (step s i)) {s : σ} (h : I 0 s) : I n ((List.range n).foldl step s) := by
  induction n with
  | zero => exact h
  | succ n ih =>
    rw [List.range_succ, List.foldl_append]
    exact hstep n _ (by omega) (ih fun i s hi => hstep i s (by omega))

end Cadence
