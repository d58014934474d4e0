import Cadence.Proofs.Engine.Recording

/-!
Hosts that bear witness. What a callback leaves behind in the host for good, an entry in a log for one, is there at the
end too; so that a host which is clean at the end has been clean all along.
-/

namespace Cadence

variable {σ σ₁ σ₂ ρ ρ₁ ρ₂ ε : Type} {clean : ε → Prop}

/-- A host that is clean after a callback was clean before it. -/
structure System.NeverCleans (clean : ε → Prop) (sys : System σ ρ ε) : Prop where
  init : ∀ {w phase id s host}, clean (sys.init w phase id s host).host → clean host
  added : ∀ {h owner c s host}, clean (sys.added h owner c s host).host → clean host
  removed : ∀ {h owner c s host}, clean (sys.removed h owner c s host).host → clean host
  update : ∀ {ctx dt s host}, clean (sys.update ctx dt s host).host → clean host
  updateSerial : ∀ {ctx dt s host}, clean (sys.updateSerial ctx dt s host).host → clean host
  apply : ∀ {result ctx s host}, clean (sys.apply result ctx s host).host → clean host
  shutdown : ∀ {s host}, clean (sys.shutdown s host) → clean host
  duplicate : ∀ {result host}, clean (sys.duplicate result host).2 → clean host
  release : ∀ {result host}, clean (sys.release result host) → clean host

/-- Recorded systems never take back what they have written down. -/
theorem System.recorded_neverCleans (sys : System σ ρ ε) (P : Call ρ → Prop) :
    sys.recorded.NeverCleans fun host => ∀ call ∈ host.2, P call where
  init h := (List.forall_mem_append.mp h).1
  added h := (List.forall_mem_append.mp h).1
  removed h := (List.forall_mem_append.mp h).1
  update h := (List.forall_mem_append.mp h).1
  updateSerial h := (List.forall_mem_append.mp h).1
  apply h := (List.forall_mem_append.mp h).1
  shutdown h := (List.forall_mem_append.mp h).1
  duplicate h := (List.forall_mem_append.mp h).1
  release h := (List.forall_mem_append.mp h).1

namespace System.NeverCleans

theorem sum {a : System σ₁ ρ₁ ε} {b : System σ₂ ρ₂ ε} (ha : a.NeverCleans clean) (hb : b.NeverCleans clean) :
    (a.sum b).NeverCleans clean where
  init {_ _ _ s _} h := by
    cases s with
    | inl s => exact ha.init h
    | inr s => exact hb.init h
  added {_ _ _ s _} h := by
    cases s with
    | inl s => exact ha.added h
    | inr s => exact hb.added h
  removed {_ _ _ s _} h := by
    cases s with
    | inl s => exact ha.removed h
    | inr s => exact hb.removed h
  update {_ _ s _} h := by
    cases s with
    | inl s => exact ha.update h
    | inr s => exact hb.update h
  updateSerial {_ _ s _} h := by
    cases s with
    | inl s => exact ha.updateSerial h
    | inr s => exact hb.updateSerial h
  apply {result _ s _} h := by
    cases result with
    | inl result =>
      cases s with
      | inl s => exact ha.apply h
      | inr s => exact h
    | inr result =>
      cases s with
      | inl s => exact h
      | inr s => exact hb.apply h
  shutdown {s _} h := by
    cases s with
    | inl s => exact ha.shutdown h
    | inr s => exact hb.shutdown h
  duplicate {result _} h := by
    cases result with
    | inl result => exact ha.duplicate h
    | inr result => exact hb.duplicate h
  release {result _} h := by
    cases result with
    | inl result => exact ha.release h
    | inr result => exact hb.release h

variable {sys : System σ ρ ε}

theorem notify (hsys : sys.NeverCleans clean) {event : Event} {c : Component} {s : σ} {host : ε}
    (h : clean (sys.notify event c s host).host) : clean host := by
  cases event with
  | attached handle owner => exact hsys.added h
  | detached handle owner => exact hsys.removed h

theorem notifyAll (hsys : sys.NeverCleans clean) {event : Event} {c : Component} {slots : List (Slot σ ρ)} {host : ε}
    (h : clean (sys.notifyAll event c slots host).2.2) : clean host := by
  induction slots generalizing host with
  | nil => exact h
  | cons slot rest ih =>
    rw [System.notifyAll] at h
    split at h
    · dsimp only at h
      split at h
      · exact hsys.notify h
      · exact hsys.notify (ih h)
    · exact ih h

theorem notifyPhases (hsys : sys.NeverCleans clean) {event : Event} {c : Component}
    {slots : ByPhase (List (Slot σ ρ))} {host : ε} (h : clean (sys.notifyPhases event c slots host).2.2) :
    clean host := by
  have hearly : clean (sys.notifyAll event c slots.early host).2.2 → clean host := hsys.notifyAll
  rw [System.notifyPhases] at h
  rcases hresult : sys.notifyAll event c slots.early host with ⟨err | _, early, host₁⟩ <;> rw [hresult] at h hearly
  · exact hearly h
  have hscript : clean (sys.notifyAll event c slots.script host₁).2.2 → clean host₁ := hsys.notifyAll
  dsimp only at h
  rcases hresult : sys.notifyAll event c slots.script host₁ with ⟨err | _, script, host₂⟩ <;> rw [hresult] at h hscript
  · exact hearly (hscript h)
  · exact hearly (hscript (hsys.notifyAll h))

theorem handOff (hsys : sys.NeverCleans clean) {result : Option ρ} {host : ε}
    (h : clean (sys.handOff result host).2) : clean host := by
  cases result with
  | none => exact h
  | some result => exact hsys.duplicate (hsys.release h)

open Engine

theorem route (hsys : sys.NeverCleans clean) {e : Engine σ ρ ε} {event : Event}
    (h : clean (Engine.route sys e event).2.host) : clean e.host := by
  rw [Engine.route] at h
  split at h
  · exact h
  · exact hsys.notifyPhases h

theorem deliver (hsys : sys.NeverCleans clean) {e : Engine σ ρ ε} (h : clean (Engine.deliver sys e).2.host) :
    clean e.host := by
  let I (e' : Engine σ ρ ε) : Prop := clean e'.host → clean e.host
  have hall : Leaves (fun _ e' => I e') (fun _ e' => I e')
      (inOrder (Engine.route sys) { e with world := e.world.drain.2 } e.world.events.toList) := by
    refine leaves_inOrder (I := I) (fun e' event _ h' => ?_) id
    exact .of_snd (I := I) fun hclean => h' (hsys.route hclean)
  have hleft := hall.snd (I := I)
  rw [deliver_eq] at h
  rcases hresult : inOrder (Engine.route sys) { e with world := e.world.drain.2 } e.world.events.toList with
    ⟨err | _, e'⟩ <;> rw [hresult] at h hleft <;> exact hleft h

theorem offers (hsys : sys.NeverCleans clean) {s : σ} {host : ε} {items : List (Handle × Entity × Component)}
    {left : Except Fault Unit × σ × ε} (hoffers : inOrder (offer sys) (s, host) items = left) (h : clean left.2.2) :
    clean host := by
  let I (state : σ × ε) : Prop := clean state.2 → clean host
  have hstep : ∀ (state : σ × ε), ∀ item ∈ items, I state →
      Leaves (fun _ state => I state) (fun _ state => I state) (offer sys state item) := by
    rintro ⟨s, host'⟩ ⟨handle, owner, c⟩ _ hstate
    refine .of_snd (I := I) fun hclean => hstate ?_
    rw [offer] at hclean
    dsimp only at hclean
    split at hclean
    · exact hsys.added hclean
    · exact hclean
  subst hoffers
  exact (leaves_inOrder (I := I) hstep id).snd (I := I) h

theorem refuses (hsys : sys.NeverCleans clean) {e : Engine σ ρ ε} {phase : Phase} {id : Nat} {s : σ} {host : ε}
    (hrefuses : Refuses sys e phase id s host) (h : clean host) : clean e.host := by
  cases hrefuses with
  | init _ => exact hsys.init h
  | offer hoffers => exact hsys.init (hsys.offers hoffers (hsys.shutdown h))

theorem shutdowns (hsys : sys.NeverCleans clean) {slots : List (Slot σ ρ)} {host : ε}
    (h : clean (slots.foldl (fun host slot => sys.shutdown slot.system host) host)) : clean host := by
  induction slots generalizing host with
  | nil => exact h
  | cons slot rest ih => exact hsys.shutdown (ih h)

end System.NeverCleans

end Cadence
