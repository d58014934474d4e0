import Cadence.Proofs.World.Gentle
import Cadence.Proofs.World.Log

/-!
Components of which no entity has more than one. Nothing but an attachment adds to the attached components of a kind,
so that entities that have one at most will not have another until it is attached to them.
-/

namespace Cadence.World

variable {k : Kind} {w w' w'' : World}

/-- The change attaches a component of kind `k`. -/
def Adds (k : Kind) (w : World) (edit : Edit Entity Handle) : Prop :=
  ∃ e c h, edit = .attach e c ∧ c.kind = k ∧ (w.attach e c).1 = .ok h

/-- `w'` comes from `w` by changes none of which attaches a component of kind `k`. -/
abbrev Without (k : Kind) : World → World → Prop := Stepwise fun w edit => ¬ w.Adds k edit

/-- What is attached of kind `k` in `w'` was attached to the same entity in `w` already. -/
def AddsNone (k : Kind) (w w' : World) : Prop :=
  ∀ h e, w'.label? h = some (e, .attached, k) → w.label? h = some (e, .attached, k)

namespace AddsNone

theorem refl (k : Kind) (w : World) : w.AddsNone k w := fun _ _ h => h

theorem trans (h : w.AddsNone k w') (h' : w'.AddsNone k w'') : w.AddsNone k w'' :=
  fun handle e hlabel => h handle e (h' handle e hlabel)

theorem of_label? (hlabel : ∀ h, w'.label? h = w.label? h) : w.AddsNone k w' :=
  fun h _ h' => (hlabel h).symm.trans h'

/-- A component that is detached is no longer attached, and the others are what they were. -/
theorem of_detach {h : Handle} (hentries : w'.store.entries = (w.store.detach h).2.entries) : w.AddsNone k w' := by
  intro h' e hlabel
  rw [label?, hentries, Store.get?_entries_detach] at hlabel
  split at hlabel
  · obtain ⟨entry, hentry, heq⟩ := Option.map_eq_some_iff.mp hlabel
    obtain ⟨old, _, rfl⟩ := Option.map_eq_some_iff.mp hentry
    cases heq
  · exact hlabel

end AddsNone

/-! ### What every change but an attachment adds -/

theorem addsNone_mark (w : World) (e : Entity) : w.AddsNone k (w.mark e).2 := by
  have hunroute (hs : List Handle) (w : World) : w.AddsNone k (hs.foldl (unroute e) w) := by
    induction hs generalizing w with
    | nil => exact .refl k w
    | cons h rest ih =>
      have hfirst : w.AddsNone k (unroute e w h) := .of_detach (by rw [unroute_eq])
      exact hfirst.trans (ih _)
  have hpending : w.AddsNone k (w.withPending e) := .of_label? (label?_congr rfl)
  rw [mark_eq]
  split
  · exact .refl k w
  · exact .refl k w
  · exact hpending.trans (hunroute _ _)

theorem addsNone_flush (hw : w.Sound) : w.AddsNone k w.flush.2 := by
  intro h e hlabel
  rw [label?_flush hw] at hlabel
  exact (Option.filter_eq_some_iff.mp hlabel).1

/-- What is attached after an attachment was attached before, or is the new component. -/
theorem label?_attach_cases (hw : w.Sound) {e owner : Entity} {c : Component} {h : Handle}
    (hlabel : (w.attach e c).2.label? h = some (owner, .attached, k)) :
    w.label? h = some (owner, .attached, k) ∨ ((w.attach e c).1 = .ok h ∧ owner = e ∧ c.kind = k) := by
  rw [attach_eq] at hlabel ⊢
  split at hlabel
  · exact .inl hlabel
  · exact .inl hlabel
  · rw [label?_withAttached hw.entries] at hlabel
    split at hlabel
    · rename_i hnew
      cases hlabel
      exact .inr ⟨congrArg _ hnew.symm, rfl, rfl⟩
    · exact .inl hlabel

theorem addsNone_attach (hw : w.Sound) {e : Entity} {c : Component} (hnot : ¬ w.Adds k (.attach e c)) :
    w.AddsNone k (w.attach e c).2 := by
  intro h owner hlabel
  obtain hold | ⟨hnew, _, hkind⟩ := label?_attach_cases hw hlabel
  · exact hold
  · exact absurd ⟨e, c, h, rfl, hkind, hnew⟩ hnot

theorem addsNone_perform (hw : w.Sound) {edit : Edit Entity Handle} (hedit : ¬ w.Adds k edit) :
    w.AddsNone k (w.perform edit).2 := by
  cases edit with
  | spawn persistent =>
    refine .of_label? (label?_congr ?_)
    simp only [perform, spawn]
    split <;> rfl
  | attach e c => exact addsNone_attach hw hedit
  | detach h =>
    rw [perform, answered, detach_eq]
    split
    · exact .refl k w
    · exact .of_detach (h := h) rfl
    · exact .refl k w
  | mark e => exact addsNone_mark w e
  | clear persistentToo =>
    exact markAll_preserves (I := w.AddsNone k) (fun w' e h => h.trans (addsNone_mark w' e)) (.refl k w) _ _
  | flush => exact addsNone_flush hw
  | setPersistent e persistent =>
    refine .of_label? (label?_congr ?_)
    simp only [perform, answered, setPersistent]
    split <;> rfl
  | drain => exact .refl k w
  | overwrite h c => exact .of_label? (label?_modify w _ _ _)
  | moveTo h x y => exact .of_label? (label?_modify w _ _ _)
  | rotateTo h rotation => exact .of_label? (label?_modify w _ _ _)
  | setVelocity h dx dy => exact .of_label? (label?_modify w _ _ _)

theorem Without.sound (h : w.Without k w') (hw : w.Sound) : w'.Sound := by
  induction h with
  | refl w => exact hw
  | step _ _ ih => exact ih (sound_perform hw _)

theorem Without.addsNone (h : w.Without k w') (hw : w.Sound) : w.AddsNone k w' := by
  induction h with
  | refl w => exact .refl k w
  | step hedit _ ih => exact (addsNone_perform hw hedit).trans (ih (sound_perform hw _))

/-! ### Entities without a component -/

/-- No component of kind `k` is attached to the entity. -/
def Lacks (k : Kind) (w : World) (e : Entity) : Prop := ∀ h, w.label? h ≠ some (e, .attached, k)

theorem Lacks.mono {e : Entity} (h : w.Lacks k e) (hnone : w.AddsNone k w') : w'.Lacks k e :=
  fun handle hlabel => h handle (hnone handle e hlabel)

/-- Whoever has no component of a kind in its list lacks it. -/
theorem lacks_of_first? (hw : w.Sound) {e : Entity} (hfirst : w.first? k e = none) : w.Lacks k e := by
  intro h hlabel
  obtain ⟨⟨owner, attachment, ⟨kind, data⟩⟩, hentry, heq⟩ := Option.map_eq_some_iff.mp hlabel
  cases heq
  obtain ⟨slot, hslot, hgeneration, hstate, hmem⟩ := hw.owner_of_attached hentry
  rw [first?, slot?_eq_some_iff.mpr ⟨hslot, hgeneration, by simp [hstate]⟩, Option.bind_some,
    List.findSome?_eq_none_iff] at hfirst
  have hget : w.store.getAs? kind h = some data := by simp [Store.getAs?, Store.get?, hentry]
  simpa [hget] using hfirst h (by simpa using hmem)

/-! ### Entities with one component at most -/

/-- A sound world in which no two components of kind `k` are attached to one entity. -/
structure Single (k : Kind) (w : World) : Prop extends Sound w where
  unique : ∀ {h h' e}, w.label? h = some (e, .attached, k) → w.label? h' = some (e, .attached, k) → h = h'

theorem single_empty (k : Kind) : empty.Single k where
  toSound := sound_empty
  unique {h _ e} hlabel := by
    have hnone : empty.label? h = none := by simp [label?, show empty.store.entries = Arena.empty from rfl]
    rw [hnone] at hlabel
    cases hlabel

theorem Single.mono (h : w.Single k) (hsound : w'.Sound) (hnone : w.AddsNone k w') : w'.Single k :=
  ⟨hsound, fun hlabel hlabel' => h.unique (hnone _ _ hlabel) (hnone _ _ hlabel')⟩

theorem Single.without (h : w.Single k) (hwithout : w.Without k w') : w'.Single k :=
  h.mono (hwithout.sound h.toSound) (hwithout.addsNone h.toSound)

theorem Single.drain (h : w.Single k) : w.drain.2.Single k := h.mono (h.toSound.withEvents #[]) (.refl k w)

theorem Single.flush (h : w.Single k) : w.flush.2.Single k := h.mono (sound_flush h.toSound) (addsNone_flush h.toSound)

theorem Lacks.attach (hw : w.Sound) {e e' : Entity} (h : w.Lacks k e) (hne : e ≠ e') (c : Component) :
    (w.attach e' c).2.Lacks k e := by
  intro handle hlabel
  obtain hold | ⟨_, howner, _⟩ := label?_attach_cases hw hlabel
  · exact h handle hold
  · exact hne howner

/-- Whoever lacks a component may get one. -/
theorem Single.attach (h : w.Single k) {e : Entity} (hlacks : w.Lacks k e) (c : Component) :
    (w.attach e c).2.Single k := by
  refine ⟨sound_attach h.toSound e c, fun {h₁ h₂ owner} hlabel₁ hlabel₂ => ?_⟩
  obtain hold₁ | ⟨hnew₁, rfl, _⟩ := label?_attach_cases h.toSound hlabel₁
  · obtain hold₂ | ⟨_, rfl, _⟩ := label?_attach_cases h.toSound hlabel₂
    · exact h.unique hold₁ hold₂
    · exact absurd hold₁ (hlacks h₁)
  · obtain hold₂ | ⟨hnew₂, _⟩ := label?_attach_cases h.toSound hlabel₂
    · exact absurd hold₂ (hlacks h₂)
    · exact Except.ok.inj (hnew₁.symm.trans hnew₂)

/-- How many components of kind `k` are attached to an entity. -/
def attachedCount (k : Kind) (w : World) (e : Entity) : Nat :=
  w.store.attached.countP fun (_, owner, c) => owner = e && c.kind = k

theorem Single.attachedCount_le (h : w.Single k) (e : Entity) : w.attachedCount k e ≤ 1 := by
  rw [attachedCount, List.countP_eq_length_filter, ← List.length_map (·.1)]
  have hnodup : ((w.store.attached.filter fun (_, owner, c) => owner = e && c.kind = k).map (·.1)).Nodup :=
    (List.filter_sublist.map _).nodup w.store.nodup_attached
  have hlabel : ∀ handle ∈ (w.store.attached.filter fun (_, owner, c) => owner = e && c.kind = k).map (·.1),
      w.label? handle = some (e, .attached, k) := by
    simp only [List.mem_map, List.mem_filter, Prod.exists]
    rintro _ ⟨handle, owner, c, ⟨hmem, hcond⟩, rfl⟩
    obtain ⟨rfl, rfl⟩ : owner = e ∧ c.kind = k := by simpa using hcond
    exact label?_eq_of_entry (Store.mem_attached.mp hmem)
  revert hnodup hlabel
  generalize (w.store.attached.filter fun (_, owner, c) => owner = e && c.kind = k).map (·.1) = handles
  intro hnodup hlabel
  match handles with
  | [] => simp
  | [_] => simp
  | h₁ :: h₂ :: rest =>
    have hsame := h.unique (hlabel h₁ (by simp)) (hlabel h₂ (by simp))
    simp [hsame] at hnodup

end Cadence.World
