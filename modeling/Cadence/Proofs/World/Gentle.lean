import Cadence.Proofs.World.Retention
import Cadence.Proofs.World.Routable

/-!
Changes that leave the names of scripts alone. A script that a system may know of is attached, or was detached and
the systems are still to be told; unless such a script is overwritten in place, it bears the same name when its
detachment is routed as it bore when its attachment was.
-/

namespace Cadence

namespace World

/-- The name of the script behind a handle. -/
def scriptName? (w : World) (h : Handle) : Option String := (w.store.getAs? .script h).map (·.name)

/-- The script behind a handle is attached, or it has been detached and the systems are still to be told. -/
def InPlay (w : World) (h : Handle) : Prop :=
  (w.attachedOwner? (· == .script) h).isSome ∨ ∃ owner, .detached h owner ∈ w.events.toList

/-- A change that is routed and overwrites no script in play. -/
def Spares (w : World) (edit : Edit Entity Handle) : Prop :=
  edit.IsRouted ∧ ∀ h script, edit = .overwrite h ⟨.script, script⟩ → ¬ w.InPlay h

/-- `w'` comes from `w` by changes each of which is allowed in the world that it is made in. -/
inductive Stepwise (allowed : World → Edit Entity Handle → Prop) : World → World → Prop
  | refl (w : World) : Stepwise allowed w w
  | step {w w' : World} {edit : Edit Entity Handle} (hedit : allowed w edit)
      (hrest : Stepwise allowed (w.perform edit).2 w') : Stepwise allowed w w'

/-- `w'` comes from `w` by changes that are routed and overwrite no script in play. -/
abbrev Gently : World → World → Prop := Stepwise Spares

end World

namespace Catalog

/-- An index loses a component only when it hears that the component was detached. -/
theorem eq_detached_of_hear {w : World} {k : Catalog} (hk : k.index.Sound) {event : Event} {h : Handle}
    (hsome : (k.index.owner? h).isSome) (hnone : (k.hear w event).index.owner? h = none) :
    ∃ owner, event = .detached h owner := by
  rw [hear] at hnone
  split at hnone
  · simp [hnone] at hsome
  rename_i kind _
  cases event with
  | attached h' owner =>
    rw [owner?_note_attached hk] at hnone
    split at hnone
    · rename_i hcond
      simp [← hcond.2] at hnone
    · simp [hnone] at hsome
  | detached h' owner =>
    rw [owner?_note_detached hk] at hnone
    split at hnone
    · rename_i hcond
      exact ⟨owner, by rw [hcond.2]⟩
    · simp [hnone] at hsome

theorem mem_detached_of_replay {w : World} {k : Catalog} (hk : k.index.Sound) {events : List Event} {h : Handle}
    (hsome : (k.index.owner? h).isSome) (hnone : (k.replay w events).index.owner? h = none) :
    ∃ owner, .detached h owner ∈ events := by
  induction events generalizing k with
  | nil => simp [show k.index.owner? h = none from hnone] at hsome
  | cons event rest ih =>
    cases hheard : (k.hear w event).index.owner? h with
    | none =>
      obtain ⟨owner, rfl⟩ := eq_detached_of_hear hk hsome hheard
      exact ⟨owner, by simp⟩
    | some _ =>
      obtain ⟨owner, hmem⟩ := ih (sound_hear hk event) (by simp [hheard]) hnone
      exact ⟨owner, by simp [hmem]⟩

/-- Every script that an index of scripts has is in play. -/
theorem Tracks.inPlay {k : Catalog} {w : World} (hk : k.Tracks w) (haccepts : k.accepts = (· == .script)) {h : Handle}
    (hsome : (k.index.owner? h).isSome) : w.InPlay h := by
  cases hnone : (k.replay w w.events.toList).index.owner? h with
  | none => exact .inr (mem_detached_of_replay hk.sound hsome hnone)
  | some _ =>
    have howner := hk.lists.owner?_eq h
    rw [accepts_replay, haccepts] at howner
    exact .inl (by rw [← howner, hnone]; rfl)

end Catalog

namespace World

variable {w w' w'' : World}

theorem InPlay.kind?_isSome (hw : w.Routable) {h : Handle} (hplay : w.InPlay h) : (w.kind? h).isSome := by
  obtain hattached | ⟨owner, hmem⟩ := hplay
  · obtain ⟨e, he⟩ := Option.isSome_iff_exists.mp hattached
    obtain ⟨c, hentry, _⟩ := attachedOwner?_eq_some_iff.mp he
    rw [kind?, label?_eq_of_entry hentry]
    rfl
  · exact hw.stored _ hmem

/-! ### One change -/

theorem modify_of_kind_ne {k : Kind} {h : Handle} {c : Component} (hget : w.store.get? h = some c) (hne : c.kind ≠ k)
    (f : k.Data → k.Data) : (w.modify k h f).2 = w := by
  rw [modify, component, hget]
  dsimp only
  rw [Component.as_eq_none_iff.mpr hne]

/-- A change that spares the scripts in play writes to no such script. -/
theorem Spares.perform_eq {edit : Edit Entity Handle} (hedit : w.Spares edit) {h : Handle} (hplay : w.InPlay h)
    (htarget : edit.target? = some h) {c : Component} (hget : w.store.get? h = some c) (hc : c.kind = .script) :
    (w.perform edit).2 = w := by
  have hother : ∀ (k : Kind) (f : k.Data → k.Data), k ≠ .script → (w.modify k h f).2 = w := fun k f hne =>
    modify_of_kind_ne hget (by rw [hc]; exact hne.symm) f
  cases edit with
  | overwrite h' c' =>
    cases htarget
    refine hother c'.kind (fun _ => c'.data) fun hkind => ?_
    obtain ⟨kind, script⟩ := c'
    subst hkind
    exact hedit.2 h script rfl hplay
  | moveTo h' x y =>
    cases htarget
    exact hother .transform (·.moveTo x y) (by decide)
  | rotateTo h' rotation =>
    cases htarget
    exact hother .transform (·.rotateTo rotation) (by decide)
  | setVelocity h' dx dy =>
    cases htarget
    exact hother .velocity (fun _ => ⟨dx, dy⟩) (by decide)
  | _ => cases htarget

theorem Spares.scriptName?_eq (hw : w.Routable) {edit : Edit Entity Handle} (hedit : w.Spares edit) {h : Handle}
    (hplay : w.InPlay h) : (w.perform edit).2.scriptName? h = w.scriptName? h := by
  have hflush : edit ≠ .flush := by
    rintro rfl
    exact hedit.1
  obtain ⟨kind, hkind⟩ := Option.isSome_iff_exists.mp (hplay.kind?_isSome hw)
  rw [kind?_eq_map] at hkind
  obtain ⟨c, hget, rfl⟩ := Option.map_eq_some_iff.mp hkind
  obtain ⟨c', hget', _, hsame, hdata⟩ := (retains_perform hw.toSound hflush).resolves.components h c hget
  by_cases hc : c.kind = .script
  · by_cases htarget : edit.target? = some h
    · rw [hedit.perform_eq hplay htarget hget hc]
    · have hc' : c' = c := hdata (by simpa [eq_comm] using htarget)
      rw [scriptName?, scriptName?, Store.getAs?, Store.getAs?, hget, hget', hc']
  · rw [scriptName?, scriptName?, Store.getAs?, Store.getAs?, hget, hget']
    simp [Component.as_eq_none_iff.mpr hc, Component.as_eq_none_iff.mpr (hsame.symm ▸ hc)]

/-- A flush leaves the names of the scripts that are attached. -/
theorem scriptName?_flush (hw : w.Sound) {accepts : Kind → Bool} {h : Handle}
    (hattached : (w.attachedOwner? accepts h).isSome) : w.flush.2.scriptName? h = w.scriptName? h := by
  obtain ⟨e, he⟩ := Option.isSome_iff_exists.mp hattached
  obtain ⟨c, hentry, _⟩ := attachedOwner?_eq_some_iff.mp he
  have hsame : w.flush.2.store.entries.get? h = w.store.entries.get? h := by
    simp [get?_entries_flush hw, hentry, Option.filter_some]
  rw [scriptName?, scriptName?, Store.getAs?, Store.getAs?, Store.get?, Store.get?, hsame]

/-! ### Changes one after the other -/

theorem Stepwise.trans {allowed : World → Edit Entity Handle → Prop} (h : w.Stepwise allowed w')
    (h' : w'.Stepwise allowed w'') : w.Stepwise allowed w'' := by
  induction h with
  | refl w => exact h'
  | step hedit _ ih => exact .step hedit (ih h')

theorem Stepwise.perform {allowed : World → Edit Entity Handle → Prop} {edit : Edit Entity Handle}
    (hedit : allowed w edit) : w.Stepwise allowed (w.perform edit).2 := .step hedit (.refl _)

theorem Gently.edited (h : w.Gently w') : w.Edited w' := by
  induction h with
  | refl w => exact .refl w
  | step hedit _ ih => exact (Edited.perform _ _ hedit.1).trans ih

end World

namespace Catalog

open World in
/-- The scripts that an index has bear their names through gentle changes. -/
theorem Tracks.scriptName?_eq {k : Catalog} {w w' : World} (hw : w.Routable) (hk : k.Tracks w)
    (haccepts : k.accepts = (· == .script)) (hgently : w.Gently w') {h : Handle} (hsome : (k.index.owner? h).isSome) :
    w'.scriptName? h = w.scriptName? h := by
  induction hgently with
  | refl w => rfl
  | @step w _ edit hedit _ ih =>
    have hedited : w.Edited (w.perform edit).2 := .perform w edit hedit.1
    rw [ih (hw.edited hedited) (hk.edited hw hedited)]
    exact hedit.scriptName?_eq hw (hk.inPlay haccepts hsome)

end Catalog

end Cadence
