import Cadence.Proofs.World.Holdings
import Cadence.World.Query

/-!
The errors of a world. A change or a question needs something of the world: an entity that is not gone yet, a live one,
a component behind a handle, or one of a certain kind. It is refused exactly when the world misses that, with the error
that says so, and a change that is refused leaves everything as it was.

Clearing looks up each entity again after those before it have been marked. Marking an entity is about its own slot
only, so the others are still found, and live.
-/

namespace Cadence.World

variable {w : World} {e : Entity} {k : Kind} {h : Handle} {err : WorldError}

/-! ### What an operation needs -/

inductive Need
  | nothing
  | entity (e : Entity)
  | liveEntity (e : Entity)
  | component (h : Handle)
  | componentOf (k : Kind) (h : Handle)

def Edit.need : Edit Entity Handle → Need
  | spawn _ | clear _ | flush | drain => .nothing
  | attach e _ => .liveEntity e
  | mark e | setPersistent e _ => .entity e
  | detach h => .component h
  | overwrite h c => .componentOf c.kind h
  | moveTo h _ _ | rotateTo h _ => .componentOf .transform h
  | setVelocity h _ _ => .componentOf .velocity h

def Query.need : Query Entity Handle → Need
  | isPersistent e | handlesOf e => .entity e
  | component h k => .componentOf k h
  | _ => .nothing

/-- Some slot has the id and the generation of the entity, and is in use. -/
def Occupied (w : World) (e : Entity) : Prop :=
  ∃ slot, w.slots[e.id]? = some slot ∧ slot.generation = e.generation ∧ slot.state.isSome

/-- The world misses what is needed, and this is the error that says so. -/
inductive Misses (w : World) : Need → WorldError → Prop
  | entity {e : Entity} (gone : ¬ w.Occupied e) : Misses w (.entity e) (.staleEntity e)
  | liveEntity {e : Entity} (gone : ¬ w.Occupied e) : Misses w (.liveEntity e) (.staleEntity e)
  | life {e : Entity} (pending : w.state? e = some .pending) : Misses w (.liveEntity e) (.entityNotLive e)
  | component {h : Handle} (absent : w.store.get? h = none) : Misses w (.component h) (.unknownComponent h)
  | componentOf {k : Kind} {h : Handle} (absent : w.store.get? h = none) :
      Misses w (.componentOf k h) (.unknownComponent h)
  | kind {k : Kind} {h : Handle} {c : Component} (found : w.store.get? h = some c) (other : c.kind ≠ k) :
      Misses w (.componentOf k h) (.kindMismatch h k)

theorem occupied_iff : w.Occupied e ↔ ∃ slot, w.slot? e = some slot := by
  simp [Occupied, slot?_eq_some_iff]

theorem not_occupied_iff : ¬ w.Occupied e ↔ w.slot? e = none := by
  rw [occupied_iff, ← Option.isSome_iff_exists, Option.not_isSome_iff_eq_none]

theorem not_misses_nothing : ¬ w.Misses .nothing err := nofun

theorem misses_entity_iff : w.Misses (.entity e) err ↔ w.slot? e = none ∧ err = .staleEntity e := by
  refine ⟨fun hmisses => ?_, ?_⟩
  · cases hmisses with
    | entity gone => exact ⟨not_occupied_iff.mp gone, rfl⟩
  · rintro ⟨hslot, rfl⟩
    exact .entity (not_occupied_iff.mpr hslot)

theorem misses_liveEntity_iff :
    w.Misses (.liveEntity e) err ↔
      w.state? e = none ∧ err = .staleEntity e ∨ w.state? e = some .pending ∧ err = .entityNotLive e := by
  refine ⟨fun hmisses => ?_, ?_⟩
  · cases hmisses with
    | liveEntity gone => exact .inl ⟨slot?_eq_none_iff.mp (not_occupied_iff.mp gone), rfl⟩
    | life pending => exact .inr ⟨pending, rfl⟩
  · rintro (⟨hstate, rfl⟩ | ⟨hstate, rfl⟩)
    · exact .liveEntity (not_occupied_iff.mpr (slot?_eq_none_iff.mpr hstate))
    · exact .life hstate

theorem misses_component_iff :
    w.Misses (.component h) err ↔ w.store.get? h = none ∧ err = .unknownComponent h := by
  refine ⟨fun hmisses => ?_, ?_⟩
  · cases hmisses with
    | component absent => exact ⟨absent, rfl⟩
  · rintro ⟨habsent, rfl⟩
    exact .component habsent

theorem misses_componentOf_iff :
    w.Misses (.componentOf k h) err ↔
      w.store.get? h = none ∧ err = .unknownComponent h ∨
        (∃ c, w.store.get? h = some c ∧ c.kind ≠ k) ∧ err = .kindMismatch h k := by
  refine ⟨fun hmisses => ?_, ?_⟩
  · cases hmisses with
    | componentOf absent => exact .inl ⟨absent, rfl⟩
    | kind found other => exact .inr ⟨⟨_, found, other⟩, rfl⟩
  · rintro (⟨habsent, rfl⟩ | ⟨⟨c, hfound, hother⟩, rfl⟩)
    · exact .componentOf habsent
    · exact .kind hfound hother

/-! ### Operations that are refused for what the world misses -/

/-- An operation on `w` fails for missing what it needs and for nothing else; if it fails, it changes nothing. -/
structure Guarded (w : World) (need : Need) {α : Type} (result : Except WorldError α × World) : Prop where
  error_iff : ∀ err, result.1 = .error err ↔ w.Misses need err
  unchanged : ∀ err, result.1 = .error err → result.2 = w

namespace Guarded

variable {α : Type} {need : Need}

theorem ok (a : α) (w' : World) (hmet : ∀ err, ¬ w.Misses need err) : w.Guarded need (.ok a, w') :=
  ⟨fun err => ⟨nofun, fun hmisses => absurd hmisses (hmet err)⟩, nofun⟩

theorem error (hmisses : ∀ err', w.Misses need err' ↔ err' = err) :
    w.Guarded need ((.error err, w) : Except WorldError α × World) :=
  ⟨fun err' => by simp [hmisses, eq_comm], fun _ _ => rfl⟩

theorem answered {result : Except WorldError α × World} (hguarded : w.Guarded need result) (f : α → Answer) :
    w.Guarded need (World.answered f result) := by
  obtain ⟨result, w'⟩ := result
  cases result with
  | error err' =>
    refine ⟨fun err => ?_, fun _ _ => hguarded.unchanged err' rfl⟩
    rw [← hguarded.error_iff]
    exact ⟨fun heq => by cases heq; rfl, fun heq => by cases heq; rfl⟩
  | ok a => exact .ok (f a) w' fun err' hmisses => nomatch (hguarded.error_iff err').mpr hmisses

end Guarded

theorem guarded_setPersistent (w : World) (e : Entity) (persistent : Bool) :
    w.Guarded (.entity e) (w.setPersistent e persistent) := by
  rw [setPersistent]
  cases hslot : w.slot? e with
  | none => exact .error fun err' => by simp [misses_entity_iff, hslot]
  | some slot => exact .ok _ _ fun err' => by simp [misses_entity_iff, hslot]

theorem guarded_attach (w : World) (e : Entity) (c : Component) : w.Guarded (.liveEntity e) (w.attach e c) := by
  rw [attach_eq]
  cases hstate : w.state? e with
  | none => exact .error fun err' => by simp [misses_liveEntity_iff, hstate]
  | some l =>
    cases l with
    | pending => exact .error fun err' => by simp [misses_liveEntity_iff, hstate]
    | live => exact .ok _ _ fun err' => by simp [misses_liveEntity_iff, hstate]

theorem guarded_detach (w : World) (h : Handle) : w.Guarded (.component h) (w.detach h) := by
  rw [detach_eq]
  cases hentry : w.store.entries.get? h with
  | none => exact .error fun err' => by simp [misses_component_iff, Store.get?, hentry]
  | some entry =>
    have hmet : ∀ err', ¬ w.Misses (.component h) err' := by simp [misses_component_iff, Store.get?, hentry]
    obtain ⟨owner, attachment, c⟩ := entry
    cases attachment with
    | attached => exact .ok _ _ hmet
    | detached => exact .ok _ _ hmet

theorem guarded_mark (w : World) (e : Entity) : w.Guarded (.entity e) (w.mark e) := by
  rw [mark_eq]
  cases hstate : w.state? e with
  | none => exact .error fun err' => by simp [misses_entity_iff, slot?_eq_none_iff, hstate]
  | some l =>
    have hmet : ∀ err', ¬ w.Misses (.entity e) err' := by simp [misses_entity_iff, slot?_eq_none_iff, hstate]
    cases l with
    | pending => exact .ok _ _ hmet
    | live => exact .ok _ _ hmet

theorem component_error_iff : w.component k h = .error err ↔ w.Misses (.componentOf k h) err := by
  rw [World.component, misses_componentOf_iff]
  cases hget : w.store.get? h with
  | none => simp [eq_comm]
  | some c =>
    cases hdata : c.as k with
    | none =>
      have hother := Component.as_eq_none_iff.mp hdata
      simpa [hdata, eq_comm] using fun _ => Ne.symm hother
    | some data =>
      have hsame : c.kind = k := by
        rw [Component.as_eq_some_iff.mp hdata]
      simp [hdata, hsame]

theorem guarded_modify (w : World) (k : Kind) (h : Handle) (f : k.Data → k.Data) :
    w.Guarded (.componentOf k h) (w.modify k h f) := by
  rw [modify]
  cases hfound : w.component k h with
  | error err =>
    refine .error fun err' => ?_
    rw [← component_error_iff, hfound, Except.error.injEq, eq_comm]
  | ok data =>
    refine .ok _ _ fun err' => ?_
    simp [← component_error_iff, hfound]

theorem ask_error_iff (w : World) (query : Query Entity Handle) :
    w.ask query = .error err ↔ w.Misses query.need err := by
  have hmap : ∀ {α : Type} (f : α → Answer) (r : Except WorldError α), r.map f = .error err ↔ r = .error err := by
    intro α f r
    cases r <;> simp [Except.map]
  cases query with
  | isPersistent e =>
    rw [ask, hmap, isPersistent, Query.need, misses_entity_iff]
    cases w.slot? e <;> simp [eq_comm]
  | handlesOf e =>
    rw [ask, hmap, handlesOf, Query.need, misses_entity_iff]
    cases w.slot? e <;> simp [eq_comm]
  | component h k => rw [ask, hmap, component_error_iff, Query.need]
  | _ => exact iff_of_false (by simp [ask]) not_misses_nothing

/-! ### Clearing -/

theorem pending_mark (hlive : w.state? e = some .live) : (w.mark e).2.pending = w.pending.push e := by
  rw [mark_of_live hlive, foldl_unroute]
  rfl

theorem state?_mark (hlive : w.state? e = some .live) (e' : Entity) :
    (w.mark e).2.state? e' = if e' = e then some .pending else w.state? e' := by
  obtain ⟨slot, hslot, _⟩ := slot?_of_state? hlive
  split
  · subst e'
    rw [state?, slot?_mark hlive hslot]
    rfl
  · rename_i hne
    rw [state?, state?, slot?_of_modify_of_ne hslot hne (slots_mark hlive) fun _ => rfl]

/-- Marks entities one after the other, whatever the world answers. -/
def markEach (w : World) (es : List Entity) : World := es.foldl (fun w e => (w.mark e).2) w

theorem markEach_cons (w : World) (e : Entity) (es : List Entity) :
    w.markEach (e :: es) = (w.mark e).2.markEach es := rfl

/-- Those that come later are live still when their turn comes. -/
theorem live_after_mark {es : List Entity} (hnodup : (e :: es).Nodup)
    (hlive : ∀ e' ∈ e :: es, w.state? e' = some .live) : ∀ e' ∈ es, (w.mark e).2.state? e' = some .live := by
  intro e' hmem
  have hne : e' ≠ e := by
    rintro rfl
    exact (List.nodup_cons.mp hnodup).1 hmem
  rw [state?_mark (hlive e List.mem_cons_self), if_neg hne, hlive e' (List.mem_cons_of_mem _ hmem)]

theorem markAll_of_live {es : List Entity} (hnodup : es.Nodup) (hlive : ∀ e ∈ es, w.state? e = some .live)
    (count : Nat) : w.markAll count es = (.ok (count + es.length), w.markEach es) := by
  induction es generalizing w count with
  | nil => rfl
  | cons e rest ih =>
    have hfirst : (w.mark e).1 = .ok true := by rw [mark_of_live (hlive e List.mem_cons_self)]
    have hrest := ih hnodup.of_cons (live_after_mark hnodup hlive) (count + 1)
    rcases hresult : w.mark e with ⟨_ | marked, w'⟩
    all_goals rw [hresult] at hfirst hrest
    · cases hfirst
    · cases hfirst
      rw [markAll, hresult, markEach_cons, hresult, List.length_cons, ← Nat.add_assoc, Nat.add_right_comm]
      exact hrest

theorem pending_markEach {es : List Entity} (hnodup : es.Nodup) (hlive : ∀ e ∈ es, w.state? e = some .live) :
    (w.markEach es).pending.toList = w.pending.toList ++ es := by
  induction es generalizing w with
  | nil => exact (List.append_nil _).symm
  | cons e rest ih =>
    rw [markEach_cons, ih hnodup.of_cons (live_after_mark hnodup hlive), pending_mark (hlive e List.mem_cons_self)]
    simp

theorem state?_markEach {es : List Entity} (hnodup : es.Nodup) (hlive : ∀ e ∈ es, w.state? e = some .live)
    (e' : Entity) : (w.markEach es).state? e' = if e' ∈ es then some .pending else w.state? e' := by
  induction es generalizing w with
  | nil => simp [markEach]
  | cons e rest ih =>
    rw [markEach_cons, ih hnodup.of_cons (live_after_mark hnodup hlive), state?_mark (hlive e List.mem_cons_self)]
    by_cases hmem : e' ∈ rest <;> by_cases heq : e' = e <;> simp [hmem, heq]

/-- The entities that clearing marks. -/
def doomed (w : World) (persistentToo : Bool) : List Entity :=
  w.liveEntities.filter fun e => persistentToo || !(w.slots[e.id]?.any (·.persistent))

theorem pairwise_doomed (w : World) (persistentToo : Bool) : (w.doomed persistentToo).Pairwise (·.id < ·.id) :=
  (pairwise_liveEntities w).filter _

theorem nodup_doomed (w : World) (persistentToo : Bool) : (w.doomed persistentToo).Nodup :=
  (pairwise_doomed w persistentToo).imp fun hlt heq => Nat.ne_of_lt hlt (congrArg Entity.id heq)

theorem mem_doomed {persistentToo : Bool} :
    e ∈ w.doomed persistentToo ↔
      w.state? e = some .live ∧ (persistentToo = true ∨ w.isPersistent e = .ok false) := by
  rw [doomed, List.mem_filter, mem_liveEntities, and_congr_right_iff]
  intro hlive
  obtain ⟨slot, hslot, _⟩ := slot?_of_state? hlive
  rw [World.isPersistent, hslot, (slot?_eq_some_iff.mp hslot).1]
  simp

theorem live_of_mem_doomed {persistentToo : Bool} : ∀ e ∈ w.doomed persistentToo, w.state? e = some .live :=
  fun _ hmem => (mem_doomed.mp hmem).1

theorem clear_eq (w : World) (persistentToo : Bool) :
    w.clear persistentToo = (.ok (w.doomed persistentToo).length, w.markEach (w.doomed persistentToo)) := by
  have hall := markAll_of_live (nodup_doomed w persistentToo) live_of_mem_doomed 0
  rw [Nat.zero_add] at hall
  exact hall

theorem guarded_perform (w : World) (edit : Edit Entity Handle) : w.Guarded edit.need (w.perform edit) := by
  cases edit with
  | spawn persistent => exact .ok _ _ fun _ => not_misses_nothing
  | attach e c => exact (guarded_attach w e c).answered _
  | detach h => exact (guarded_detach w h).answered _
  | mark e => exact (guarded_mark w e).answered _
  | clear persistentToo =>
    rw [perform, clear_eq]
    exact .ok _ _ fun _ => not_misses_nothing
  | flush => exact .ok _ _ fun _ => not_misses_nothing
  | setPersistent e persistent => exact (guarded_setPersistent w e persistent).answered _
  | drain => exact .ok _ _ fun _ => not_misses_nothing
  | overwrite h c => exact (guarded_modify ..).answered _
  | moveTo h x y => exact (guarded_modify ..).answered _
  | rotateTo h rotation => exact (guarded_modify ..).answered _
  | setVelocity h dx dy => exact (guarded_modify ..).answered _

/-- The errors of a world are exact: a change and a question are answered with an error exactly when the world misses
what they need, and a change that is refused leaves the world as it is. Clearing is never refused; it marks the live
entities that are selected, in the order of their ids, answers how many they are and leaves the state of the others.
And an entity that is found live is found again on the way: marking it and attaching to it succeed. -/
theorem errors_are_exact (w : World) :
    (∀ edit err, (w.perform edit).1 = .error err ↔ w.Misses edit.need err) ∧
    (∀ query err, w.ask query = .error err ↔ w.Misses query.need err) ∧
    (∀ edit err, (w.perform edit).1 = .error err → (w.perform edit).2 = w) ∧
    (∀ persistentToo, ∃ es : List Entity,
      es.Pairwise (·.id < ·.id) ∧
      (∀ e, e ∈ es ↔ w.state? e = some .live ∧ (persistentToo = true ∨ w.isPersistent e = .ok false)) ∧
      w.perform (.clear persistentToo) = (.ok (.count es.length), w.markEach es) ∧
      (w.markEach es).pending.toList = w.pending.toList ++ es ∧
      ∀ e, (w.markEach es).state? e = if e ∈ es then some .pending else w.state? e) ∧
    ∀ e, w.state? e = some .live → (w.mark e).1 = .ok true ∧ ∀ c, ∃ h, (w.attach e c).1 = .ok h := by
  refine ⟨fun edit => (guarded_perform w edit).error_iff, fun query _ => ask_error_iff w query,
    fun edit => (guarded_perform w edit).unchanged, fun persistentToo => ?_, fun e hlive => ?_⟩
  · have hnodup := nodup_doomed w persistentToo
    refine ⟨w.doomed persistentToo, pairwise_doomed w persistentToo, fun _ => mem_doomed, ?_,
      pending_markEach hnodup live_of_mem_doomed, state?_markEach hnodup live_of_mem_doomed⟩
    rw [perform, clear_eq]
    rfl
  · refine ⟨by rw [mark_of_live hlive], fun c => ⟨(w.store.insert e c).1, ?_⟩⟩
    rw [attach_of_live hlive]

end Cadence.World
