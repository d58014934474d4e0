import Cadence.Proofs.World.Departure
import Cadence.Proofs.World.Flush
import Cadence.Proofs.World.Issue
import Mathlib.Algebra.GroupWithZero.Nat

/-!
The balance of a run. Every entity that was spawned is live, or waits to be freed, or has been freed once; every
component that was attached is stored, or has been released once; and the flushes report what they have freed and
released.
-/

namespace Cadence

/-! ### What is stored -/

namespace Store

/-- The one store holds as many components as the other, and counts them as well. -/
structure SameStock (s s' : Store) : Prop where
  size : s'.size = s.size
  sized : s.entries.Sized → s'.entries.Sized

theorem SameStock.refl (s : Store) : SameStock s s := ⟨rfl, id⟩

theorem SameStock.trans {s s' s'' : Store} (h : SameStock s s') (h' : SameStock s' s'') : SameStock s s'' :=
  ⟨h'.size.trans h.size, h'.sized ∘ h.sized⟩

theorem sameStock_set (s : Store) (h : Handle) (c : Component) : SameStock s (s.set h c) :=
  ⟨rfl, fun hs => hs.modify ..⟩

theorem sameStock_detach (s : Store) (h : Handle) : SameStock s (s.detach h).2 := by
  rw [detach]
  split
  · exact ⟨rfl, fun hs => hs.modify ..⟩
  · exact .refl s

/-- Takes one component out, and counts it if it was there. -/
def release (state : Nat × Arena Entry) (h : Handle) : Nat × Arena Entry :=
  match state.2.remove h with
  | (some _, entries) => (state.1 + 1, entries)
  | (none, entries) => (state.1, entries)

/-- What is taken out is counted once. -/
theorem sized_release {state : Nat × Arena Entry} (hs : state.2.Sized) (h : Handle) :
    (release state h).2.Sized ∧ (release state h).1 + (release state h).2.size = state.1 + state.2.size := by
  obtain ⟨count, entries⟩ := state
  cases hx : entries.get? h with
  | none =>
    have hrelease : release (count, entries) h = (count, entries) := by simp [release, Arena.remove, hx]
    rw [hrelease]
    exact ⟨hs, rfl⟩
  | some entry =>
    obtain ⟨hsized, hsize⟩ := Arena.Sized.remove (a := entries) hs hx
    have hrelease : release (count, entries) h = (count + 1, (entries.remove h).2) := by
      simp [release, Arena.remove, hx]
    rw [hrelease]
    dsimp only
    exact ⟨hsized, by omega⟩

theorem sized_releases (state : Nat × Arena Entry) (hs : state.2.Sized) (handles : List Handle) :
    (handles.foldl release state).2.Sized ∧
      (handles.foldl release state).1 + (handles.foldl release state).2.size = state.1 + state.2.size := by
  induction handles generalizing state with
  | nil => exact ⟨hs, rfl⟩
  | cons h rest ih =>
    obtain ⟨hsized, hsum⟩ := sized_release hs h
    rw [List.foldl_cons, ← hsum]
    exact ih _ hsized

/-- What is released is no longer stored. -/
theorem sized_releaseScheduled {s : Store} (hs : s.entries.Sized) :
    s.releaseScheduled.2.entries.Sized ∧ s.releaseScheduled.1 + s.releaseScheduled.2.size = s.size := by
  have hreleases := sized_releases (0, s.entries) hs s.releases.toList
  rwa [Nat.zero_add, ← Store.size] at hreleases

end Store

namespace World

variable {w : World}

/-- How many detached components are stored. -/
def detachedCount (w : World) : Nat := w.store.entries.toList.countP (·.2.attachment = .detached)

/-- A flush leaves the attached components. -/
theorem toList_flush (hw : w.Sound) :
    w.flush.2.store.entries.toList.Perm (w.store.entries.toList.filter (·.2.attachment = .attached)) := by
  refine Arena.toList_perm ((List.filter_sublist.map _).nodup (Arena.nodup_toList _)) fun h entry => ?_
  rw [List.mem_filter, Arena.mem_toList, get?_entries_flush hw, Option.filter_eq_some_iff]

theorem sized_flush (hw : w.Sound) (hsized : w.store.entries.Sized) :
    w.flush.2.store.entries.Sized ∧ w.flush.1.components + w.flush.2.store.size = w.store.size ∧
      w.flush.1.components = w.detachedCount := by
  have hfreed : w.freed.store.entries.Sized := by rwa [entries_freed]
  have hsame : w.freed.store.size = w.store.size := congrArg Arena.size (entries_freed w)
  obtain ⟨hleft, hsum⟩ : w.flush.2.store.entries.Sized ∧
      w.flush.1.components + w.flush.2.store.size = w.freed.store.size := Store.sized_releaseScheduled hfreed
  rw [hsame] at hsum
  refine ⟨hleft, hsum, ?_⟩
  have hattached : w.flush.2.store.size = w.store.entries.toList.countP (·.2.attachment = .attached) := by
    rw [Store.size, hleft, (toList_flush hw).length_eq, List.countP_eq_length_filter]
  have hstored : w.store.size = w.store.entries.toList.countP (·.2.attachment = .attached) + w.detachedCount := by
    rw [Store.size, hsized, List.length_eq_countP_add_countP (·.2.attachment = .attached)]
    congr 1
    refine List.countP_congr fun p _ => ?_
    cases p.2.attachment <;> simp
  omega

/-! ### Who is there -/

/-- The entities that are live and those that wait to be freed. -/
def population (w : World) : Nat := w.liveCount + w.pending.size

theorem foldl_free_of_sound {es : List Entity} (hw : { w with pending := es.toArray }.Sound) (count : Nat) :
    (es.foldl free (count, w)).1 = count + es.length ∧ (es.foldl free (count, w)).2.liveCount = w.liveCount := by
  induction es generalizing w count with
  | nil => exact ⟨rfl, rfl⟩
  | cons e rest ih =>
    have hpending : w.state? e = some .pending := (hw.mem_pending e).mp (by simp)
    rw [List.foldl_cons, free_of_pending hpending]
    obtain ⟨hcount, hlive⟩ := ih (sound_withFreed hw) (count + 1)
    rw [List.length_cons]
    exact ⟨by omega, hlive⟩

/-- Everybody who waits is freed. -/
theorem population_flush (hw : w.Sound) :
    w.flush.1.entities = w.pending.size ∧ w.flush.2.pending = #[] ∧ w.flush.2.population = w.liveCount := by
  have hpop : { { w with pending := #[] } with pending := w.pending.toList.toArray }.Sound := by simpa using hw
  obtain ⟨hcount, hlive⟩ := foldl_free_of_sound hpop 0
  have hpending : w.flush.2.pending = #[] := pending_foldl_free ..
  have hentities : w.flush.1.entities = 0 + w.pending.toList.length := hcount
  refine ⟨?_, hpending, ?_⟩
  · simpa using hentities
  · rw [population, hpending]
    exact hlive

theorem population_mark (hw : w.Sound) (e : Entity) : (w.mark e).2.population = w.population := by
  rw [mark_eq]
  split
  · rfl
  · rfl
  rename_i hlive
  obtain ⟨slot, hslot, _, hstate⟩ := state?_eq_some_iff.mp hlive
  have hpositive : 0 < w.liveCount := by
    rw [hw.liveCount_eq, Array.countP_pos_iff]
    exact ⟨slot, Array.mem_of_getElem? hslot, by simp [hstate]⟩
  rw [foldl_unroute]
  simp only [population, withPending, Array.size_push]
  omega

theorem population_modify (w : World) (k : Kind) (h : Handle) (f : k.Data → k.Data) :
    (w.modify k h f).2.population = w.population := by
  rw [modify]
  split <;> rfl

/-! ### One change -/

/-- How many entities a change spawns. -/
def spawnedBy : Edit Entity Handle → Nat
  | .spawn _ => 1
  | _ => 0

/-- What a flush reports; other changes report nothing. -/
def reportedBy : Except WorldError Answer → List Flushed
  | .ok (.flushed report) => [report]
  | _ => []

theorem reportedBy_answered {α : Type} {f : α → Answer} (hf : ∀ a, reportedBy (.ok (f a)) = [])
    (r : Except WorldError α × World) : reportedBy (answered f r).1 = [] := by
  obtain ⟨_ | a, _⟩ := r
  · rfl
  · exact hf a

theorem reportedBy_perform (w : World) {edit : Edit Entity Handle} (hedit : edit ≠ .flush) :
    reportedBy (w.perform edit).1 = [] := by
  cases edit with
  | spawn _ => rfl
  | flush => exact absurd rfl hedit
  | drain => rfl
  | attach _ _ | detach _ | mark _ | clear _ | setPersistent _ _ | overwrite _ _ | moveTo _ _ _ | rotateTo _ _
  | setVelocity _ _ _ => exact reportedBy_answered (fun _ => rfl) _

/-- Short of a flush, nobody goes who is there. -/
theorem population_of_ne_flush (hw : w.Sound) {edit : Edit Entity Handle} (hedit : edit ≠ .flush) :
    (w.perform edit).2.population = w.population + spawnedBy edit := by
  cases edit with
  | spawn persistent =>
    simp only [perform, spawn]
    split <;> simp [population, spawnedBy, modifySlot] <;> omega
  | attach e c =>
    rw [perform, answered, attach_eq]
    split <;> rfl
  | detach h =>
    rw [perform, answered, detach_eq]
    split <;> rfl
  | mark e => exact population_mark hw e
  | clear persistentToo =>
    have hmarked : (w.clear persistentToo).2.Sound ∧ (w.clear persistentToo).2.population = w.population :=
      markAll_preserves (I := fun w' => w'.Sound ∧ w'.population = w.population)
        (fun w' e h => ⟨sound_mark h.1 e, (population_mark h.1 e).trans h.2⟩) ⟨hw, rfl⟩ _ _
    exact hmarked.2
  | flush => exact absurd rfl hedit
  | setPersistent e persistent =>
    rw [perform, answered, setPersistent]
    split <;> rfl
  | drain => rfl
  | overwrite h c => exact population_modify ..
  | moveTo h x y => exact population_modify ..
  | rotateTo h rotation => exact population_modify ..
  | setVelocity h dx dy => exact population_modify ..

/-- Everybody who is there after a change or has been freed by it was there before or has been spawned. -/
theorem population_perform (hw : w.Sound) (edit : Edit Entity Handle) :
    (w.perform edit).2.population + ((reportedBy (w.perform edit).1).map (·.entities)).sum =
      w.population + spawnedBy edit := by
  by_cases hedit : edit = .flush
  · subst hedit
    obtain ⟨hentities, _, hpopulation⟩ := population_flush hw
    simp only [perform, reportedBy, spawnedBy, List.map_cons, List.map_nil, List.sum_cons, List.sum_nil, hpopulation,
      hentities]
    rfl
  · rw [reportedBy_perform w hedit, population_of_ne_flush hw hedit]
    rfl

theorem sameStock_mark (w : World) (e : Entity) : Store.SameStock w.store (w.mark e).2.store := by
  have hdetached (hs : List Handle) (s : Store) :
      Store.SameStock s (hs.foldl (fun store h => (store.detach h).2) s) := by
    induction hs generalizing s with
    | nil => exact .refl s
    | cons h rest ih => exact (Store.sameStock_detach s h).trans (ih _)
  rw [mark_eq]
  split
  · exact .refl _
  · exact .refl _
  · rw [foldl_unroute]
    exact hdetached _ _

theorem sameStock_modify (w : World) (k : Kind) (h : Handle) (f : k.Data → k.Data) :
    Store.SameStock w.store (w.modify k h f).2.store := by
  rw [modify]
  split
  · exact .refl _
  · exact Store.sameStock_set ..

/-- Nothing but an attachment and a flush changes how much is stored. -/
theorem sameStock_perform (w : World) {edit : Edit Entity Handle} (hattach : ∀ e c, edit ≠ .attach e c)
    (hflush : edit ≠ .flush) : Store.SameStock w.store (w.perform edit).2.store := by
  cases edit with
  | spawn persistent =>
    simp only [perform, spawn]
    split <;> exact .refl _
  | attach e c => exact absurd rfl (hattach e c)
  | detach h =>
    rw [perform, answered, detach_eq]
    split
    · exact .refl _
    · exact ⟨(Store.sameStock_detach w.store h).size, (Store.sameStock_detach w.store h).sized⟩
    · exact .refl _
  | mark e => exact sameStock_mark w e
  | clear persistentToo =>
    exact markAll_preserves (I := fun w' => Store.SameStock w.store w'.store)
      (fun w' e h => h.trans (sameStock_mark w' e)) (.refl _) _ _
  | flush => exact absurd rfl hflush
  | setPersistent e persistent =>
    rw [perform, answered, setPersistent]
    split <;> exact .refl _
  | drain => exact .refl _
  | overwrite h c => exact sameStock_modify ..
  | moveTo h x y => exact sameStock_modify ..
  | rotateTo h rotation => exact sameStock_modify ..
  | setVelocity h dx dy => exact sameStock_modify ..

/-- Every component that is stored after a change or has been released by it was stored before or has been attached. -/
theorem size_perform (hw : w.Sound) (hsized : w.store.entries.Sized) (edit : Edit Entity Handle) :
    (w.perform edit).2.store.entries.Sized ∧
      (w.perform edit).2.store.size + ((reportedBy (w.perform edit).1).map (·.components)).sum =
        w.store.size + (attachedBy edit (w.perform edit).1).length := by
  by_cases hedit : edit = .flush
  · subst hedit
    obtain ⟨hleft, hsum, _⟩ := sized_flush hw hsized
    refine ⟨hleft, ?_⟩
    simp only [perform, reportedBy, attachedBy, List.map_cons, List.map_nil, List.sum_cons, List.sum_nil,
      List.length_nil]
    omega
  rw [reportedBy_perform w hedit]
  by_cases hattach : ∃ e c, edit = .attach e c
  · obtain ⟨e, c, rfl⟩ := hattach
    rw [perform, answered, attach_eq]
    split
    · exact ⟨hsized, rfl⟩
    · exact ⟨hsized, rfl⟩
    · exact hsized.insert hw.entries _
  · have hnot : ∀ e c, edit ≠ .attach e c := fun e c heq => hattach ⟨e, c, heq⟩
    have hsame := sameStock_perform w hnot hedit
    have hnone : attachedBy edit (w.perform edit).1 = [] := by
      cases edit with
      | attach e c => exact absurd rfl (hnot e c)
      | _ => rfl
    rw [hnone]
    exact ⟨hsame.sized hsized, hsame.size⟩

/-! ### Runs -/

/-- How many entities the changes spawn. -/
def spawns (edits : List (Edit Entity Handle)) : Nat := (edits.map spawnedBy).sum

/-- What the flushes among the changes report, one after the other. -/
def reports (w : World) : List (Edit Entity Handle) → List Flushed
  | [] => []
  | edit :: rest => reportedBy (w.perform edit).1 ++ reports (w.perform edit).2 rest

theorem population_run (hw : w.Sound) (edits : List (Edit Entity Handle)) :
    (w.run edits).population + ((w.reports edits).map (·.entities)).sum = w.population + spawns edits := by
  induction edits generalizing w with
  | nil => rfl
  | cons edit rest ih =>
    have hfirst := population_perform hw edit
    have hrest := ih (sound_perform hw edit)
    simp only [reports, spawns, List.map_append, List.sum_append, List.map_cons, List.sum_cons] at hrest ⊢
    have hrun : w.run (edit :: rest) = (w.perform edit).2.run rest := rfl
    rw [hrun]
    omega

theorem size_run (hw : w.Sound) (hsized : w.store.entries.Sized) (edits : List (Edit Entity Handle)) :
    (w.run edits).store.entries.Sized ∧
      (w.run edits).store.size + ((w.reports edits).map (·.components)).sum =
        w.store.size + (w.attachments edits).length := by
  induction edits generalizing w with
  | nil => exact ⟨hsized, rfl⟩
  | cons edit rest ih =>
    obtain ⟨hnext, hfirst⟩ := size_perform hw hsized edit
    obtain ⟨hlast, hrest⟩ := ih (sound_perform hw edit) hnext
    simp only [reports, attachments, List.map_append, List.sum_append, List.length_append] at hrest ⊢
    have hrun : w.run (edit :: rest) = (w.perform edit).2.run rest := rfl
    rw [hrun]
    exact ⟨hlast, by omega⟩

/-- Nothing is lost and nothing goes twice. In every run from the empty world, as many entities have been spawned as are
live, wait to be freed, or have been freed by the reports of the flushes, and as many components have been attached as
are stored or have been released by these reports. A flush reports all who wait and all detached components there are;
it leaves neither, and every component that is still stored is attached to a live entity. -/
theorem run_empty_balances (edits : List (Edit Entity Handle)) :
    let w := run empty edits
    spawns edits = w.liveCount + w.pending.size + ((empty.reports edits).map (·.entities)).sum ∧
    (empty.attachments edits).length = w.store.size + ((empty.reports edits).map (·.components)).sum ∧
    w.flush.1 = ⟨w.pending.size, w.detachedCount⟩ ∧
    w.flush.2.pending.size = 0 ∧ w.flush.2.store.releases.size = 0 ∧
    ∀ h entry, w.flush.2.store.entries.get? h = some entry →
      entry.attachment = .attached ∧ w.flush.2.state? entry.owner = some .live := by
  intro w
  have hw : w.Sound := sound_run sound_empty edits
  obtain ⟨hsized, hsize⟩ := size_run sound_empty (show empty.store.entries.Sized from rfl) edits
  have hpopulation := population_run sound_empty edits
  obtain ⟨hentities, hpending, _⟩ := population_flush hw
  obtain ⟨_, _, hcomponents⟩ := sized_flush hw hsized
  have hflushed : w.flush.1 = ⟨w.flush.1.entities, w.flush.1.components⟩ := rfl
  refine ⟨?_, ?_, by rw [hflushed, hentities, hcomponents], by rw [hpending]; rfl, ?_, fun h entry hentry => ?_⟩
  · have hnobody : population empty = 0 := rfl
    rw [hnobody, Nat.zero_add] at hpopulation
    exact hpopulation.symm
  · have hnothing : empty.store.size = 0 := rfl
    rw [hnothing, Nat.zero_add] at hsize
    exact hsize.symm
  · have hreleases : w.flush.2.store.releases = #[] := Store.releases_releaseScheduled w.freed.store
    rw [hreleases]
    rfl
  · have hattached : entry.attachment = .attached := by
      rw [get?_entries_flush hw, Option.filter_eq_some_iff] at hentry
      simpa using hentry.2
    have hattaches : w.flush.2.Attaches h entry.owner := by
      refine ⟨entry.component, hentry.trans ?_⟩
      rw [← hattached]
    exact ⟨hattached, (sound_flush hw).live_of_attaches hattaches⟩

end World

end Cadence
