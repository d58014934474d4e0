import Cadence.Proofs.World.Extension
import Cadence.Proofs.World.Flush

/-!
Worlds whose queue can be routed. Changes that are routed, a routing of the queue, and a flush with an empty queue lead
from such worlds to such worlds, and an index that keeps up with the queue stays in step with the world.
-/

namespace Cadence

namespace World

/-! ### Changes one after the other -/

/-- `w'` comes from `w` by changes that are routed. -/
def Edited (w w' : World) : Prop :=
  ∃ edits : List (Edit Entity Handle), (∀ edit ∈ edits, edit.IsRouted) ∧ w' = w.run edits

theorem Edited.refl (w : World) : w.Edited w := Via.refl w

theorem Edited.trans {w w' w'' : World} (h : w.Edited w') (h' : w'.Edited w'') : w.Edited w'' := Via.trans h h'

theorem Edited.perform (w : World) (edit : Edit Entity Handle) (hedit : edit.IsRouted) : w.Edited (w.perform edit).2 :=
  Via.perform w edit hedit

theorem Edited.extends {w w' : World} (hw : w.Sound) (h : w.Edited w') : w'.Sound ∧ ∃ news, w.Extends w' news := by
  obtain ⟨edits, hedits, rfl⟩ := h
  induction edits generalizing w with
  | nil => exact ⟨hw, [], Extends.refl w⟩
  | cons edit rest ih =>
    obtain ⟨xs, hxs⟩ := extends_perform hw (hedits edit (by simp))
    obtain ⟨hsound, ys, hys⟩ := ih (sound_perform hw edit) fun edit hmem => hedits edit (by simp [hmem])
    exact ⟨hsound, xs ++ ys, hxs.trans hys⟩

theorem Edited.keeps {w w' : World} (hw : w.Sound) (h : w.Edited w') : w.Keeps w' := by
  obtain ⟨_, _, hextends⟩ := h.extends hw
  exact hextends.keeps

/-! ### Worlds whose queue can be routed -/

/-- The bookkeeping is right, and the components that the queue is about are stored. -/
structure Routable (w : World) : Prop extends Sound w where
  stored : ∀ event ∈ w.events.toList, (w.kind? event.handle).isSome

theorem routable_empty : Routable empty := ⟨sound_empty, by simp [empty]⟩

theorem Routable.edited {w w' : World} (hw : w.Routable) (h : w.Edited w') : w'.Routable := by
  obtain ⟨hsound, news, hextends⟩ := h.extends hw.toSound
  refine ⟨hsound, fun event hmem => ?_⟩
  rw [hextends.events] at hmem
  obtain hmem | hmem := List.mem_append.mp hmem
  · rw [hextends.keeps.kind?_eq (hw.stored event hmem)]
    exact hw.stored event hmem
  · exact hextends.stored event hmem

theorem Routable.drain {w : World} (hw : w.Routable) : w.drain.2.Routable := by
  refine ⟨hw.toSound.withEvents #[], fun event hmem => ?_⟩
  simp [World.drain] at hmem

end World

namespace Catalog

open World in
/-- Changes that are routed leave an index in step with the world. -/
theorem Tracks.edited {k : Catalog} {w w' : World} (hw : w.Routable) (h : w.Edited w') (hk : k.Tracks w) :
    k.Tracks w' := by
  obtain ⟨_, news, hextends⟩ := h.extends hw.toSound
  have hsame : k.replay w' w.events.toList = k.replay w w.events.toList :=
    replay_congr (fun event hmem => hextends.keeps.kind?_eq (hw.stored event hmem)) k
  refine ⟨hk.sound, ?_⟩
  rw [hextends.events, replay_append, hsame]
  exact hextends.settled hk.lists

open World in
/-- Changes that are routed bring nothing into the queue that an index in step with the world has heard. -/
theorem Unheard.edited {k : Catalog} {w w' : World} (hw : w.Routable) (h : w.Edited w') (hk : k.Tracks w)
    (hunheard : k.Unheard w w.events.toList) : k.Unheard w' w'.events.toList := by
  obtain ⟨_, news, hextends⟩ := h.extends hw.toSound
  have hkinds : ∀ event ∈ w.events.toList, w'.kind? event.handle = w.kind? event.handle := fun event hmem =>
    hextends.keeps.kind?_eq (hw.stored event hmem)
  rw [hextends.events, unheard_append, replay_congr hkinds]
  exact ⟨unheard_congr hkinds hunheard, hextends.unheard hk.lists⟩

theorem Lists.congr {k : Catalog} {w w' : World} (hk : k.Lists w)
    (howner : ∀ h, w'.attachedOwner? k.accepts h = w.attachedOwner? k.accepts h) : k.Lists w' :=
  ⟨hk.sound, fun h => (hk.owner?_eq h).trans (howner h).symm⟩

/-- With an empty queue there is nothing left to hear. -/
theorem tracks_iff_lists {k : Catalog} {w : World} (h : w.events = #[]) : k.Tracks w ↔ k.Lists w := by
  constructor
  · intro hk
    have hlists := hk.lists
    rw [h] at hlists
    exact hlists
  · intro hk
    refine ⟨hk.sound, ?_⟩
    rw [h]
    exact hk

/-- An index that has heard the queue agrees with the world from which the queue has been taken. -/
theorem Tracks.drain {k : Catalog} {w : World} (hk : k.Tracks w) : (k.replay w w.events.toList).Tracks w.drain.2 :=
  (tracks_iff_lists rfl).mpr (hk.lists.congr fun _ => rfl)

end Catalog

namespace World

/-! ### The flush -/

/-- A flush releases no component that is attached. -/
theorem attachedOwner?_flush {w : World} (hw : w.Sound) (accepts : Kind → Bool) (h : Handle) :
    w.flush.2.attachedOwner? accepts h = w.attachedOwner? accepts h := by
  simp only [attachedOwner?, label?, get?_entries_flush hw]
  cases w.store.entries.get? h with
  | none => rfl
  | some entry => by_cases hattached : entry.attachment = .attached <;> simp [Option.filter_some, hattached]

theorem events_flush {w : World} (h : w.events = #[]) : w.flush.2.events = #[] := by
  rw [events_flush_eq_filter, h]
  rfl

theorem Routable.flush {w : World} (hw : w.Routable) (h : w.events = #[]) : w.flush.2.Routable := by
  refine ⟨sound_flush hw.toSound, fun event hmem => ?_⟩
  rw [events_flush h] at hmem
  cases hmem

end World

end Cadence
