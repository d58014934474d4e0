import Cadence.Proofs.Index
import Cadence.Proofs.World.Run

/-!
The queue of a world tells an index of its components everything that it has missed. Whatever is done to the world
short of a flush and of taking the queue away, an index that agreed with the world agrees with it again once it has
heard the events that were added since.
-/

namespace Cadence

/-! ### What is stored behind a handle -/

namespace World

/-- Who owns the component behind a handle, how it is attached and of which kind it is. -/
def label? (w : World) (h : Handle) : Option (Entity × Attachment × Kind) :=
  (w.store.entries.get? h).map fun entry => (entry.owner, entry.attachment, entry.component.kind)

def kind? (w : World) (h : Handle) : Option Kind := (w.label? h).map (·.2.2)

/-- The owner of an attached component, if it is of a kind that `accepts` allows. -/
def attachedOwner? (w : World) (accepts : Kind → Bool) (h : Handle) : Option Entity :=
  (w.label? h).bind fun (owner, attachment, kind) =>
    if attachment = .attached ∧ accepts kind then some owner else none

/-- The attached components of the kinds that `accepts` allows, with their owners, in the order of the arena. -/
def attachedPairs (w : World) (accepts : Kind → Bool) : List (Handle × Entity) :=
  (w.store.attached.filter fun (_, _, c) => accepts c.kind).map fun (h, owner, _) => (h, owner)

theorem kind?_eq_map (w : World) (h : Handle) : w.kind? h = (w.store.get? h).map (·.kind) := by
  simp [kind?, label?, Store.get?, Function.comp_def]

theorem getAs?_of_kind? {w : World} {h : Handle} {k : Kind} (hkind : w.kind? h = some k) :
    ∃ data, w.store.getAs? k h = some data := by
  rw [kind?_eq_map] at hkind
  obtain ⟨⟨kind, data⟩, hget, rfl⟩ := Option.map_eq_some_iff.mp hkind
  exact ⟨data, by simp [Store.getAs?, hget]⟩

theorem attachedOwner?_eq_some_iff {w : World} {accepts : Kind → Bool} {h : Handle} {e : Entity} :
    w.attachedOwner? accepts h = some e ↔
      ∃ c, w.store.entries.get? h = some ⟨e, .attached, c⟩ ∧ accepts c.kind := by
  unfold attachedOwner? label?
  cases w.store.entries.get? h with
  | none => simp
  | some entry =>
    obtain ⟨owner, attachment, c⟩ := entry
    by_cases hcond : attachment = .attached ∧ accepts c.kind
    · simp only [Option.map_some, Option.bind_some, if_pos hcond, Option.some.injEq]
      constructor
      · rintro rfl
        exact ⟨c, by rw [hcond.1], hcond.2⟩
      · rintro ⟨c', heq, _⟩
        cases heq
        rfl
    · simp only [Option.map_some, Option.bind_some, if_neg hcond, Option.some.injEq]
      constructor
      · rintro ⟨⟩
      · rintro ⟨c', heq, haccepts⟩
        cases heq
        exact absurd ⟨rfl, haccepts⟩ hcond

theorem mem_attachedPairs {w : World} {accepts : Kind → Bool} {h : Handle} {e : Entity} :
    (h, e) ∈ w.attachedPairs accepts ↔ w.attachedOwner? accepts h = some e := by
  simp only [attachedPairs, List.mem_map, List.mem_filter, Prod.exists, Store.mem_attached, Prod.mk.injEq,
    attachedOwner?_eq_some_iff]
  constructor
  · rintro ⟨_, _, c, ⟨hentry, haccepts⟩, rfl, rfl⟩
    exact ⟨c, hentry, haccepts⟩
  · rintro ⟨c, hentry, haccepts⟩
    exact ⟨h, e, c, ⟨hentry, haccepts⟩, rfl, rfl⟩

theorem nodup_attachedPairs (w : World) (accepts : Kind → Bool) : ((w.attachedPairs accepts).map (·.1)).Nodup := by
  have hsub : ((w.attachedPairs accepts).map (·.1)).Sublist (w.store.attached.map (·.1)) := by
    rw [attachedPairs, List.map_map]
    exact List.filter_sublist.map _
  exact hsub.nodup w.store.nodup_attached

end World

/-! ### Indexes that follow the queue -/

/-- The index of the components of some kinds, as a system keeps it. -/
structure Catalog where
  accepts : Kind → Bool
  index : Index := {}

namespace Catalog

/-- Notes an event about a component of a kind. -/
def note (k : Catalog) (event : Event) (kind : Kind) : Catalog :=
  if k.accepts kind then
    match event with
    | .attached h owner => { k with index := (k.index.insert h owner).2 }
    | .detached h _ => { k with index := (k.index.remove h).2 }
  else k

/-- Notes an event, unless its component is stored no longer. -/
def hear (w : World) (k : Catalog) (event : Event) : Catalog :=
  match w.kind? event.handle with
  | none => k
  | some kind => k.note event kind

/-- Notes events one after the other. -/
def replay (w : World) (k : Catalog) (events : List Event) : Catalog := events.foldl (hear w) k

/-- The index knows the attached components of its kinds, with their owners, and no others. -/
structure Lists (k : Catalog) (w : World) : Prop where
  sound : k.index.Sound
  owner?_eq : ∀ h, k.index.owner? h = w.attachedOwner? k.accepts h

/-- The index lists the attached components once it has heard the queue of the world. -/
structure Tracks (k : Catalog) (w : World) : Prop where
  sound : k.index.Sound
  lists : (k.replay w w.events.toList).Lists w

@[simp] theorem accepts_note (k : Catalog) (event : Event) (kind : Kind) : (k.note event kind).accepts = k.accepts := by
  unfold note
  split
  · cases event <;> rfl
  · rfl

theorem sound_note {k : Catalog} (hk : k.index.Sound) (event : Event) (kind : Kind) :
    (k.note event kind).index.Sound := by
  unfold note
  split
  · cases event with
    | attached h owner => exact hk.insert h owner
    | detached h owner => exact hk.remove h
  · exact hk

theorem accepts_hear (w : World) (k : Catalog) (event : Event) : (k.hear w event).accepts = k.accepts := by
  rw [hear]
  split
  · rfl
  · exact accepts_note ..

theorem sound_hear {w : World} {k : Catalog} (hk : k.index.Sound) (event : Event) : (k.hear w event).index.Sound := by
  rw [hear]
  split
  · exact hk
  · exact sound_note hk ..

@[simp] theorem replay_nil (w : World) (k : Catalog) : k.replay w [] = k := rfl

theorem replay_append (w : World) (k : Catalog) (xs ys : List Event) :
    k.replay w (xs ++ ys) = (k.replay w xs).replay w ys := List.foldl_append ..

@[simp] theorem accepts_replay (w : World) (k : Catalog) (events : List Event) :
    (k.replay w events).accepts = k.accepts := by
  induction events generalizing k with
  | nil => rfl
  | cons event rest ih => exact (ih _).trans (accepts_hear w k event)

/-- A replay depends on nothing but the kinds of the components that it is about. -/
theorem replay_congr {w w' : World} {events : List Event}
    (h : ∀ event ∈ events, w'.kind? event.handle = w.kind? event.handle) (k : Catalog) :
    k.replay w' events = k.replay w events := by
  induction events generalizing k with
  | nil => rfl
  | cons event rest ih =>
    have hhead : hear w' k event = hear w k event := by simp only [hear, h event (by simp)]
    show replay w' (hear w' k event) rest = replay w (hear w k event) rest
    rw [hhead]
    exact ih (fun event hmem => h event (by simp [hmem])) _

theorem Lists.perm {k : Catalog} {w : World} (h : k.Lists w) : k.index.pairs.Perm (w.attachedPairs k.accepts) := by
  rw [Index.perm_pairs_iff h.sound (World.nodup_attachedPairs w k.accepts)]
  intro handle owner
  rw [World.mem_attachedPairs, h.owner?_eq]

end Catalog

end Cadence
