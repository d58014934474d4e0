import Cadence.Proofs.Index.Listing
import Cadence.Proofs.System.Boxes
import Cadence.Proofs.System.Commands
import Cadence.Proofs.System.Sight

/-!
The boxes that are kept cover the sprites. From an index that is in step with the world an update makes one box for
every entity that has a transform and sprites, around all of these, and hands back the boxes that are not stored yet.
Once they have been applied each of them is the first bounds of its entity, and nothing else has changed. An update
that comes right after finds no news, except of boxes that differ from themselves.
-/

namespace Cadence

namespace Boxes

open World

variable {b : Boxes} {w w₁ w₂ w' : World} {e : Entity} {bounds : Bounds} {box : Box} {boxes : List Box}

/-! ### The boxes of a world -/

/-- The sprites of an entity with their handles, in the order of the index. -/
def spritesOf (b : Boxes) (w : World) (e : Entity) : List (Handle × Sprite) :=
  (b.sprites.entries.toList.filter (·.owner = e)).filterMap fun entry =>
    (w.store.getAs? .sprite entry.handle).map (entry.handle, ·)

/-- One box around several, widened by one after the other. -/
def hull : List Bounds → Option Bounds
  | [] => none
  | first :: rest => some (rest.foldl Bounds.union first)

/-- The box around all sprites of an entity, if it has any and a transform. -/
def cover? (b : Boxes) (w : World) (e : Entity) : Option Bounds :=
  (w.first? .transform e).bind fun (_, t) =>
    hull ((b.spritesOf w e).map fun p => Bounds.around t p.2.width p.2.height)

/-- The bounds that a box of an entity is to be written to. -/
def targetOf (w : World) (e : Entity) : Option Handle := (w.first? .bounds e).map (·.1)

/-- The box around one sprite of an entity, if it has a transform. -/
def boxAround? (w : World) (e : Entity) (sprite : Sprite) : Option Box :=
  (w.first? .transform e).map fun (_, t) => ⟨e, targetOf w e, Bounds.around t sprite.width sprite.height⟩

/-- The boxes around the single sprites, in the order of the index. -/
def found (b : Boxes) (w : World) : List Box :=
  b.sprites.entries.toList.filterMap fun entry =>
    (w.store.getAs? .sprite entry.handle).bind (boxAround? w entry.owner)

/-- The boxes of all entities, those that are stored already among them. -/
def gathered (b : Boxes) (w : World) : List Box := (b.found w).foldl (fun boxes box => insertBox box boxes) []

/-- The boxes that an update hands back. -/
def news (b : Boxes) (w : World) : List Box := (b.gathered w).filter (isNews w)

/-- Every sprite that the index names is stored. -/
def Stored (b : Boxes) (w : World) : Prop :=
  ∀ entry ∈ b.sprites.entries.toList, ∃ sprite, w.store.getAs? .sprite entry.handle = some sprite

theorem boxes_eq (hstored : Stored b w) : b.boxes w = .ok (b.news w) := by
  have hbox : ∀ entry ∈ b.sprites.entries.toList, ∃ box, box? w entry = .ok box ∧
      some ((w.store.getAs? .sprite entry.handle).bind (boxAround? w entry.owner)) = some box := by
    intro entry hmem
    obtain ⟨sprite, hsprite⟩ := hstored entry hmem
    refine ⟨_, ?_, rfl⟩
    rw [box?, component_of_getAs? hsprite, hsprite]
    rfl
  rw [boxes, mapM_eq_filterMap hbox, news, gathered, found, Except.map, List.filterMap_filterMap]
  rfl

/-! ### One box for each entity -/

theorem filter_insertBox (e : Entity) (box : Box) (boxes : List Box) :
    (insertBox box boxes).filter (·.entity = e) =
      if box.entity = e then insertBox box (boxes.filter (·.entity = e)) else boxes.filter (·.entity = e) := by
  induction boxes with
  | nil => by_cases he : box.entity = e <;> simp [insertBox, he]
  | cons other rest ih =>
    rw [insertBox]
    by_cases hsame : other.entity = box.entity
    · by_cases he : box.entity = e <;> simp [insertBox, hsame, he]
    · rw [if_neg hsame, List.filter_cons, List.filter_cons, ih]
      by_cases he : box.entity = e
      -- the box has passed over a box of another entity, which is not in the list on the right at all
      · have hother : other.entity ≠ e := fun h => hsame (h.trans he.symm)
        simp [he, hother]
      · simp [he]

theorem filter_foldl_insertBox (e : Entity) (found boxes : List Box) :
    (found.foldl (fun boxes box => insertBox box boxes) boxes).filter (·.entity = e) =
      (found.filter (·.entity = e)).foldl (fun boxes box => insertBox box boxes) (boxes.filter (·.entity = e)) := by
  induction found generalizing boxes with
  | nil => rfl
  | cons box rest ih =>
    rw [List.foldl_cons, ih, filter_insertBox]
    by_cases he : box.entity = e <;> simp [he]

/-- Boxes of one entity end up in its first. -/
theorem foldl_insertBox_of_entity (target : Option Handle) (bounds : Bounds) (others : List Bounds) :
    (others.map fun other => (⟨e, target, other⟩ : Box)).foldl (fun boxes box => insertBox box boxes)
        [⟨e, target, bounds⟩] =
      [⟨e, target, others.foldl Bounds.union bounds⟩] := by
  induction others generalizing bounds with
  | nil => rfl
  | cons other rest ih =>
    rw [List.map_cons, List.foldl_cons, insertBox, if_pos rfl]
    exact ih (bounds.union other)

theorem filter_found (b : Boxes) (w : World) (e : Entity) :
    (b.found w).filter (·.entity = e) = (b.spritesOf w e).filterMap fun p => boxAround? w e p.2 := by
  rw [found, List.filter_filterMap, spritesOf, List.filterMap_filter, List.filterMap_filterMap]
  refine List.filterMap_congr fun entry _ => ?_
  cases w.store.getAs? .sprite entry.handle with
  | none => by_cases howner : entry.owner = e <;> simp [howner]
  | some sprite =>
    by_cases howner : entry.owner = e
    · subst howner
      cases htransform : w.first? .transform entry.owner <;> simp [boxAround?, htransform]
    · cases htransform : w.first? .transform entry.owner <;> simp [boxAround?, htransform, howner]

/-- Of every entity there is the box around its sprites, and no other. -/
theorem filter_gathered (b : Boxes) (w : World) (e : Entity) :
    (b.gathered w).filter (·.entity = e) =
      ((b.cover? w e).map fun bounds => (⟨e, targetOf w e, bounds⟩ : Box)).toList := by
  rw [gathered, filter_foldl_insertBox, filter_found, cover?]
  cases htransform : w.first? .transform e with
  | none => simp [boxAround?, htransform]
  | some p =>
    obtain ⟨_, t⟩ := p
    have hboxes : (b.spritesOf w e).filterMap (fun p => boxAround? w e p.2) =
        ((b.spritesOf w e).map fun p => Bounds.around t p.2.width p.2.height).map
          fun bounds => ⟨e, targetOf w e, bounds⟩ := by
      rw [List.map_map, ← List.filterMap_eq_map]
      refine List.filterMap_congr fun p _ => ?_
      simp [boxAround?, htransform]
    rw [hboxes, Option.bind_some]
    dsimp only
    cases (b.spritesOf w e).map fun p => Bounds.around t p.2.width p.2.height with
    | nil => rfl
    | cons first rest => exact foldl_insertBox_of_entity _ first rest

theorem mem_gathered :
    box ∈ b.gathered w ↔ b.cover? w box.entity = some box.bounds ∧ box.target = targetOf w box.entity := by
  have hmem : box ∈ b.gathered w ↔ box ∈ (b.gathered w).filter (·.entity = box.entity) := by simp
  rw [hmem, filter_gathered, Option.mem_toList, Option.map_eq_some_iff]
  constructor
  · rintro ⟨bounds, hcover, hbox⟩
    rw [← hbox]
    exact ⟨hcover, rfl⟩
  · rintro ⟨hcover, htarget⟩
    exact ⟨_, hcover, by rw [← htarget]⟩

/-! ### Entities with sprites -/

/-- The index of a system that keeps boxes. -/
def catalog (b : Boxes) : Catalog := ⟨(· == .sprite), b.sprites⟩

theorem stored_of_lists (hlists : b.catalog.Lists w) : Stored b w := fun _ => Catalog.Lists.stored hlists

/-- The sprites of a live entity are those that are attached to it. -/
theorem perm_spritesOf (hw : w.Sound) (hlists : b.catalog.Lists w) (hlive : w.isLive e) :
    (b.spritesOf w e).Perm (w.held .sprite e) := Catalog.Lists.perm_itemsOf hlists hw.toSoundStore hlive

theorem isSome_hull_iff {boxes : List Bounds} : (hull boxes).isSome ↔ boxes ≠ [] := by
  cases boxes <;> simp [hull]

theorem spritesOf_eq_nil_iff (hw : w.Sound) (hlists : b.catalog.Lists w) (e : Entity) :
    b.spritesOf w e = [] ↔ (w.isLive e → w.held .sprite e = []) := by
  by_cases hlive : w.isLive e
  · have hperm := perm_spritesOf hw hlists hlive
    constructor
    · intro hnil _
      rw [hnil] at hperm
      exact hperm.nil_eq.symm
    · intro hnil
      rw [hnil hlive] at hperm
      exact hperm.eq_nil
  · exact iff_of_true (Catalog.Lists.itemsOf_eq_nil hlists hw.toSoundStore hlive) fun h => absurd h hlive

theorem isSome_cover?_iff (hw : w.Sound) (hlists : b.catalog.Lists w) (e : Entity) :
    (b.cover? w e).isSome ↔ w.isLive e ∧ (w.first? .transform e).isSome ∧ w.held .sprite e ≠ [] := by
  have hnone := spritesOf_eq_nil_iff hw hlists e
  rw [cover?]
  cases w.first? .transform e with
  | none => simp
  | some p =>
    simp [isSome_hull_iff, hnone]

/-! ### Boxes that are written -/

/-- The first bounds of an entity are a box. They were as good as equal to it and have been left alone, or they have
been overwritten, or there were none and they have been attached. The entity has all its other components as they
were. -/
inductive Refreshed (e : Entity) (bounds : Bounds) (w w' : World) : Prop
  | kept (h : Handle) (current : Bounds) (rest : List (Handle × Bounds))
    (before : w.held .bounds e = (h, current) :: rest) (equal : (current == bounds) = true)
    (same : w.Untouched e w')
  | written (h : Handle) (current : Bounds) (rest : List (Handle × Bounds))
    (before : w.held .bounds e = (h, current) :: rest) (differs : (current == bounds) = false)
    (after : w'.held .bounds e = (h, bounds) :: rest) (handles : w'.handleList e = w.handleList e)
    (same : w.Alters .bounds e w')
  | attached (h : Handle) (before : w.held .bounds e = []) (after : w'.held .bounds e = [(h, bounds)])
    (handles : w'.handleList e = w.handleList e ++ [h]) (same : w.Alters .bounds e w')

/-- A box that is to be written, with the bounds that it is to be written to. -/
structure Due (w : World) (box : Box) : Prop where
  live : w.isLive box.entity
  target : box.target = targetOf w box.entity
  differs : ∀ h current, w.first? .bounds box.entity = some (h, current) → (current == box.bounds) = false

theorem Due.untouched (h : Due w box) (hw : w.SoundStore) (hsame : w.Untouched box.entity w') : Due w' box := by
  have hfirst : w'.first? .bounds box.entity = w.first? .bounds box.entity := by
    rw [first?_eq_head?_held, first?_eq_head?_held, hsame.held_eq hw]
  refine ⟨?_, ?_, ?_⟩
  · rw [isLive_iff, hsame.state?_eq]
    exact isLive_iff.mp h.live
  · rw [targetOf, hfirst]
    exact h.target
  · rw [hfirst]
    exact h.differs

theorem Refreshed.between (h : Refreshed e bounds w₁ w₂) (hw : w.SoundStore) (hw₂ : w₂.SoundStore)
    (hbefore : w.Untouched e w₁) (hafter : w₂.Untouched e w') : Refreshed e bounds w w' := by
  have hheld : w₁.held .bounds e = w.held .bounds e := hbefore.held_eq hw .bounds
  have hheld' : w'.held .bounds e = w₂.held .bounds e := hafter.held_eq hw₂ .bounds
  cases h with
  | kept h current rest before equal same =>
    exact .kept h current rest (hheld ▸ before) equal ((hbefore.trans same).trans hafter)
  | written h current rest before differs after handles same =>
    refine .written h current rest (hheld ▸ before) differs (hheld'.trans after) ?_ ?_
    · rw [hafter.handleList_eq, handles, hbefore.handleList_eq]
    · exact ((hbefore.alters hw _).trans same).trans (hafter.alters hw₂ _)
  | attached h before after handles same =>
    refine .attached h (hheld ▸ before) (hheld'.trans after) ?_ ?_
    · rw [hafter.handleList_eq, handles, hbefore.handleList_eq]
    · exact ((hbefore.alters hw _).trans same).trans (hafter.alters hw₂ _)

/-- A box that is due is written. -/
theorem applyBox_spec (hw : w.SoundStore) (h : Due w box) :
    (applyBox w box).1 = .ok () ∧ w.Confined box.entity (applyBox w box).2 ∧
      Refreshed box.entity box.bounds w (applyBox w box).2 := by
  have htarget := h.target
  have hstate := isLive_iff.mp h.live
  rw [targetOf, first?_eq_head?_held] at htarget
  rw [applyBox, if_pos h.live]
  cases hheld : w.held .bounds box.entity with
  | nil =>
    obtain ⟨slot, hslot, _⟩ := slot?_of_state? hstate
    have hafter := held_withAttached hw hslot ⟨.bounds, box.bounds⟩ .bounds
    rw [hheld, Component.as_kind] at hafter
    rw [hheld] at htarget
    simp only [htarget, List.head?_nil, Option.map_none, attach_of_live hstate]
    exact ⟨rfl, confined_withAttached hw hslot _, .attached _ hheld hafter (handleList_withAttached hslot _)
      (alters_withAttached hw hslot ⟨.bounds, box.bounds⟩)⟩
  | cons p rest =>
    obtain ⟨handle, current⟩ := p
    obtain ⟨hmem, hget⟩ := mem_held (w := w) (e := box.entity) (h := handle) (a := current) (by simp [hheld])
    have hdiffers := h.differs handle current (by rw [first?_eq_head?_held, hheld]; rfl)
    rw [hheld] at htarget
    simp only [htarget, List.head?_cons, Option.map_some]
    refine ⟨by rw [modify_of_getAs? hget], confined_modify hw hmem .bounds _,
      .written handle current rest hheld hdiffers (held_modify_self hw hheld _) ?_ (alters_modify hget _ _)⟩
    rw [modify_of_getAs? hget]
    rfl

theorem sound_applyBox (hw : w.Sound) (box : Box) : (applyBox w box).2.Sound :=
  ((gently_applyBox w box).edited.extends hw).1

/-- Boxes that are due, each for another entity. -/
structure AllDue (w : World) (boxes : List Box) : Prop where
  distinct : (boxes.map (·.entity)).Nodup
  due : ∀ box ∈ boxes, Due w box

/-- Writing one box leaves the others due. -/
theorem AllDue.rest (hw : w.SoundStore) (h : AllDue w (box :: boxes)) : AllDue (applyBox w box).2 boxes := by
  obtain ⟨hfirst, hdistinct⟩ := List.nodup_cons.mp h.distinct
  obtain ⟨hbox, hrest⟩ := List.forall_mem_cons.mp h.due
  refine ⟨hdistinct, fun other hmem => (hrest other hmem).untouched hw ?_⟩
  exact (applyBox_spec hw hbox).2.1.untouched fun hsame => hfirst (List.mem_map.mpr ⟨other, hmem, hsame⟩)

theorem applyBoxes_cons (hwritten : (applyBox w box).1 = .ok ()) (rest : List Box) :
    applyBoxes w (box :: rest) = applyBoxes (applyBox w box).2 rest := inOrder_cons_of_ok hwritten rest

/-- What applying boxes that are due leaves behind. -/
structure Applied (w : World) (boxes : List Box) (w' : World) : Prop where
  sound : w'.Sound
  refreshed : ∀ box ∈ boxes, Refreshed box.entity box.bounds w w'
  untouched : ∀ e, e ∉ boxes.map (·.entity) → w.Untouched e w'
  releases : w'.store.releases = w.store.releases
  queued : ∀ h ∈ w.store.releases, w'.store.entries.get? h = w.store.entries.get? h

theorem applied_applyBoxes (hw : w.Sound) (h : AllDue w boxes) :
    (applyBoxes w boxes).1 = .ok () ∧ Applied w boxes (applyBoxes w boxes).2 := by
  induction boxes generalizing w with
  | nil => exact ⟨rfl, hw, by simp, fun e _ => .refl e w, rfl, fun _ _ => rfl⟩
  | cons box rest ih =>
    have hbox := h.due box (by simp)
    obtain ⟨hfirst, _⟩ := List.nodup_cons.mp h.distinct
    obtain ⟨hwritten, hconfined, hrefreshed⟩ := applyBox_spec hw.toSoundStore hbox
    have hsound := sound_applyBox hw box
    rw [applyBoxes_cons hwritten]
    obtain ⟨hdone, happlied⟩ := ih hsound (h.rest hw.toSoundStore)
    have hothers : ∀ other ∈ rest, other.entity ≠ box.entity := fun other hmem hsame =>
      hfirst (List.mem_map.mpr ⟨other, hmem, hsame⟩)
    refine ⟨hdone, happlied.sound, ?_, ?_, happlied.releases.trans hconfined.releases, ?_⟩
    · refine List.forall_mem_cons.mpr ⟨?_, fun other hmem => ?_⟩
      · exact hrefreshed.between hw.toSoundStore hsound.toSoundStore (.refl _ w) (happlied.untouched _ hfirst)
      · exact (happlied.refreshed other hmem).between hw.toSoundStore happlied.sound.toSoundStore
          (hconfined.untouched (hothers other hmem)) (.refl _ _)
    · intro e hnot
      rw [List.map_cons, List.mem_cons, not_or] at hnot
      exact (hconfined.untouched hnot.1).trans (happlied.untouched e hnot.2)
    · intro handle hmem
      rw [happlied.queued handle (hconfined.releases ▸ hmem), hconfined.queued hmem]

/-! ### The news of an update -/

theorem isNews_eq (htarget : box.target = targetOf w box.entity) :
    isNews w box = (w.held .bounds box.entity).head?.all fun p => p.2 != box.bounds := by
  rw [targetOf, first?_eq_head?_held] at htarget
  rw [isNews, htarget]
  cases hheld : w.held .bounds box.entity with
  | nil => rfl
  | cons p rest =>
    obtain ⟨handle, current⟩ := p
    obtain ⟨_, hget⟩ := mem_held (w := w) (e := box.entity) (h := handle) (a := current) (by simp [hheld])
    simp only [List.head?_cons, Option.map_some, Option.all_some, component_of_getAs? hget]

theorem allDue_news (hw : w.Sound) (hlists : b.catalog.Lists w) : AllDue w (b.news w) where
  distinct := (timely_boxes hw (boxes_eq (stored_of_lists hlists))).distinct
  due box hmem := by
    obtain ⟨hgathered, hnews⟩ := List.mem_filter.mp hmem
    obtain ⟨hcover, htarget⟩ := mem_gathered.mp hgathered
    refine ⟨((isSome_cover?_iff hw hlists _).mp (by rw [hcover]; rfl)).1, htarget, fun h current hfirst => ?_⟩
    rw [isNews_eq htarget, ← first?_eq_head?_held, hfirst] at hnews
    simpa [bne] using hnews

theorem cover?_of_mem_news (hmem : box ∈ b.news w) : b.cover? w box.entity = some box.bounds :=
  (mem_gathered.mp (List.mem_filter.mp hmem).1).1

theorem untouched_of_cover?_eq_none (happlied : Applied w (b.news w) w') (hcover : b.cover? w e = none) :
    w.Untouched e w' := by
  refine happlied.untouched e fun hmem => ?_
  obtain ⟨box, hbox, rfl⟩ := List.mem_map.mp hmem
  rw [cover?_of_mem_news hbox] at hcover
  cases hcover

/-- A box that is no news is stored already. -/
theorem refreshed_of_cover? (happlied : Applied w (b.news w) w') (hcover : b.cover? w e = some bounds) :
    Refreshed e bounds w w' := by
  have hgathered : ⟨e, targetOf w e, bounds⟩ ∈ b.gathered w := mem_gathered.mpr ⟨hcover, rfl⟩
  by_cases hnews : isNews w ⟨e, targetOf w e, bounds⟩
  · exact happlied.refreshed _ (List.mem_filter.mpr ⟨hgathered, hnews⟩)
  -- a box of this entity among the news would be this very box
  · have huntouched : w.Untouched e w' := by
      refine happlied.untouched e fun hmem => hnews ?_
      obtain ⟨⟨e', target, bounds'⟩, hbox, rfl⟩ := List.mem_map.mp hmem
      obtain ⟨hother, hisNews⟩ := List.mem_filter.mp hbox
      obtain ⟨hcover', htarget⟩ := mem_gathered.mp hother
      obtain rfl := Option.some.inj (hcover.symm.trans hcover')
      rw [← htarget]
      exact hisNews
    rw [isNews_eq rfl] at hnews
    cases hheld : w.held .bounds e with
    | nil => simp [hheld] at hnews
    | cons p rest =>
      obtain ⟨handle, current⟩ := p
      exact .kept handle current rest hheld (by simpa [hheld, bne] using hnews) huntouched

/-! ### The update after that -/

theorem Refreshed.others (h : Refreshed e bounds w w') (hw : w.SoundStore) {k : Kind} (hk : k ≠ .bounds) :
    w'.held k e = w.held k e := by
  cases h with
  | kept _ _ _ _ _ same => exact same.held_eq hw k
  | written _ _ _ _ _ _ _ same => exact same.others k hk
  | attached _ _ _ _ same => exact same.others k hk

theorem Applied.others (h : Applied w boxes w') (hw : w.SoundStore) {k : Kind} (hk : k ≠ .bounds) (e : Entity) :
    w'.held k e = w.held k e := by
  by_cases hmem : e ∈ boxes.map (·.entity)
  · obtain ⟨box, hbox, rfl⟩ := List.mem_map.mp hmem
    exact (h.refreshed box hbox).others hw hk
  · exact (h.untouched e hmem).held_eq hw k

/-- The box as an update of another world makes it. -/
def retarget (w : World) (box : Box) : Box := { box with target := targetOf w box.entity }

@[simp] theorem entity_retarget (w : World) (box : Box) : (retarget w box).entity = box.entity := rfl

theorem insertBox_retarget (w : World) (box : Box) (boxes : List Box) :
    insertBox (retarget w box) (boxes.map (retarget w)) = (insertBox box boxes).map (retarget w) := by
  induction boxes with
  | nil => rfl
  | cons other rest ih =>
    rw [List.map_cons, insertBox, insertBox, entity_retarget, entity_retarget, ih]
    split <;> rfl

theorem foldl_insertBox_retarget (w : World) (found boxes : List Box) :
    (found.map (retarget w)).foldl (fun boxes box => insertBox box boxes) (boxes.map (retarget w)) =
      (found.foldl (fun boxes box => insertBox box boxes) boxes).map (retarget w) := by
  induction found generalizing boxes with
  | nil => rfl
  | cons box rest ih => rw [List.map_cons, List.foldl_cons, insertBox_retarget, ih, List.foldl_cons]

/-- The sprites that the index names have stayed what they were. -/
theorem getAs?_of_applied (hw : w.Sound) (hlists : b.catalog.Lists w) (happlied : Applied w boxes w')
    {entry : Index.Entry} (hmem : entry ∈ b.sprites.entries.toList) :
    w'.store.getAs? .sprite entry.handle = w.store.getAs? .sprite entry.handle := by
  obtain ⟨sprite, hsprite⟩ := stored_of_lists hlists entry hmem
  have hlist := (Catalog.Lists.live_of_mem hlists hw.toSoundStore hmem).2
  have hheld : (entry.handle, sprite) ∈ w.held .sprite entry.owner :=
    List.mem_filterMap.mpr ⟨entry.handle, hlist, by rw [hsprite]; rfl⟩
  rw [← happlied.others hw.toSoundStore (by decide)] at hheld
  rw [hsprite, (mem_held hheld).2]

theorem gathered_of_applied (hw : w.Sound) (hlists : b.catalog.Lists w) (happlied : Applied w boxes w') :
    b.gathered w' = (b.gathered w).map (retarget w') := by
  have hfound : b.found w' = (b.found w).map (retarget w') := by
    rw [found, found, List.map_filterMap]
    refine List.filterMap_congr fun entry hmem => ?_
    have htransform : w'.first? .transform entry.owner = w.first? .transform entry.owner := by
      rw [first?_eq_head?_held, first?_eq_head?_held, happlied.others hw.toSoundStore (by decide)]
    rw [getAs?_of_applied hw hlists happlied hmem]
    cases w.store.getAs? .sprite entry.handle with
    | none => rfl
    | some sprite =>
      simp only [Option.bind_some, boxAround?, htransform, Option.map_map]
      rfl
  rw [gathered, hfound]
  exact foldl_insertBox_retarget w' (b.found w) []

/-- A box that has been written is news again only if it differs from itself. -/
theorem Refreshed.isNews_retarget (h : Refreshed box.entity box.bounds w w') (hw : w.SoundStore)
    (htarget : box.target = targetOf w box.entity) :
    isNews w' (retarget w' box) = (isNews w box && box.bounds != box.bounds) := by
  have hagain : isNews w' (retarget w' box) = (w'.held .bounds box.entity).head?.all fun p => p.2 != box.bounds :=
    isNews_eq rfl
  rw [isNews_eq htarget, hagain]
  cases h with
  | kept handle current rest before equal same => simp [same.held_eq hw, before, equal, bne]
  | written handle current rest before differs after _ _ => simp [before, after, differs, bne]
  | attached handle before after _ _ => simp [before, after]

theorem news_of_applied (hw : w.Sound) (hlists : b.catalog.Lists w) (happlied : Applied w (b.news w) w') :
    b.news w' = ((b.news w).filter fun box => box.bounds != box.bounds).map (retarget w') := by
  rw [news, gathered_of_applied hw hlists happlied, List.filter_map, news, List.filter_filter]
  congr 1
  refine List.filter_congr fun box hmem => ?_
  obtain ⟨hcover, htarget⟩ := mem_gathered.mp hmem
  rw [Function.comp_apply, (refreshed_of_cover? happlied hcover).isNews_retarget hw.toSoundStore htarget, Bool.and_comm]

/-! ### A step -/

/-- What is handed back of some news; of none, nothing is. -/
def handed (news : List Box) : Option (List Box) := if news.isEmpty then none else some news

theorem update_eq {ε : Type} (hstored : Stored b w) (phase : Phase) (frame : Nat) (parallel : Bool) (dt : Float32)
    (host : ε) :
    (system ε).update ⟨w, phase, frame, parallel⟩ dt b host =
      { outcome := .ok (handed (b.news w)), system := b, host } := by
  have hboxes := boxes_eq hstored
  cases hnews : b.news w <;> rw [hnews] at hboxes <;> simp only [system, hboxes] <;> rfl

theorem apply_eq {ε : Type} (hdone : (applyBoxes w boxes).1 = .ok ()) (phase : Phase) (frame : Nat) (parallel : Bool)
    (b : Boxes) (host : ε) :
    (system ε).apply boxes ⟨w, phase, frame, parallel⟩ b host =
      { outcome := .ok (), system := b, host, world := (applyBoxes w boxes).2 } := by
  simp only [system, hdone]
  rfl

theorem Refreshed.first? (h : Refreshed e bounds w w') (hw : w.SoundStore) :
    ∃ handle current, w'.first? .bounds e = some (handle, current) ∧
      ((current == bounds) = true ∨ current = bounds) := by
  rw [first?_eq_head?_held]
  cases h with
  | kept handle current _ before equal same =>
    exact ⟨handle, current, by rw [same.held_eq hw, before]; rfl, .inl equal⟩
  | written handle _ _ _ _ after _ _ => exact ⟨handle, bounds, by rw [after]; rfl, .inr rfl⟩
  | attached handle _ after _ _ => exact ⟨handle, bounds, by rw [after]; rfl, .inr rfl⟩

/-- Whenever the index of a system is in step with a world that comes about from the empty one, an update and the
writing of its result both succeed. The result has one box at most for an entity, and this is the box around all its
sprites. Afterwards every live entity with a transform and sprites has that box, or one as good as equal to it, as its
first bounds; bounds are attached for it if it had none, one and no more; and whatever else there is in the world is as
it was. An update right after that hands back those boxes of the first result again that differ from themselves. -/
theorem boxes_cover_sprites {ε : Type} (edits : List (World.Edit Entity Handle)) (b : Boxes) (phase : Phase)
    (frame : Nat) (parallel : Bool) (dt dt' : Float32) (host : ε) (hlists : b.catalog.Lists (World.run .empty edits)) :
    let w := World.run .empty edits
    ∃ first w',
      (system ε).update ⟨w, phase, frame, parallel⟩ dt b host = { outcome := .ok (handed first), system := b, host } ∧
      (system ε).apply first ⟨w, phase, frame, parallel⟩ b host =
        { outcome := .ok (), system := b, host, world := w' } ∧
      ((first.map (·.entity)).Nodup ∧ ∀ box ∈ first, b.cover? w box.entity = some box.bounds) ∧
      (∀ e, (b.cover? w e).isSome ↔ w.isLive e ∧ (w.first? .transform e).isSome ∧ w.held .sprite e ≠ []) ∧
      (∀ e, w.isLive e → (b.spritesOf w e).Perm (w.held .sprite e)) ∧
      (∀ e bounds, b.cover? w e = some bounds → Refreshed e bounds w w' ∧
        ∃ h current, w'.first? .bounds e = some (h, current) ∧ ((current == bounds) = true ∨ current = bounds)) ∧
      (∀ e, b.cover? w e = none → w.Untouched e w') ∧
      (w'.store.releases = w.store.releases ∧
        ∀ h ∈ w.store.releases, w'.store.entries.get? h = w.store.entries.get? h) ∧
      ∃ second,
        (system ε).update ⟨w', phase, frame, parallel⟩ dt' b host =
          { outcome := .ok (handed second), system := b, host } ∧
        second.map (fun box => (box.entity, box.bounds)) =
          (first.filter fun box => box.bounds != box.bounds).map fun box => (box.entity, box.bounds) := by
  intro w
  have hw : w.Sound := World.sound_run World.sound_empty edits
  have hstored : Stored b w := stored_of_lists hlists
  have hdue : AllDue w (b.news w) := allDue_news hw hlists
  obtain ⟨hdone, happlied⟩ := applied_applyBoxes hw hdue
  have hstored' : Stored b (applyBoxes w (b.news w)).2 := by
    intro entry hmem
    obtain ⟨sprite, hsprite⟩ := hstored entry hmem
    exact ⟨sprite, (getAs?_of_applied hw hlists happlied hmem).trans hsprite⟩
  refine ⟨b.news w, (applyBoxes w (b.news w)).2, update_eq hstored phase frame parallel dt host,
    apply_eq hdone phase frame parallel b host, ⟨hdue.distinct, fun box => cover?_of_mem_news⟩,
    isSome_cover?_iff hw hlists, fun e => perm_spritesOf hw hlists, fun e bounds hcover => ?_,
    fun e => untouched_of_cover?_eq_none happlied, ⟨happlied.releases, happlied.queued⟩,
    b.news (applyBoxes w (b.news w)).2, update_eq hstored' phase frame parallel dt' host, ?_⟩
  · have hrefreshed : Refreshed e bounds w (applyBoxes w (b.news w)).2 := refreshed_of_cover? happlied hcover
    exact ⟨hrefreshed, hrefreshed.first? hw.toSoundStore⟩
  · rw [news_of_applied hw hlists happlied, List.map_map]
    rfl

/-- A system that has been offered whatever is attached. -/
def offered (w : World) : Boxes := ⟨(Catalog.offerAll { accepts := (· == .sprite) } w.store.attached).index⟩

theorem lists_offered (w : World) : (offered w).catalog.Lists w := Catalog.lists_offered .sprite w

/-- An entity with two sprites. -/
def twoSprites : List (World.Edit Entity Handle) :=
  [.spawn false, .attach ⟨0, 0⟩ ⟨.transform, {}⟩,
    .attach ⟨0, 0⟩ ⟨.sprite, { sprite := 0, width := 8, height := 8 }⟩,
    .attach ⟨0, 0⟩ ⟨.sprite, { sprite := 1, width := 4, height := 16 }⟩]

theorem cover?_twoSprites :
    (offered (World.run .empty twoSprites)).cover? (World.run .empty twoSprites) ⟨0, 0⟩ =
      some ((Bounds.around {} 8 8).union (Bounds.around {} 4 16)) := by
  have hsprites : (offered (World.run .empty twoSprites)).sprites =
      ((Index.insert {} ⟨2, 1⟩ ⟨0, 0⟩).2.insert ⟨3, 1⟩ ⟨0, 0⟩).2 := rfl
  have hentries : (offered (World.run .empty twoSprites)).sprites.entries =
      #[⟨⟨2, 1⟩, ⟨0, 0⟩⟩, ⟨⟨3, 1⟩, ⟨0, 0⟩⟩] := by
    rw [hsprites]
    simp [Index.insert]
  rw [cover?, spritesOf, hentries]
  rfl

/-- The box around both sprites is attached to their entity, which had none. -/
theorem boxes_cover_two_sprites :
    let w := World.run .empty twoSprites
    (offered w).catalog.Lists w ∧ ∃ first h w',
      (system Unit).update ⟨w, .early, 0, false⟩ 0 (offered w) () =
        { outcome := .ok (handed first), system := offered w, host := () } ∧
      (system Unit).apply first ⟨w, .early, 0, false⟩ (offered w) () =
        { outcome := .ok (), system := offered w, host := (), world := w' } ∧
      w'.held .bounds ⟨0, 0⟩ = [(h, (Bounds.around {} 8 8).union (Bounds.around {} 4 16))] := by
  intro w
  obtain ⟨first, w', hupdate, happly, _, _, _, hcovered, _⟩ :=
    boxes_cover_sprites twoSprites (offered w) .early 0 false 0 0 () (lists_offered w)
  have hbefore : w.held .bounds ⟨0, 0⟩ = [] := rfl
  obtain ⟨hrefreshed, _⟩ := hcovered _ _ cover?_twoSprites
  refine ⟨lists_offered w, first, ?_⟩
  cases hrefreshed with
  | kept _ _ _ before _ _ => cases hbefore.symm.trans before
  | written _ _ _ before _ _ _ _ => cases hbefore.symm.trans before
  | attached h _ after _ _ => exact ⟨h, w', hupdate, happly, after⟩

end Boxes

end Cadence
