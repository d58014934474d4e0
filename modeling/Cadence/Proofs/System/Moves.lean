import Cadence.Proofs.Index.Listing
import Cadence.Proofs.System.Safety
import Cadence.Proofs.System.Sight
import Cadence.Proofs.World.Retention

/-!
What becomes of the moves of a frame. Every finite velocity asks for one move, of the first transform of its owner, from
where that stood before the phase. Of several moves of one transform only the last shows, and which is the last depends
on the order of the index. This happens to the entities that have a transform and more than one finite velocity, and to
no others: of the others no move is lost, and the order of the index makes no difference.
-/

namespace Cadence

namespace Motion

open World

variable {m m' : Motion} {w w₁ w' : World} {e : Entity} {h : Handle} {t : Transform} {dt : Float32}
  {moves moves' : List Move}

/-! ### The moves of a frame -/

/-- The index of a motion system. -/
def catalog (m : Motion) : Catalog := ⟨(· == .velocity), m.velocities⟩

/-- The move by which a velocity takes a transform further. -/
def step (dt : Float32) (h : Handle) (t : Transform) (v : Velocity) : Move := ⟨h, t.x + v.dx * dt, t.y + v.dy * dt⟩

/-- The move that a velocity of an entity asks for. -/
def stepOf? (w : World) (dt : Float32) (e : Entity) (v : Velocity) : Option Move :=
  (w.first? .transform e).bind fun (h, t) => if v.isFinite then some (step dt h t v) else none

/-- All moves of a frame, in the order of the index. -/
def steps (m : Motion) (w : World) (dt : Float32) : List Move :=
  (m.velocities.items w .velocity).filterMap fun item => stepOf? w dt item.2.1 item.2.2

/-- The finite velocities of an entity, in the order of the index. -/
def drives (m : Motion) (w : World) (e : Entity) : List (Handle × Velocity) :=
  (m.velocities.itemsOf w .velocity e).filter (·.2.isFinite)

theorem moves_eq (hlists : m.catalog.Lists w) (dt : Float32) : m.moves w dt = .ok (m.steps w dt) := by
  have hmove : ∀ entry ∈ m.velocities.entries.toList, ∃ found, move? w dt entry = .ok found ∧
      some ((w.store.getAs? .velocity entry.handle).bind (stepOf? w dt entry.owner)) = some found := by
    intro entry hmem
    obtain ⟨v, hv⟩ := Catalog.Lists.stored hlists hmem
    refine ⟨_, ?_, rfl⟩
    rw [move?, component_of_getAs? hv, hv, Option.bind_some, stepOf?]
    cases w.first? .transform entry.owner <;> rfl
  rw [moves, mapM_eq_filterMap hmove, steps, Index.items, Except.map, List.filterMap_filterMap, List.filterMap_filterMap]
  congr 1
  refine List.filterMap_congr fun entry _ => ?_
  cases w.store.getAs? .velocity entry.handle <;> rfl

/-- The moves of the first transform of an entity are those that its finite velocities ask for. -/
theorem filter_steps (hw : w.SoundStore) (hfirst : w.first? .transform e = some (h, t)) :
    (m.steps w dt).filter (·.transform = h) = (m.drives w e).map fun p => step dt h t p.2 := by
  rw [steps, List.filter_filterMap, drives, ← List.filterMap_eq_map, List.filterMap_filter]
  refine Index.filterMap_items_of_owner (k := .velocity) (fun h' v => ?_) fun h' e' v hne => ?_
  · rw [stepOf?, hfirst]
    by_cases hfinite : v.isFinite <;> simp [hfinite, step]
  · rw [stepOf?]
    cases hother : w.first? .transform e' with
    | none => rfl
    | some p =>
      obtain ⟨h'', t''⟩ := p
      have hdiffers : h'' ≠ h := by
        rintro rfl
        exact hne (hw.eq_of_first? hfirst hother)
      by_cases hfinite : v.isFinite <;> simp [hfinite, step, hdiffers]

/-- What is moved is the first transform of an entity. -/
theorem first?_of_mem_steps {move : Move} (hmem : move ∈ m.steps w dt) :
    ∃ e t, w.first? .transform e = some (move.transform, t) := by
  obtain ⟨item, _, hmove⟩ := List.mem_filterMap.mp hmem
  obtain ⟨⟨h, t⟩, hfirst, hstep⟩ := Option.bind_eq_some_iff.mp hmove
  dsimp only at hstep
  split at hstep
  · cases hstep
    exact ⟨_, t, hfirst⟩
  · cases hstep

theorem valid_steps (m : Motion) (w : World) (dt : Float32) : Valid w (m.steps w dt) := by
  intro move hmem
  obtain ⟨_, _, hfirst⟩ := first?_of_mem_steps hmem
  exact kind?_of_first? hfirst

theorem filter_steps_eq_nil (hnone : ∀ e t, w.first? .transform e ≠ some (h, t)) :
    (m.steps w dt).filter (·.transform = h) = [] := by
  refine List.filter_eq_nil_iff.mpr fun move hmem => ?_
  rw [decide_eq_true_eq]
  rintro rfl
  obtain ⟨_, _, hfirst⟩ := first?_of_mem_steps hmem
  exact hnone _ _ hfirst

/-! ### Transforms that are moved twice -/

/-- Of a live entity that has a transform one velocity at most is finite. -/
def DrivenOnce (w : World) : Prop :=
  ∀ e, w.isLive e → (w.first? .transform e).isSome → ((w.held .velocity e).filter (·.2.isFinite)).length ≤ 1

theorem perm_drives (hw : w.SoundStore) (hlists : m.catalog.Lists w) (hlive : w.isLive e) :
    (m.drives w e).Perm ((w.held .velocity e).filter (·.2.isFinite)) :=
  (Catalog.Lists.perm_itemsOf hlists hw hlive).filter _

theorem count_transform (moves : List Move) (h : Handle) :
    (moves.map (·.transform)).count h = (moves.filter (·.transform = h)).length := by
  rw [List.count_eq_countP, List.countP_map, ← List.countP_eq_length_filter]
  rfl

theorem nodup_steps_iff (hw : w.SoundStore) (hlists : m.catalog.Lists w) (dt : Float32) :
    ((m.steps w dt).map (·.transform)).Nodup ↔ DrivenOnce w := by
  simp only [List.nodup_iff_count_le_one, count_transform]
  constructor
  · intro hcount e hlive hsome
    obtain ⟨⟨h, t⟩, hfirst⟩ := Option.isSome_iff_exists.mp hsome
    have hle := hcount h
    rw [filter_steps hw hfirst, List.length_map] at hle
    exact (perm_drives hw hlists hlive).length_eq ▸ hle
  · intro honce h
    by_cases howned : ∃ e t, w.first? .transform e = some (h, t)
    · obtain ⟨e, t, hfirst⟩ := howned
      rw [filter_steps hw hfirst, List.length_map]
      by_cases hlive : w.isLive e
      · rw [(perm_drives hw hlists hlive).length_eq]
        exact honce e hlive (by rw [hfirst]; rfl)
      · simp [drives, Catalog.Lists.itemsOf_eq_nil hlists hw hlive]
    · rw [filter_steps_eq_nil fun e t hfirst => howned ⟨e, t, hfirst⟩]
      simp

/-- Two indexes that are in step with one world ask for the same moves, in some order. -/
theorem perm_steps (hlists : m.catalog.Lists w) (hlists' : m'.catalog.Lists w) (dt : Float32) :
    (m.steps w dt).Perm (m'.steps w dt) :=
  ((Catalog.Lists.perm_items hlists).trans (Catalog.Lists.perm_items hlists').symm).filterMap _

/-! ### Making the moves -/

/-- The moves have been made, the later of one transform upon the earlier, and nothing else has changed. -/
structure Moved (moves : List Move) (w w' : World) : Prop where
  frame : w' = { w with store := w'.store }
  releases : w'.store.releases = w.store.releases
  labels : ∀ h, w'.label? h = w.label? h
  others : ∀ h k, k ≠ .transform → w'.store.getAs? k h = w.store.getAs? k h
  transforms : ∀ h, w'.store.getAs? .transform h = (w.store.getAs? .transform h).map fun t =>
    (moves.filter (·.transform = h)).foldl (fun t move => t.moveTo move.x move.y) t

theorem Valid.applyMove (h : Valid w moves) (move : Move) : Valid (applyMove w move).2 moves := by
  intro other hmem
  rw [kind?, Motion.applyMove, label?_modify]
  exact h other hmem

theorem moved_applyMove {move : Move} (hkind : w.kind? move.transform = some .transform) :
    (applyMove w move).1 = .ok () ∧ Moved [move] w (applyMove w move).2 := by
  obtain ⟨t, hget⟩ := getAs?_of_kind? hkind
  have hlabels := label?_modify w .transform move.transform (·.moveTo move.x move.y)
  rw [applyMove]
  rw [modify_of_getAs? hget] at hlabels ⊢
  refine ⟨rfl, rfl, rfl, hlabels, fun h k hne => Store.getAs?_set_of_ne hget _ hne h, fun h => ?_⟩
  rw [Store.getAs?_set_self hget]
  by_cases hh : h = move.transform
  · subst hh
    simp [hget]
  · simp [hh, Ne.symm hh]

theorem Moved.cons {move : Move} (h : Moved [move] w w₁) (h' : Moved moves w₁ w') : Moved (move :: moves) w w' where
  frame := by
    rw [h'.frame, h.frame]
  releases := h'.releases.trans h.releases
  labels handle := (h'.labels handle).trans (h.labels handle)
  others handle k hne := (h'.others handle k hne).trans (h.others handle k hne)
  transforms handle := by
    rw [h'.transforms, h.transforms, Option.map_map]
    congr 1
    funext t
    by_cases hh : move.transform = handle <;> simp [hh]

theorem moved_applyMoves (h : Valid w moves) : (applyMoves w moves).1 = .ok () ∧ Moved moves w (applyMoves w moves).2 := by
  induction moves generalizing w with
  | nil => exact ⟨rfl, rfl, rfl, fun _ => rfl, fun _ _ _ => rfl, fun h => by simp [applyMoves]⟩
  | cons move rest ih =>
    obtain ⟨hmove, hrest⟩ := List.forall_mem_cons.mp h
    obtain ⟨hdone, hmoved⟩ := moved_applyMove hmove
    have hvalid : Valid w rest := hrest
    obtain ⟨hdone', hmoved'⟩ := ih (hvalid.applyMove move)
    rw [applyMoves, inOrder_cons_of_ok hdone]
    exact ⟨hdone', hmoved.cons hmoved'⟩

/-! ### The order of the moves -/

theorem snd_applyMoves (h : Valid w moves) :
    (applyMoves w moves).2 = moves.foldl (fun w move => (applyMove w move).2) w := by
  induction moves generalizing w with
  | nil => rfl
  | cons move rest ih =>
    obtain ⟨hmove, hrest⟩ := List.forall_mem_cons.mp h
    have hvalid : Valid w rest := hrest
    rw [applyMoves, inOrder_cons_of_ok (moved_applyMove hmove).1]
    exact ih (hvalid.applyMove move)

/-- Moves of different transforms may be made in any order. -/
theorem applyMoves_perm (h : Valid w moves) (hnodup : (moves.map (·.transform)).Nodup) (hperm : moves.Perm moves') :
    applyMoves w moves' = applyMoves w moves := by
  have hvalid : Valid w moves' := fun move hmem => h move (hperm.mem_iff.mpr hmem)
  refine Prod.ext ((moved_applyMoves hvalid).1.trans (moved_applyMoves h).1.symm) ?_
  rw [snd_applyMoves hvalid, snd_applyMoves h]
  refine (hperm.foldl_eq' (fun move hmem move' hmem' w => ?_) w).symm
  by_cases hsame : move'.transform = move.transform
  · rw [List.inj_on_of_nodup_map hnodup hmem' hmem hsame]
  · exact modify_comm hsame ..

theorem foldl_moveTo (moves : List Move) (t : Transform) :
    moves.foldl (fun t move => t.moveTo move.x move.y) t =
      moves.getLast?.elim t fun move => t.moveTo move.x move.y := by
  induction moves generalizing t with
  | nil => rfl
  | cons move rest ih =>
    rw [List.foldl_cons, ih, List.getLast?_cons]
    cases rest.getLast? <;> rfl

/-! ### What the moves of a frame come to -/

/-- Where the first transform of an entity is after the moves of a frame: where the last of its finite velocities, in
the order of the index, takes it. -/
theorem Moved.first (hw : w.SoundStore) (hmoved : Moved (m.steps w dt) w₁ w')
    (hfirst : w.first? .transform e = some (h, t)) :
    w'.store.getAs? .transform h = (w₁.store.getAs? .transform h).map fun t₁ =>
      (m.drives w e).getLast?.elim t₁ fun p => t₁.moveTo (t.x + p.2.dx * dt) (t.y + p.2.dy * dt) := by
  rw [hmoved.transforms, filter_steps hw hfirst]
  congr 1
  funext t₁
  rw [foldl_moveTo, List.getLast?_map]
  cases (m.drives w e).getLast? <;> rfl

/-- A transform that is no entity's first is not moved. -/
theorem Moved.other (hmoved : Moved (m.steps w dt) w₁ w') (hnone : ∀ e t, w.first? .transform e ≠ some (h, t)) :
    w'.store.getAs? .transform h = w₁.store.getAs? .transform h := by
  rw [hmoved.transforms, filter_steps_eq_nil hnone]
  exact Option.map_id'

/-- A velocity that is the only finite one of its entity is not overwritten. -/
theorem Moved.arrives (hw : w.SoundStore) (hlists : m.catalog.Lists w) (honce : DrivenOnce w)
    (hvalid : Valid w₁ (m.steps w dt)) (hmoved : Moved (m.steps w dt) w₁ w') (hlive : w.isLive e)
    (hfirst : w.first? .transform e = some (h, t)) {h' : Handle} {v : Velocity} (hheld : (h', v) ∈ w.held .velocity e)
    (hfinite : v.isFinite) :
    ∃ t₁, w₁.store.getAs? .transform h = some t₁ ∧
      w'.store.getAs? .transform h = some (t₁.moveTo (t.x + v.dx * dt) (t.y + v.dy * dt)) := by
  have hperm := perm_drives hw hlists hlive
  have hmem : (h', v) ∈ m.drives w e := hperm.mem_iff.mpr (List.mem_filter.mpr ⟨hheld, hfinite⟩)
  have hlength : (m.drives w e).length ≤ 1 := hperm.length_eq ▸ honce e hlive (by rw [hfirst]; rfl)
  have hdrives : m.drives w e = [(h', v)] := by
    cases hdrives : m.drives w e with
    | nil => simp [hdrives] at hmem
    | cons p rest =>
      rw [hdrives] at hmem hlength
      obtain rfl : rest = [] := List.eq_nil_of_length_eq_zero (by simpa using hlength)
      rw [List.mem_singleton.mp hmem]
  have hstep : step dt h t v ∈ m.steps w dt := by
    have hin : step dt h t v ∈ (m.steps w dt).filter (·.transform = h) := by
      rw [filter_steps hw hfirst, hdrives]
      simp
    exact (List.mem_filter.mp hin).1
  obtain ⟨t₁, hget⟩ := getAs?_of_kind? (hvalid _ hstep)
  refine ⟨t₁, hget, ?_⟩
  have hget' : w₁.store.getAs? .transform h = some t₁ := hget
  rw [hmoved.first hw hfirst, hget', hdrives]
  rfl

theorem update_eq {ε : Type} (hlists : m.catalog.Lists w) (phase : Phase) (frame : Nat) (parallel : Bool) (dt : Float32)
    (host : ε) :
    (system ε).update ⟨w, phase, frame, parallel⟩ dt m host =
      { outcome := .ok (if (m.steps w dt).isEmpty then none else some (m.steps w dt)), system := m, host } := by
  have hmoves := moves_eq hlists dt
  cases hsteps : m.steps w dt <;> rw [hsteps] at hmoves <;> simp only [system, hmoves] <;> rfl

theorem apply_eq {ε : Type} (hvalid : Valid w moves) (phase : Phase) (frame : Nat) (parallel : Bool) (m : Motion)
    (host : ε) :
    (system ε).apply moves ⟨w, phase, frame, parallel⟩ m host =
      { outcome := .ok (), system := m, host, world := (applyMoves w moves).2 } := by
  simp only [system, (moved_applyMoves hvalid).1]
  rfl

/-- Whenever the index of a motion system is in step with a world that comes about from the empty one, an update hands
back one move for each finite velocity whose owner has a transform, from where that stands now. Two of them are of one
transform exactly if some live entity with a transform has two finite velocities. Whatever is done to the world before
the moves are applied, short of a flush, they all succeed, and change the positions of first transforms only. Such a
transform ends up where the last finite velocity of its owner takes it, last in the order of the index. If no entity is
driven twice, every finite velocity takes the transform of its owner to where it was to go, and a system with another
order of its index leaves the same world. -/
theorem moves_arrive {ε : Type} (edits : List (World.Edit Entity Handle)) (m : Motion) (phase : Phase) (frame : Nat)
    (parallel : Bool) (dt : Float32) (host : ε) (hlists : m.catalog.Lists (World.run .empty edits)) :
    let w := World.run .empty edits
    let moves := m.steps w dt
    (system ε).update ⟨w, phase, frame, parallel⟩ dt m host =
        { outcome := .ok (if moves.isEmpty then none else some moves), system := m, host } ∧
      (∀ e, w.isLive e → (m.drives w e).Perm ((w.held .velocity e).filter (·.2.isFinite))) ∧
      ((moves.map (·.transform)).Nodup ↔ DrivenOnce w) ∧
      ∀ w₁, w.Unflushed w₁ → ∃ w₂,
        (system ε).apply moves ⟨w₁, phase, frame, parallel⟩ m host =
            { outcome := .ok (), system := m, host, world := w₂ } ∧
          Moved moves w₁ w₂ ∧
          (∀ e h t, w.first? .transform e = some (h, t) →
            w₂.store.getAs? .transform h = (w₁.store.getAs? .transform h).map fun t₁ =>
              (m.drives w e).getLast?.elim t₁ fun p => t₁.moveTo (t.x + p.2.dx * dt) (t.y + p.2.dy * dt)) ∧
          (∀ h, (∀ e t, w.first? .transform e ≠ some (h, t)) →
            w₂.store.getAs? .transform h = w₁.store.getAs? .transform h) ∧
          (DrivenOnce w →
            (∀ e h t h' v, w.isLive e → w.first? .transform e = some (h, t) → (h', v) ∈ w.held .velocity e →
              v.isFinite → ∃ t₁, w₁.store.getAs? .transform h = some t₁ ∧
                w₂.store.getAs? .transform h = some (t₁.moveTo (t.x + v.dx * dt) (t.y + v.dy * dt))) ∧
            ∀ m' : Motion, m'.catalog.Lists w →
              (system ε).apply (m'.steps w dt) ⟨w₁, phase, frame, parallel⟩ m' host =
                { outcome := .ok (), system := m', host, world := w₂ }) := by
  intro w moves
  have hw : w.Sound := World.sound_run World.sound_empty edits
  have hstore : w.SoundStore := hw.toSoundStore
  refine ⟨update_eq hlists phase frame parallel dt host, fun e => perm_drives hstore hlists,
    nodup_steps_iff hstore hlists dt, fun w₁ hw₁ => ?_⟩
  -- the transforms that are to be moved are still there
  have hkeeps : w.Keeps w₁ := hw₁.keeps hw
  have hvalid : ∀ m' : Motion, Valid w₁ (m'.steps w dt) := fun m' move hmem =>
    hkeeps _ _ (valid_steps m' w dt move hmem)
  have hmoved : Moved (m.steps w dt) w₁ (applyMoves w₁ moves).2 := (moved_applyMoves (hvalid m)).2
  refine ⟨(applyMoves w₁ moves).2, apply_eq (hvalid m) phase frame parallel m host, hmoved,
    fun e h t => hmoved.first hstore, fun h => hmoved.other, fun honce =>
      ⟨fun e h t h' v hlive hfirst => hmoved.arrives hstore hlists honce (hvalid m) hlive hfirst,
        fun m' hlists' => ?_⟩⟩
  have hnodup := (nodup_steps_iff hstore hlists dt).mpr honce
  rw [apply_eq (hvalid m'), applyMoves_perm (hvalid m) hnodup (perm_steps hlists hlists' dt)]

/-! ### One entity with a transform -/

/-- An entity at (1, 1) with two velocities, one of which is not finite. -/
def oneDrive : List (World.Edit Entity Handle) :=
  [.spawn false, .attach ⟨0, 0⟩ ⟨.transform, { x := 1, y := 1 }⟩, .attach ⟨0, 0⟩ ⟨.velocity, ⟨1 / 0, 0⟩⟩,
    .attach ⟨0, 0⟩ ⟨.velocity, ⟨10, -5⟩⟩]

theorem drivenOnce_oneDrive : DrivenOnce (World.run .empty oneDrive) := by
  intro e hlive _
  have hmem := mem_liveEntities.mpr (isLive_iff.mp hlive)
  have hall : ∀ e ∈ (World.run .empty oneDrive).liveEntities,
      (((World.run .empty oneDrive).held .velocity e).filter (·.2.isFinite)).length ≤ 1 := by decide +kernel
  exact hall e hmem

/-- Half a second takes it to (6, -1.5). -/
theorem finite_velocity_arrives :
    let w := World.run .empty oneDrive
    let m : Motion := ⟨Catalog.offered .velocity w⟩
    m.catalog.Lists w ∧ w.Unflushed w ∧ DrivenOnce w ∧ ∃ w₂,
      (system Unit).apply (m.steps w 0.5) ⟨w, .early, 1, false⟩ m () =
        { outcome := .ok (), system := m, host := (), world := w₂ } ∧
      w₂.store.getAs? .transform ⟨1, 1⟩ = some { x := 6, y := -1.5 } := by
  intro w m
  have hlists : m.catalog.Lists w := Catalog.lists_offered .velocity w
  obtain ⟨_, _, _, hafter⟩ := moves_arrive oneDrive m .early 1 false 0.5 () hlists
  obtain ⟨w₂, happly, _, _, _, honce⟩ := hafter w (.refl w)
  refine ⟨hlists, .refl w, drivenOnce_oneDrive, w₂, happly, ?_⟩
  obtain ⟨t₁, hbefore, hget⟩ := (honce drivenOnce_oneDrive).1 ⟨0, 0⟩ ⟨1, 1⟩ { x := 1, y := 1 } ⟨3, 1⟩ ⟨10, -5⟩ rfl rfl
    (.tail _ (.head _)) (by decide +kernel)
  obtain rfl : { x := 1, y := 1 } = t₁ := Option.some.inj hbefore
  have hx : (1 : Float32) + 10 * 0.5 = 6 := by decide +kernel
  have hy : (1 : Float32) + -5 * 0.5 = -1.5 := by decide +kernel
  rw [hget]
  simp [Transform.moveTo, hx, hy]

/-- An entity at the origin with three velocities, the first of which is detached again. -/
def threeDrives : List (World.Edit Entity Handle) :=
  [.spawn false, .attach ⟨0, 0⟩ ⟨.transform, {}⟩, .attach ⟨0, 0⟩ ⟨.velocity, ⟨2, 0⟩⟩,
    .attach ⟨0, 0⟩ ⟨.velocity, ⟨1, 0⟩⟩, .attach ⟨0, 0⟩ ⟨.velocity, ⟨0, 0⟩⟩, .detach ⟨2, 1⟩]

theorem soundStore_threeDrives : (World.run .empty threeDrives).SoundStore :=
  (World.sound_run World.sound_empty threeDrives).toSoundStore

theorem first?_threeDrives : (World.run .empty threeDrives).first? .transform ⟨0, 0⟩ = some (⟨1, 1⟩, {}) := rfl

/-- A motion system that has heard of everything as it was done. -/
def early : Motion := ⟨(Catalog.replay (World.run .empty threeDrives) { accepts := (· == .velocity) }
  (World.run .empty threeDrives).events.toList).index⟩

/-- One that has been registered afterwards. -/
def late : Motion := ⟨Catalog.offered .velocity (World.run .empty threeDrives)⟩

theorem lists_early : early.catalog.Lists (World.run .empty threeDrives) := by
  have hrouted : ∀ edit ∈ threeDrives, edit.IsRouted := by simp [threeDrives, World.Edit.IsRouted]
  have hempty : Catalog.Tracks { accepts := (· == .velocity) } World.empty :=
    (Catalog.tracks_iff_lists rfl).mpr (Catalog.lists_offered .velocity .empty)
  have hlists := (hempty.edited routable_empty ⟨threeDrives, hrouted, rfl⟩).lists
  refine ⟨hlists.sound, fun h => (hlists.owner?_eq h).trans ?_⟩
  rw [Catalog.accepts_replay]
  rfl

theorem drives_early :
    early.drives (World.run .empty threeDrives) ⟨0, 0⟩ = [(⟨4, 1⟩, ⟨0, 0⟩), (⟨3, 1⟩, ⟨1, 0⟩)] := by
  have hindex : early.velocities = ((((Index.insert {} ⟨2, 1⟩ ⟨0, 0⟩).2.insert ⟨3, 1⟩ ⟨0, 0⟩).2.insert
      ⟨4, 1⟩ ⟨0, 0⟩).2.remove ⟨2, 1⟩).2 := rfl
  have hentries : early.velocities.entries = #[⟨⟨4, 1⟩, ⟨0, 0⟩⟩, ⟨⟨3, 1⟩, ⟨0, 0⟩⟩] := by
    rw [hindex]
    simp [Index.insert, Index.remove, Std.HashMap.getElem_insert, Array.swapIfInBounds, Array.swap]
  rw [drives, Index.itemsOf, hentries]
  rfl

theorem drives_late :
    late.drives (World.run .empty threeDrives) ⟨0, 0⟩ = [(⟨3, 1⟩, ⟨1, 0⟩), (⟨4, 1⟩, ⟨0, 0⟩)] := by
  have hindex : late.velocities = ((Index.insert {} ⟨3, 1⟩ ⟨0, 0⟩).2.insert ⟨4, 1⟩ ⟨0, 0⟩).2 := rfl
  have hentries : late.velocities.entries = #[⟨⟨3, 1⟩, ⟨0, 0⟩⟩, ⟨⟨4, 1⟩, ⟨0, 0⟩⟩] := by
    rw [hindex]
    simp [Index.insert]
  rw [drives, Index.itemsOf, hentries]
  rfl

/-- A system that finds a finite velocity hands its moves back. -/
theorem outcome_threeDrives (hlists : m.catalog.Lists (World.run .empty threeDrives))
    (hdrives : m.drives (World.run .empty threeDrives) ⟨0, 0⟩ ≠ []) :
    ((system Unit).update ⟨World.run .empty threeDrives, .early, 1, false⟩ 1 m ()).outcome =
      .ok (some (m.steps (World.run .empty threeDrives) 1)) := by
  have hsome : m.steps (World.run .empty threeDrives) 1 ≠ [] := by
    intro hnil
    have hnone : ((m.drives (World.run .empty threeDrives) ⟨0, 0⟩).map fun p => step 1 ⟨1, 1⟩ {} p.2) = [] := by
      rw [← filter_steps soundStore_threeDrives first?_threeDrives, hnil, List.filter_nil]
    exact hdrives (List.map_eq_nil_iff.mp hnone)
  rw [update_eq hlists, if_neg (by simpa using hsome)]

/-- Where the last of the finite velocities takes the transform at the origin in one second. -/
theorem x_threeDrives {drives : List (Handle × Velocity)} {p : Handle × Velocity}
    (hdrives : m.drives (World.run .empty threeDrives) ⟨0, 0⟩ = drives) (hlast : drives.getLast? = some p) :
    (((system Unit).apply (m.steps (World.run .empty threeDrives) 1) ⟨World.run .empty threeDrives, .early, 1, false⟩
      m ()).world.store.getAs? .transform ⟨1, 1⟩).map (·.x) = some (0 + p.2.dx * 1) := by
  have hvalid := valid_steps m (World.run .empty threeDrives) 1
  rw [apply_eq hvalid, (moved_applyMoves hvalid).2.first soundStore_threeDrives first?_threeDrives, hdrives, hlast]
  rfl

/-- Two velocities of one entity ask for two moves of one transform, from the same place. The second overwrites the
first, and which is the second depends on what has been detached before. -/
theorem moves_overwrite_each_other :
    (¬ ∀ (edits : List (World.Edit Entity Handle)) (m : Motion) (dt : Float32) (moves : List Move),
      m.catalog.Lists (World.run .empty edits) →
        ((system Unit).update ⟨World.run .empty edits, .early, 1, false⟩ dt m ()).outcome = .ok (some moves) →
          (moves.map (·.transform)).Nodup) ∧
    ¬ ∀ (edits : List (World.Edit Entity Handle)) (m m' : Motion) (dt : Float32) (moves moves' : List Move),
      m.catalog.Lists (World.run .empty edits) → m'.catalog.Lists (World.run .empty edits) →
        ((system Unit).update ⟨World.run .empty edits, .early, 1, false⟩ dt m ()).outcome = .ok (some moves) →
          ((system Unit).update ⟨World.run .empty edits, .early, 1, false⟩ dt m' ()).outcome = .ok (some moves') →
            ∀ h, ((system Unit).apply moves ⟨World.run .empty edits, .early, 1, false⟩ m ()).world.store.getAs?
                .transform h =
              ((system Unit).apply moves' ⟨World.run .empty edits, .early, 1, false⟩ m' ()).world.store.getAs?
                .transform h := by
  have hlate : late.catalog.Lists (World.run .empty threeDrives) := Catalog.lists_offered .velocity _
  have houtcome := outcome_threeDrives hlate (by rw [drives_late]; exact List.cons_ne_nil _ _)
  constructor
  · intro hnodup
    have honce := (nodup_steps_iff soundStore_threeDrives hlate 1).mp (hnodup threeDrives late 1 _ hlate houtcome)
    have htwo : ((held (World.run .empty threeDrives) .velocity ⟨0, 0⟩).filter (·.2.isFinite)).length = 2 := by
      decide +kernel
    exact absurd (honce ⟨0, 0⟩ rfl rfl) (by rw [htwo]; decide)
  · intro hsame
    have houtcome' := outcome_threeDrives lists_early (by rw [drives_early]; exact List.cons_ne_nil _ _)
    have hget := hsame threeDrives early late 1 _ _ lists_early hlate houtcome' houtcome ⟨1, 1⟩
    have hx : some ((0 : Float32) + 1 * 1) = some (0 + 0 * 1) :=
      calc some ((0 : Float32) + 1 * 1)
        _ = _ := (x_threeDrives drives_early rfl).symm
        _ = _ := congrArg (·.map (·.x)) hget
        _ = some (0 + 0 * 1) := x_threeDrives drives_late rfl
    have hdiffers : (0 : Float32) + 1 * 1 ≠ 0 + 0 * 1 := by decide +kernel
    exact hdiffers (Option.some.inj hx)

end Motion

end Cadence
