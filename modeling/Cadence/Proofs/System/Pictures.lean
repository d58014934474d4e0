import Cadence.Proofs.Engine.Account
import Cadence.Proofs.Index.Listing
import Cadence.Proofs.System.Catalogs

/-!
The painter shows every sprite once or counts it as unseen. From an index that is in step with the world an update of
the late phase draws the sprites that the camera sees, in the order of the index, each for its owner, who is live, and
where the owner's first transform says. In the other phases it fails and nothing is drawn.
-/

namespace Cadence

namespace Painter

open World

variable {p : Painter} {w : World} {e : Entity}

/-! ### One sprite -/

/-- Where a sprite is on the screen: the pixel in its middle, and its size. -/
structure Outline where
  x : Float32
  y : Float32
  width : Float32
  height : Float32

def outline (camera : Camera) (t : Transform) (sprite : Sprite) : Outline where
  x := (camera.toScreen t.x t.y).1
  y := (camera.toScreen t.x t.y).2
  width := sprite.width * t.scale * camera.zoom
  height := sprite.height * t.scale * camera.zoom

def isSeen (camera : Camera) (t : Transform) (sprite : Sprite) : Bool :=
  let box := outline camera t sprite
  camera.sees box.x box.y box.width box.height

/-- The picture of a sprite of an entity that stands as `t` says. -/
def picture (camera : Camera) (e : Entity) (t : Transform) (sprite : Sprite) : Primitive :=
  let box := outline camera t sprite
  { source := some e
    layer := sprite.layer
    shape := .sprite sprite.sprite box.x box.y box.width box.height t.rotation
    color := sprite.color }

theorem paint?_eq (camera : Camera) (e : Entity) (t : Transform) (sprite : Sprite) :
    paint? camera e t sprite = if isSeen camera t sprite then some (picture camera e t sprite) else none := rfl

/-- How an entity stands: as its first transform says, or as the default one if it has none. -/
def stand (w : World) (e : Entity) : Transform := ((w.first? .transform e).map (·.2)).getD {}

/-! ### The sprites of the index -/

/-- The index of a painter. -/
def catalog (p : Painter) : Catalog := ⟨(· == .sprite), p.sprites⟩

/-- Whether the camera sees a sprite with its owner. -/
def shows (camera : Camera) (w : World) (item : Handle × Entity × Sprite) : Bool :=
  isSeen camera (stand w item.2.1) item.2.2

def pictureOf (camera : Camera) (w : World) (item : Handle × Entity × Sprite) : Primitive :=
  picture camera item.2.1 (stand w item.2.1) item.2.2

/-- The pictures of the sprites that the camera sees, in the order of the index. -/
def pictures (p : Painter) (w : World) : List Primitive :=
  ((p.sprites.items w .sprite).filter (shows p.camera w)).map (pictureOf p.camera w)

/-- The number of sprites that the camera does not see. -/
def unseen (p : Painter) (w : World) : Nat := (p.sprites.items w .sprite).countP (!shows p.camera w ·)

theorem sweepEntry_eq {camera : Camera} {entry : Index.Entry} {sprite : Sprite}
    (hget : w.store.getAs? .sprite entry.handle = some sprite) (sweep : Sweep) :
    sweepEntry camera w sweep entry =
      if shows camera w (entry.handle, entry.owner, sprite) then
        (.ok (), { sweep with drawn := sweep.drawn.push (pictureOf camera w (entry.handle, entry.owner, sprite)) })
      else (.ok (), { sweep with culled := sweep.culled + 1 }) := by
  rw [sweepEntry, component_of_getAs? hget, shows, pictureOf, stand]
  cases w.first? .transform entry.owner with
  | none =>
    dsimp only [Option.map_none, Option.getD_none]
    rw [paint?_eq]
    split <;> simp_all
  | some first =>
    obtain ⟨_, t⟩ := first
    dsimp only [Option.map_some, Option.getD_some]
    rw [paint?_eq]
    split <;> simp_all

/-- Of some entries those are drawn whose sprites the camera sees, and the others are counted. -/
theorem inOrder_sweepEntry (camera : Camera) {entries : List Index.Entry}
    (hstored : ∀ entry ∈ entries, ∃ sprite, w.store.getAs? .sprite entry.handle = some sprite) (sweep : Sweep) :
    let items := entries.filterMap fun entry =>
      (w.store.getAs? .sprite entry.handle).map (entry.handle, entry.owner, ·)
    inOrder (sweepEntry camera w) sweep entries =
      (.ok (),
        { drawn := sweep.drawn ++ ((items.filter (shows camera w)).map (pictureOf camera w)).toArray
          culled := sweep.culled + items.countP (!shows camera w ·) }) := by
  induction entries generalizing sweep with
  | nil => simp
  | cons entry rest ih =>
    obtain ⟨sprite, hget⟩ := hstored entry (by simp)
    have hrest := ih fun entry hmem => hstored entry (by simp [hmem])
    rw [inOrder, sweepEntry_eq hget, List.filterMap_cons, hget]
    by_cases hshows : shows camera w (entry.handle, entry.owner, sprite)
    · simp [hshows, hrest]
    · rw [if_neg hshows]
      dsimp only
      rw [hrest]
      simp [hshows, Nat.add_assoc, Nat.add_comm 1]

theorem sweep_eq (hlists : p.catalog.Lists w) :
    p.sweep w = (.ok (), { drawn := (p.pictures w).toArray, culled := p.unseen w }) := by
  have hall := inOrder_sweepEntry p.camera (fun _ => Catalog.Lists.stored hlists) {}
  simpa [sweep, pictures, unseen, Index.items] using hall

/-! ### What is drawn -/

theorem length_pictures_add_unseen (hlists : p.catalog.Lists w) :
    (p.pictures w).length + p.unseen w = p.sprites.size := by
  rw [← Catalog.Lists.length_items hlists, pictures, List.length_map, unseen, ← List.countP_eq_length_filter]
  simpa using (List.length_eq_countP_add_countP (shows p.camera w)).symm

/-- The pictures of one entity are those of its sprites. -/
theorem filter_pictures (p : Painter) (w : World) (e : Entity) :
    (p.pictures w).filter (·.source = some e) =
      ((p.sprites.itemsOf w .sprite e).filter fun s => isSeen p.camera (stand w e) s.2).map
        fun s => picture p.camera e (stand w e) s.2 := by
  rw [pictures, List.filter_map, List.filter_filter, ← List.filterMap_eq_map, List.filterMap_filter,
    ← List.filterMap_eq_map, List.filterMap_filter]
  refine Index.filterMap_items_of_owner (k := .sprite) (fun h sprite => ?_) fun h e' sprite hne => ?_
  · simp [pictureOf, picture, shows]
  · simp [pictureOf, picture, hne]

/-- Of a live entity every sprite that it holds is drawn if the camera sees it. -/
theorem perm_filter_pictures (hw : w.SoundStore) (hlists : p.catalog.Lists w) (hlive : w.isLive e) :
    ((p.pictures w).filter (·.source = some e)).Perm
      (((w.held .sprite e).filter fun s => isSeen p.camera (stand w e) s.2).map
        fun s => picture p.camera e (stand w e) s.2) := by
  rw [filter_pictures]
  exact ((Catalog.Lists.perm_itemsOf hlists hw hlive).filter _).map _

theorem filter_pictures_eq_nil (hw : w.SoundStore) (hlists : p.catalog.Lists w) (hlive : ¬ w.isLive e) :
    (p.pictures w).filter (·.source = some e) = [] := by
  rw [filter_pictures, Catalog.Lists.itemsOf_eq_nil hlists hw hlive]
  rfl

theorem live_of_mem_pictures (hw : w.SoundStore) (hlists : p.catalog.Lists w) {q : Primitive} (hmem : q ∈ p.pictures w) :
    ∃ e, q.source = some e ∧ w.isLive e := by
  obtain ⟨⟨h, e, sprite⟩, hitem, rfl⟩ := List.mem_map.mp hmem
  have hentry := (Index.mem_items.mp (List.mem_filter.mp hitem).1).1
  exact ⟨e, rfl, (Catalog.Lists.live_of_mem hlists hw hentry).1⟩

theorem update_late {ε : Type} (hlists : p.catalog.Lists w) (frame : Nat) (parallel : Bool) (dt : Float32) (host : ε) :
    (system ε).update ⟨w, .late, frame, parallel⟩ dt p host =
      { outcome := .ok none, system := { p with culled := p.unseen w }, host, drawn := (p.pictures w).toArray } := by
  simp only [system, sweep_eq hlists]
  rfl

theorem update_of_ne_late {ε : Type} (hlists : p.catalog.Lists w) {phase : Phase} (hphase : phase ≠ .late) (frame : Nat)
    (parallel : Bool) (dt : Float32) (host : ε) :
    (system ε).update ⟨w, phase, frame, parallel⟩ dt p host =
      { outcome := .error (.submitOutsideLate phase), system := { p with culled := p.unseen w }, host } := by
  simp only [system, sweep_eq hlists, Context.draw, if_neg hphase]

theorem updateSerial_eq {ε : Type} (ctx : Context) (dt : Float32) (p : Painter) (host : ε) :
    (system ε).updateSerial ctx dt p host = { (system ε).update ctx dt p host with world := ctx.world } := rfl

theorem draw_late {σ ρ ε : Type} (e : Engine σ ρ ε) (ps : List Primitive) :
    e.draw .late ps.toArray = { e with screen := e.screen.drawing ps } := rfl

theorem draw_of_ne_late {σ ρ ε : Type} (e : Engine σ ρ ε) {phase : Phase} (hphase : phase ≠ .late)
    (drawn : Array Primitive) : e.draw phase drawn = e := if_neg hphase

/-- Whenever the index of a painter is in step with a world that comes about from the empty one, an update of the late
phase succeeds with no result, on the thread of the scheduler and on a worker alike, and leaves the world alone. Its
engine appends to the active list one picture for each attached sprite that the camera sees, in the order of the index,
and the painter has counted the others, so that every sprite of the index is either drawn or counted. A picture stands
for the owner of its sprite, who is live, and of a live entity all sprites that it holds are drawn or counted; an entity
that has been marked for deletion is not drawn. In the other phases an update fails, whether there was something to draw
or not, and nothing changes on the screen. -/
theorem pictures_partition_sprites {ε : Type} (edits : List (World.Edit Entity Handle)) (p : Painter) (frame : Nat)
    (parallel : Bool) (dt : Float32) (host : ε) (hlists : p.catalog.Lists (World.run .empty edits)) :
    let w := World.run .empty edits
    let drawn := p.pictures w
    let culled := p.unseen w
    ((p.sprites.items w .sprite).map (fun item => (item.1, item.2.1)) = p.sprites.pairs ∧
      (p.sprites.items w .sprite).Perm (w.attachedAs .sprite)) ∧
    drawn.length + culled = p.sprites.size ∧
    ((system ε).update ⟨w, .late, frame, parallel⟩ dt p host =
        { outcome := .ok none, system := { p with culled }, host, drawn := drawn.toArray } ∧
      (system ε).updateSerial ⟨w, .late, frame, parallel⟩ dt p host =
        { outcome := .ok none, system := { p with culled }, host, drawn := drawn.toArray, world := w } ∧
      ∀ (σ ρ ε' : Type) (e : Engine σ ρ ε'),
        (e.draw .late drawn.toArray).screen.active.items = e.screen.active.items ++ drawn.toArray ∧
          (e.draw .late drawn.toArray).screen.presentable = e.screen.presentable) ∧
    ((∀ q ∈ drawn, ∃ e, q.source = some e ∧ w.isLive e) ∧
      (∀ e, w.isLive e → (drawn.filter (·.source = some e)).Perm
        (((w.held .sprite e).filter fun s => isSeen p.camera (stand w e) s.2).map
          fun s => picture p.camera e (stand w e) s.2)) ∧
      ∀ e, ¬ w.isLive e → drawn.filter (·.source = some e) = []) ∧
    ∀ phase, phase ≠ .late →
      (system ε).update ⟨w, phase, frame, parallel⟩ dt p host =
          { outcome := .error (.submitOutsideLate phase), system := { p with culled }, host } ∧
        (system ε).updateSerial ⟨w, phase, frame, parallel⟩ dt p host =
          { outcome := .error (.submitOutsideLate phase), system := { p with culled }, host, world := w } ∧
        ∀ (σ ρ ε' : Type) (e : Engine σ ρ ε') (ps : Array Primitive), e.draw phase ps = e := by
  intro w drawn culled
  have hw : w.SoundStore := (World.sound_run World.sound_empty edits).toSoundStore
  refine ⟨⟨Catalog.Lists.map_items hlists, Catalog.Lists.perm_items hlists⟩, length_pictures_add_unseen hlists,
    ⟨update_late hlists frame parallel dt host, ?_, fun σ ρ ε' e => ?_⟩,
    ⟨fun q => live_of_mem_pictures hw hlists, fun e => perm_filter_pictures hw hlists,
      fun e => filter_pictures_eq_nil hw hlists⟩,
    fun phase hphase => ⟨update_of_ne_late hlists hphase frame parallel dt host, ?_,
      fun σ ρ ε' e ps => draw_of_ne_late e hphase ps⟩⟩
  · rw [updateSerial_eq, update_late hlists]
  · rw [draw_late]
    simp
  · rw [updateSerial_eq, update_of_ne_late hlists hphase]

/-! ### Four sprites -/

/-- A painter that has been offered whatever is attached. -/
def offered (camera : Camera) (w : World) : Painter where
  camera
  sprites := Catalog.offered .sprite w

/-- An entity with two sprites, one with a sprite that is out of sight, and one that has been marked for deletion. -/
def fourSprites : List (World.Edit Entity Handle) :=
  [.spawn false, .attach ⟨0, 0⟩ ⟨.sprite, { sprite := 7, width := 4, height := 4, layer := 3 }⟩,
    .attach ⟨0, 0⟩ ⟨.sprite, { sprite := 8, width := 8, height := 8 }⟩,
    .spawn false, .attach ⟨1, 0⟩ ⟨.transform, { x := 10000 }⟩,
    .attach ⟨1, 0⟩ ⟨.sprite, { sprite := 9, width := 4, height := 4 }⟩,
    .spawn false, .attach ⟨2, 0⟩ ⟨.sprite, { sprite := 10, width := 4, height := 4 }⟩, .mark ⟨2, 0⟩]

/-- Both sprites of the first entity are drawn, that of the second is counted, and that of the third is neither. -/
theorem two_of_four_are_drawn :
    let w := World.run .empty fourSprites
    let p := offered { width := 640, height := 480 } w
    p.catalog.Lists w ∧
      (system Unit).update ⟨w, .late, 1, false⟩ 0 p () =
        { outcome := .ok none, system := { p with culled := 1 }, host := (), drawn := (p.pictures w).toArray } ∧
      ((p.pictures w).filter (·.source = some ⟨0, 0⟩)).length = 2 ∧
      (p.pictures w).filter (·.source = some ⟨2, 0⟩) = [] ∧ (p.pictures w).length = 2 := by
  intro w p
  obtain ⟨⟨_, hperm⟩, hcount, ⟨hupdate, _, _⟩, ⟨_, hheld, hgone⟩, _⟩ :=
    pictures_partition_sprites fourSprites p 1 false 0 () (Catalog.lists_offered .sprite w)
  have hculled : p.unseen w = 1 := (hperm.countP_eq _).trans (by decide +kernel)
  have hsize : p.sprites.size = 3 :=
    (Catalog.Lists.length_items (Catalog.lists_offered .sprite w)).symm.trans (hperm.length_eq.trans rfl)
  rw [hculled, hsize] at hcount
  rw [hculled] at hupdate
  refine ⟨Catalog.lists_offered .sprite w, hupdate, ?_, hgone _ (by decide +kernel), Nat.succ.inj hcount⟩
  exact (hheld _ rfl).length_eq.trans (by decide +kernel)

end Painter

end Cadence
