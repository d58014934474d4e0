import Cadence.Proofs.Engine.Following

/-!
The indexes of the systems follow the world. A system that keeps an index of the components it accepts, and changes it
in the two callbacks for attached and detached components only, has in its index at every call exactly the components
that are attached; between calls it lacks what is still in the queue and nothing else. It makes no difference when the
system was registered.
-/

namespace Cadence

variable {σ ρ ε : Type}

/-! ### Late registration -/

theorem World.get?_of_mem_attached (w : World) : ∀ item ∈ w.store.attached, w.store.get? item.1 = some item.2.2 := by
  rintro ⟨h, owner, c⟩ hmem
  simp [Store.get?, Store.mem_attached.mp hmem]

namespace Catalog

/-- Notes components that are attached already. -/
def offerAll (k : Catalog) (items : List (Handle × Entity × Component)) : Catalog :=
  items.foldl (fun k (h, owner, c) => k.note (.attached h owner) c.kind) k

theorem sound_offerAll {k : Catalog} (hk : k.index.Sound) (items : List (Handle × Entity × Component)) :
    (k.offerAll items).index.Sound := by
  induction items generalizing k with
  | nil => exact hk
  | cons item rest ih => exact ih (sound_note hk ..)

@[simp] theorem accepts_offerAll (k : Catalog) (items : List (Handle × Entity × Component)) :
    (k.offerAll items).accepts = k.accepts := by
  induction items generalizing k with
  | nil => rfl
  | cons item rest ih => exact (ih _).trans (accepts_note ..)

theorem owner?_offerAll {k : Catalog} (hk : k.index.Sound) (items : List (Handle × Entity × Component)) (h : Handle) :
    (k.offerAll items).index.owner? h =
      (k.index.owner? h).or (items.findSome? fun (h', owner, c) =>
        if k.accepts c.kind ∧ h = h' then some owner else none) := by
  induction items generalizing k with
  | nil => simp [offerAll]
  | cons item rest ih =>
    obtain ⟨h', owner, c⟩ := item
    have hrest := ih (sound_note hk (.attached h' owner) c.kind)
    rw [accepts_note] at hrest
    rw [List.findSome?_cons]
    refine hrest.trans ?_
    rw [owner?_note_attached hk]
    dsimp only
    by_cases hcond : k.accepts c.kind ∧ h = h'
    · rw [if_pos hcond, if_pos hcond, hcond.2]
      cases k.index.owner? h' <;> rfl
    · rw [if_neg hcond, if_neg hcond]

/-- An empty index that is offered all attached components lists them. -/
theorem lists_offerAll (accepts : Kind → Bool) (w : World) : (offerAll { accepts } w.store.attached).Lists w := by
  refine ⟨sound_offerAll Index.sound_empty _, fun h => ?_⟩
  rw [owner?_offerAll Index.sound_empty, accepts_offerAll]
  simp only [Index.owner?_empty, Option.none_or]
  cases hfound : w.store.attached.findSome? fun (h', owner, c) =>
      if accepts c.kind ∧ h = h' then some owner else none with
  | some e =>
    obtain ⟨⟨h', owner, c⟩, hmem, hsome⟩ := List.exists_of_findSome?_eq_some hfound
    dsimp only at hsome
    split at hsome
    · rename_i hcond
      cases hsome
      obtain ⟨haccepts, rfl⟩ := hcond
      exact (World.attachedOwner?_eq_some_iff.mpr ⟨c, Store.mem_attached.mp hmem, haccepts⟩).symm
    · cases hsome
  | none =>
    rw [List.findSome?_eq_none_iff] at hfound
    cases howner : w.attachedOwner? accepts h with
    | none => rfl
    | some e =>
      obtain ⟨c, hentry, haccepts⟩ := World.attachedOwner?_eq_some_iff.mp howner
      have := hfound (h, e, c) (Store.mem_attached.mpr hentry)
      simp [haccepts] at this

/-- An index of one kind that has been offered whatever is attached. -/
def offered (k : Kind) (w : World) : Index := (offerAll { accepts := (· == k) } w.store.attached).index

theorem lists_offered (k : Kind) (w : World) : Catalog.Lists ⟨(· == k), offered k w⟩ w := by
  have hlists := lists_offerAll (· == k) w
  refine ⟨hlists.sound, fun h => (hlists.owner?_eq h).trans ?_⟩
  rw [accepts_offerAll]

/-- To be offered components is to hear that they were attached. -/
theorem replay_offers {w : World} {items : List (Handle × Entity × Component)}
    (hstored : ∀ item ∈ items, w.store.get? item.1 = some item.2.2) (k : Catalog) :
    k.replay w (items.map fun item => .attached item.1 item.2.1) = k.offerAll items := by
  induction items generalizing k with
  | nil => rfl
  | cons item rest ih =>
    have hkind : w.kind? item.1 = some item.2.2.kind := by simp [World.kind?_eq_map, hstored item (by simp)]
    have hfirst : k.hear w (.attached item.1 item.2.1) = k.note (.attached item.1 item.2.1) item.2.2.kind := by
      simp [hear, Event.handle, hkind]
    exact (congrArg (replay w · _) hfirst).trans (ih (fun item' hmem => hstored item' (by simp [hmem])) _)

/-- Components that an index does not have are news to it, each of them once. -/
theorem unheard_offers {w : World} {k : Catalog} (hk : k.index.Sound) {items : List (Handle × Entity × Component)}
    (hnodup : (items.map (·.1)).Nodup) (hnone : ∀ item ∈ items, k.index.owner? item.1 = none) :
    k.Unheard w (items.map fun item => .attached item.1 item.2.1) := by
  induction items generalizing k with
  | nil => trivial
  | cons item rest ih =>
    rw [List.map_cons, List.nodup_cons] at hnodup
    refine ⟨?_, ih (sound_hear hk _) hnodup.2 fun item' hmem => ?_⟩
    · rintro h owner ⟨⟩
      exact hnone item (by simp)
    · have hne : item'.1 ≠ item.1 := fun heq => hnodup.1 (heq ▸ List.mem_map_of_mem hmem)
      have hold := hnone item' (by simp [hmem])
      rw [hear]
      split
      · exact hold
      · rw [owner?_note_attached hk, if_neg fun hcond => hne hcond.2]
        exact hold

end Catalog

/-- A system that is offered components hears that they were attached. -/
theorem System.heard_of_offers {sys : System σ ρ ε} {w : World} {items : List (Handle × Entity × Component)}
    (hstored : ∀ item ∈ items, w.store.get? item.1 = some item.2.2) (slot : Slot σ ρ) {host : ε} {left : σ × ε}
    (h : inOrder (Engine.offer sys) (slot.system, host) items = (.ok (), left)) :
    sys.Heard w.store (items.map fun item => .attached item.1 item.2.1) slot { slot with system := left.1 } := by
  induction items generalizing slot host with
  | nil =>
    cases h
    exact .nil slot
  | cons item rest ih =>
    obtain ⟨handle, owner, c⟩ := item
    have hsome : w.store.get? (Event.attached handle owner).handle = some c := hstored (handle, owner, c) (by simp)
    have hrest : ∀ item ∈ rest, w.store.get? item.1 = some item.2.2 := fun item hmem => hstored item (by simp [hmem])
    unfold inOrder Engine.offer at h
    dsimp only at h
    by_cases haccepts : sys.accepts slot.system c
    · rw [if_pos haccepts] at h
      cases hok : (sys.added handle owner c slot.system host).outcome with
      | error fault =>
        rw [hok] at h
        cases h
      | ok _ =>
        rw [hok] at h
        have htold : sys.Told (.attached handle owner) c slot _ := .told host haccepts hok
        exact .cons hsome htold (ih hrest _ h)
    · rw [if_neg haccepts] at h
      exact .cons hsome (.passed (by simpa using haccepts)) (ih hrest slot h)

/-- Systems of which some keep a catalog: `catalog? s` is the catalog of a system with state `s`, if it keeps one. Which
components such a system accepts depends on their kinds, its index changes when it is told of components and at no
other time, and what its callbacks do to the world is routed. Of an index whose table and array disagree nothing is
asked. -/
structure KeepsCatalogs (sys : System σ ρ ε) (catalog? : σ → Option Catalog) : Prop where
  accepts : ∀ {s k}, catalog? s = some k → ∀ c, sys.accepts s c = k.accepts c.kind
  init : ∀ {w phase id s host}, (sys.init w phase id s host).outcome = .ok () →
    catalog? (sys.init w phase id s host).system = catalog? s
  added : ∀ {h owner c s host}, (sys.added h owner c s host).outcome = .ok () →
    catalog? (sys.added h owner c s host).system =
      (catalog? s).map fun k => { k with index := (k.index.insert h owner).2 }
  removed : ∀ {h owner c s host}, (∀ k, catalog? s = some k → k.index.Sound) →
    (sys.removed h owner c s host).outcome = .ok () →
    catalog? (sys.removed h owner c s host).system =
      (catalog? s).map fun k => { k with index := (k.index.remove h).2 }
  update : ∀ ctx dt s host, catalog? (sys.update ctx dt s host).system = catalog? s
  updateSerial : ∀ {ctx dt s host result}, (sys.updateSerial ctx dt s host).outcome = .ok result →
    catalog? (sys.updateSerial ctx dt s host).system = catalog? s ∧
      ctx.world.Edited (sys.updateSerial ctx dt s host).world
  apply : ∀ {result ctx s host}, (sys.apply result ctx s host).outcome = .ok () →
    catalog? (sys.apply result ctx s host).system = catalog? s ∧ ctx.world.Edited (sys.apply result ctx s host).world

namespace KeepsCatalogs

variable {sys : System σ ρ ε} {catalog? : σ → Option Catalog}

/-! ### What a catalog hears -/

theorem told (hsys : KeepsCatalogs sys catalog?) {event : Event} {c : Component} {slot slot' : Slot σ ρ}
    (hsound : ∀ k, catalog? slot.system = some k → k.index.Sound) (h : sys.Told event c slot slot') :
    catalog? slot'.system = (catalog? slot.system).map (·.note event c.kind) := by
  cases h with
  | passed hnot =>
    cases hk : catalog? slot.system with
    | none => rfl
    | some k =>
      rw [hsys.accepts hk] at hnot
      simp [Catalog.note, hnot]
  | told host haccepts hok =>
    have hnote : ∀ k, catalog? slot.system = some k → k.accepts c.kind = true := by
      intro k hk
      rw [← hsys.accepts hk]
      exact haccepts
    cases event with
    | attached h owner =>
      refine (hsys.added hok).trans (Option.map_congr fun k hk => ?_)
      rw [Catalog.note, if_pos (hnote k hk)]
    | detached h owner =>
      refine (hsys.removed hsound hok).trans (Option.map_congr fun k hk => ?_)
      rw [Catalog.note, if_pos (hnote k hk)]

theorem heard (hsys : KeepsCatalogs sys catalog?) {w : World} {events : List Event} {slot slot' : Slot σ ρ}
    (hsound : ∀ k, catalog? slot.system = some k → k.index.Sound) (h : sys.Heard w.store events slot slot') :
    catalog? slot'.system = (catalog? slot.system).map (·.replay w events) := by
  induction h with
  | nil slot => simp [Catalog.replay]
  | @skip event _ _ _ hnone _ ih =>
    have hkind : w.kind? event.handle = none := by simp [World.kind?_eq_map, hnone]
    rw [ih hsound]
    simp [Catalog.replay, Catalog.hear, hkind]
  | @cons event _ c _ _ _ hsome hfirst _ ih =>
    have hkind : w.kind? event.handle = some c.kind := by simp [World.kind?_eq_map, hsome]
    have hfirst := hsys.told hsound hfirst
    rw [ih, hfirst, Option.map_map]
    · simp [Catalog.replay, Catalog.hear, hkind, Function.comp_def]
    · intro k' hk'
      rw [hfirst] at hk'
      obtain ⟨k, hk, rfl⟩ := Option.map_eq_some_iff.mp hk'
      exact Catalog.sound_note (hsound k hk) ..

/-- What outlasts every telling of a component that is news to the system, outlasts all that it hears if that is
news. -/
theorem preserves (hsys : KeepsCatalogs sys catalog?) {P : σ → Prop} {w : World} {events : List Event}
    {slot slot' : Slot σ ρ}
    (hstep : ∀ {event : Event} {c : Component} {slot slot' : Slot σ ρ}, w.store.get? event.handle = some c →
      sys.Told event c slot slot' → (∀ k, catalog? slot.system = some k → k.index.Sound) →
      (∀ k, catalog? slot.system = some k → ∀ h owner, event = .attached h owner → k.index.owner? h = none) →
      P slot.system → P slot'.system)
    (h : sys.Heard w.store events slot slot') (hsound : ∀ k, catalog? slot.system = some k → k.index.Sound)
    (hunheard : ∀ k, catalog? slot.system = some k → k.Unheard w events) (hP : P slot.system) : P slot'.system := by
  induction h with
  | nil => exact hP
  | @skip event events slot _ hnone _ ih =>
    refine ih hsound (fun k hk => ?_) hP
    have hkind : w.kind? event.handle = none := by simp [World.kind?_eq_map, hnone]
    have hrest := (hunheard k hk).2
    rwa [Catalog.hear, hkind] at hrest
  | @cons event events c slot slot₁ _ hsome hfirst _ ih =>
    have hkind : w.kind? event.handle = some c.kind := by simp [World.kind?_eq_map, hsome]
    have hcatalog := hsys.told hsound hfirst
    refine ih ?_ ?_ (hstep hsome hfirst hsound (fun k hk => (hunheard k hk).1) hP)
    all_goals
      intro k' hk'
      rw [hcatalog] at hk'
      obtain ⟨k, hk, rfl⟩ := Option.map_eq_some_iff.mp hk'
    · exact Catalog.sound_note (hsound k hk) ..
    · have hrest := (hunheard k hk).2
      rwa [Catalog.hear, hkind] at hrest

/-- Systems that simulate those that keep indexes keep them too. -/
theorem of_simulates {τ η : Type} {sys' : System τ ρ η} {f : τ → σ} {g : η → ε} (hsys : KeepsCatalogs sys catalog?)
    (h : Simulates sys' sys f g) : KeepsCatalogs sys' fun s => catalog? (f s) where
  accepts {s k} hk c := (h.accepts s c).trans (hsys.accepts hk c)
  init {w phase id s host} hok := by
    have hinit := @hsys.init w phase id (f s) (g host)
    rw [← h.init] at hinit
    exact hinit hok
  added {handle owner c s host} hok := by
    have hadded := @hsys.added handle owner c (f s) (g host)
    rw [← h.added] at hadded
    exact hadded hok
  removed {handle owner c s host} hsound hok := by
    have hremoved := @hsys.removed handle owner c (f s) (g host) hsound
    rw [← h.removed] at hremoved
    exact hremoved hok
  update ctx dt s host := by
    have hupdate := hsys.update ctx dt (f s) (g host)
    rw [← h.update] at hupdate
    exact hupdate
  updateSerial {ctx dt s host result} hok := by
    have hupdate := @hsys.updateSerial ctx dt (f s) (g host) result
    rw [← h.updateSerial] at hupdate
    exact hupdate hok
  apply {result ctx s host} hok := by
    have happly := @hsys.apply result ctx (f s) (g host)
    rw [← h.apply] at happly
    exact happly hok

end KeepsCatalogs

namespace Engine

variable {sys : System σ ρ ε} {catalog? : σ → Option Catalog}

/-! ### The invariant -/

/-- Every catalog is in step with the world: it lists the attached components once it has heard the queue. -/
structure InSync (catalog? : σ → Option Catalog) (e : Engine σ ρ ε) : Prop where
  routable : e.world.Routable
  tracks : ∀ {phase i slot k}, e.slotAt? phase i = some slot → catalog? slot.system = some k → k.Tracks e.world

/-- Nothing is claimed of an engine that is poisoned, or about to be. -/
def SyncAt (catalog? : σ → Option Catalog) : Stage → Engine σ ρ ε → Prop
  | .between, e => e.scheduler.poisoned = false → e.InSync catalog?
  | .broken, _ => True
  | _, e => e.InSync catalog?

theorem inSync_start (settings : Settings.Scheduling) (screen : Screen) (host : ε) :
    (start settings screen host : Engine σ ρ ε).InSync catalog? where
  routable := World.routable_empty
  tracks {phase i slot k} hslot := by simp [slotAt?, start] at hslot

/-- Every index that a system keeps is in step with the world. -/
def Tracking (catalog? : σ → Option Catalog) (w : World) (s : σ) : Prop := ∀ k, catalog? s = some k → k.Tracks w

theorem inSync_iff {e : Engine σ ρ ε} : e.InSync catalog? ↔ e.Followed World.Routable (Tracking catalog?) :=
  ⟨fun h => ⟨h.routable, fun hslot _ hk => h.tracks hslot hk⟩, fun h => ⟨h.sound, fun hslot hk => h.follows hslot _ hk⟩⟩

/-- The flush at the end of a frame releases nothing that an index lists. -/
theorem lasting_tracking (catalog? : σ → Option Catalog) : Lasting World.Edited World.Routable (Tracking catalog?) where
  refl := .refl
  sound_edit := World.Routable.edited
  sound_drain := World.Routable.drain
  sound_flush := World.Routable.flush
  edit hw h hedited k hk := (h k hk).edited hw hedited
  flush hw hevents h k hk := by
    rw [Catalog.tracks_iff_lists (World.events_flush hevents)]
    have hlists := (Catalog.tracks_iff_lists hevents).mp (h k hk)
    exact hlists.congr fun handle => World.attachedOwner?_flush hw.toSound k.accepts handle

/-- A system whose index, if it keeps one, is empty. -/
def IsFresh (catalog? : σ → Option Catalog) (s : σ) : Prop := ∀ k, catalog? s = some k → k.index = {}

/-- A new system with an empty index is offered what is attached, so that it is in step as the others are. -/
theorem tracking_offered (hsys : KeepsCatalogs sys catalog?) {w : World} (hevents : w.events = #[]) {s s' : σ}
    {host host' : ε} (hs : IsFresh catalog? s)
    (hoffers : inOrder (offer sys) (s, host) w.store.attached = (.ok (), s', host')) : Tracking catalog? w s' := by
  intro k' hk'
  let slot : Slot σ ρ := { id := 0, name := "", phase := .early, system := s }
  have hheard := sys.heard_of_offers w.get?_of_mem_attached slot hoffers
  have hsound : ∀ k, catalog? slot.system = some k → k.index.Sound := fun k hk => by
    rw [hs k hk]
    exact Index.sound_empty
  rw [hsys.heard hsound hheard] at hk'
  obtain ⟨⟨accepts, index⟩, hk, rfl⟩ := Option.map_eq_some_iff.mp hk'
  have hempty := hs _ hk
  dsimp only at hempty
  rw [hempty, Catalog.replay_offers w.get?_of_mem_attached]
  exact (Catalog.tracks_iff_lists hevents).mpr (Catalog.lists_offerAll accepts w)

theorem following_tracking (hsys : KeepsCatalogs sys catalog?) :
    Following World.Edited sys (fun _ s => IsFresh catalog? s) World.Routable (Tracking catalog?) where
  toLasting := lasting_tracking catalog?
  register _ hevents hs hinit hoffers :=
    tracking_offered hsys hevents (fun k hk => hs k (hsys.init hinit ▸ hk)) hoffers
  hear _ h hheard k' hk' := by
    rw [hsys.heard (fun k hk => (h k hk).sound) hheard] at hk'
    obtain ⟨k, hk, rfl⟩ := Option.map_eq_some_iff.mp hk'
    exact (h k hk).drain
  update ctx dt s host _ h k hk := h k (hsys.update ctx dt s host ▸ hk)
  updateSerial _ h hok := by
    obtain ⟨hcatalog, hworld⟩ := hsys.updateSerial hok
    exact ⟨fun k hk => h k (hcatalog ▸ hk), hworld⟩
  apply _ h hok := by
    obtain ⟨hcatalog, hworld⟩ := hsys.apply hok
    exact ⟨fun k hk => h k (hcatalog ▸ hk), hworld⟩

theorem InSync.congr {e e' : Engine σ ρ ε} (h : e.InSync catalog?) (hworld : e'.world = e.world)
    (hslots : e'.scheduler.slots = e.scheduler.slots) : e'.InSync catalog? :=
  inSync_iff.mpr ((inSync_iff.mp h).congr hworld hslots)

theorem InSync.edited {e : Engine σ ρ ε} (h : e.InSync catalog?) {world : World} (hworld : e.world.Edited world) :
    { e with world }.InSync catalog? :=
  inSync_iff.mpr ((inSync_iff.mp h).edited (lasting_tracking catalog?) hworld)

/-- A callback that leaves the catalog of its system alone leaves all catalogs in step. -/
theorem InSync.after {e : Engine σ ρ ε} (h : e.InSync catalog?) {phase : Phase} {i : Nat} {slot : Slot σ ρ}
    {world : World} {host : ε} {drawn : Array Primitive} {f : Slot σ ρ → Slot σ ρ}
    (hslot : e.slotAt? phase i = some slot) (hworld : e.world.Edited world)
    (hcatalog : catalog? (f slot).system = catalog? slot.system) :
    (e.after phase i world host drawn f).InSync catalog? :=
  inSync_iff.mpr ((inSync_iff.mp h).after (lasting_tracking catalog?) hslot hworld fun _ hk =>
    h.tracks hslot (hcatalog ▸ hk))

theorem InSync.delivered (hsys : KeepsCatalogs sys catalog?) {e e' : Engine σ ρ ε} (h : e.InSync catalog?)
    (hworld : e'.world = e.world.drain.2) (hhears : Hears sys e.world.events.toList e e') : e'.InSync catalog? :=
  inSync_iff.mpr ((inSync_iff.mp h).delivered (following_tracking hsys) hworld hhears)

theorem InSync.register (hsys : KeepsCatalogs sys catalog?) {e e' : Engine σ ρ ε} (h : e.InSync catalog?)
    (hevents : e.world.events = #[]) {phase : Phase} {slot : Slot σ ρ} {s : σ} {host host' : ε}
    (hs : IsFresh catalog? s)
    (hoffers : inOrder (offer sys) (s, host) e.world.store.attached = (.ok (), slot.system, host'))
    (hworld : e'.world = e.world) (hslots : e'.scheduler.slots = e.scheduler.slots.modify phase (· ++ [slot])) :
    e'.InSync catalog? :=
  inSync_iff.mpr ((inSync_iff.mp h).register (tracking_offered hsys hevents hs hoffers) hworld hslots)

theorem InSync.flushed {e e' : Engine σ ρ ε} (h : e.InSync catalog?) (hevents : e.world.events = #[])
    (hworld : e'.world = e.world.flush.2) (hslots : e'.scheduler.slots = e.scheduler.slots) : e'.InSync catalog? :=
  inSync_iff.mpr ((inSync_iff.mp h).flushed (lasting_tracking catalog?) hevents hworld hslots)

theorem sync_rule (hsys : KeepsCatalogs sys catalog?) :
    Rule sys (fun _ s => IsFresh catalog? s) (SyncAt catalog? : Stage → Engine σ ρ ε → Prop) := by
  have hsame : (SyncAt catalog? : Stage → Engine σ ρ ε → Prop) =
      SoFar (Followed World.Routable (Tracking catalog?)) := by
    funext stage e
    cases stage <;> simp [SyncAt, SoFar, inSync_iff]
  rw [hsame]
  exact following_rule (following_tracking hsys)

end Engine

end Cadence
