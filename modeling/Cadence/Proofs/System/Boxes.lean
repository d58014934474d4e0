import Cadence.Proofs.Engine.Account
import Cadence.Proofs.Engine.Clean
import Cadence.Proofs.Engine.Deletion
import Cadence.Proofs.Engine.Sole
import Cadence.Proofs.World.Single
import Cadence.System.Boxes

/-!
Boxes of which every entity has one at most. When the boxes of an update are made, new bounds are called for only where
an entity lacks them, and for every entity once; until they are applied nobody else attaches any, since the phase has
no other system of this sort.
-/

namespace Cadence

variable {σ ρ ε : Type} {clean : ε → Prop}

/-! ### Systems that attach no bounds -/

/-- Systems that attach no component of kind `k` as long as the host stays clean. -/
structure System.Abstains (clean : ε → Prop) (k : Kind) (sys : System σ ρ ε) : Prop extends NeverCleans clean sys where
  without_updateSerial : ∀ {ctx : Context} {dt s host}, clean (sys.updateSerial ctx dt s host).host →
    ctx.world.Without k (sys.updateSerial ctx dt s host).world
  without_apply : ∀ {result} {ctx : Context} {s host}, clean (sys.apply result ctx s host).host →
    ctx.world.Without k (sys.apply result ctx s host).world

/-- The call attaches no component of kind `k`. -/
def Call.Abstains (k : Kind) (call : Call ρ) : Prop :=
  ∀ visit, call.visit? = some visit → visit.context.world.Without k visit.world

/-- Recorded systems have attached nothing as long as their log does not say otherwise. -/
theorem System.recorded_abstains (sys : System σ ρ ε) (k : Kind) :
    sys.recorded.Abstains (fun host => ∀ call ∈ host.2, call.Abstains k) k where
  toNeverCleans := sys.recorded_neverCleans _
  without_updateSerial h := (List.forall_mem_append.mp h).2 _ (List.mem_singleton_self _) _ rfl
  without_apply h := (List.forall_mem_append.mp h).2 _ (List.mem_singleton_self _) _ rfl

namespace Boxes

open World

/-! ### Boxes that wait -/

/-- The boxes of a result that has not been applied: no two are of one entity, and new bounds are for those who lack
them. -/
structure Timely (w : World) (boxes : List Box) : Prop where
  distinct : (boxes.map (·.entity)).Nodup
  lacking : ∀ box ∈ boxes, box.target = none → w.Lacks .bounds box.entity

variable {w w' : World} {box : Box} {boxes : List Box}

theorem Timely.mono (h : Timely w boxes) (hnone : w.AddsNone .bounds w') : Timely w' boxes :=
  ⟨h.distinct, fun box hmem htarget => (h.lacking box hmem htarget).mono hnone⟩

theorem entities_insertBox (box : Box) (boxes : List Box) :
    (insertBox box boxes).map (·.entity) =
      if box.entity ∈ boxes.map (·.entity) then boxes.map (·.entity) else boxes.map (·.entity) ++ [box.entity] := by
  induction boxes with
  | nil => rfl
  | cons other rest ih =>
    rw [insertBox]
    by_cases hsame : other.entity = box.entity
    · simp [hsame]
    · rw [if_neg hsame, List.map_cons, ih, List.map_cons]
      simp only [List.mem_cons, Ne.symm hsame, false_or]
      split <;> rfl

/-- A box that is widened keeps its entity and its target. -/
theorem mem_insertBox {box' : Box} (hmem : box' ∈ insertBox box boxes) :
    ∃ old ∈ box :: boxes, box'.entity = old.entity ∧ box'.target = old.target := by
  induction boxes with
  | nil => exact ⟨box', hmem, rfl, rfl⟩
  | cons other rest ih =>
    rw [insertBox] at hmem
    split at hmem
    · obtain rfl | hrest := List.mem_cons.mp hmem
      · exact ⟨other, by simp, rfl, rfl⟩
      · exact ⟨box', by simp [hrest], rfl, rfl⟩
    · obtain rfl | hrest := List.mem_cons.mp hmem
      · exact ⟨box', by simp, rfl, rfl⟩
      · obtain ⟨old, hold, heq⟩ := ih hrest
        obtain rfl | hold := List.mem_cons.mp hold
        · exact ⟨old, by simp, heq⟩
        · exact ⟨old, by simp [hold], heq⟩

theorem Timely.insertBox (h : Timely w boxes) (hbox : box.target = none → w.Lacks .bounds box.entity) :
    Timely w (insertBox box boxes) where
  distinct := by
    rw [entities_insertBox]
    split
    · exact h.distinct
    · rename_i hnot
      exact List.nodup_append.mpr ⟨h.distinct, List.nodup_singleton _, by
        rintro entity hmem _ hsingle rfl
        exact hnot (List.mem_singleton.mp hsingle ▸ hmem)⟩
  lacking box' hmem htarget := by
    obtain ⟨old, hold, hentity, hsame⟩ := mem_insertBox hmem
    rw [hsame] at htarget
    rw [hentity]
    obtain rfl | hold := List.mem_cons.mp hold
    · exact hbox htarget
    · exact h.lacking old hold htarget

/-- The box around a sprite is to be new only where its entity has none. -/
theorem lacks_of_box? (hw : w.Sound) {entry : Index.Entry} (hbox : box? w entry = .ok (some box))
    (htarget : box.target = none) : w.Lacks .bounds box.entity := by
  rw [box?] at hbox
  split at hbox
  · cases hbox
  · obtain ⟨_, _, rfl⟩ := Option.map_eq_some_iff.mp (Except.ok.inj hbox)
    exact lacks_of_first? hw (Option.map_eq_none_iff.mp htarget)

theorem mem_of_mapM_eq_ok {α β δ : Type} {f : α → Except δ β} {xs : List α} {ys : List β} (h : xs.mapM f = .ok ys)
    {y : β} (hmem : y ∈ ys) : ∃ x ∈ xs, f x = .ok y := by
  induction xs generalizing ys with
  | nil =>
    cases h
    cases hmem
  | cons x rest ih =>
    rw [List.mapM_cons] at h
    cases hx : f x with
    | error err =>
      rw [hx] at h
      cases h
    | ok y' =>
      cases hrest : rest.mapM f with
      | error err =>
        rw [hx, hrest] at h
        cases h
      | ok ys' =>
        rw [hx, hrest] at h
        cases h
        obtain rfl | hmem := List.mem_cons.mp hmem
        · exact ⟨x, by simp, hx⟩
        · obtain ⟨x', hx', hy⟩ := ih hrest hmem
          exact ⟨x', by simp [hx'], hy⟩

/-- What an update hands back is timely in the world that it was made from. -/
theorem timely_boxes (hw : w.Sound) {b : Boxes} (h : b.boxes w = .ok boxes) : Timely w boxes := by
  obtain ⟨found, hfound, rfl⟩ := exists_of_map_eq_ok h
  have hlacks : ∀ box ∈ found.filterMap id, box.target = none → w.Lacks .bounds box.entity := by
    intro box hmem htarget
    obtain ⟨_, hmem, rfl⟩ := List.mem_filterMap.mp hmem
    obtain ⟨entry, _, hbox⟩ := mem_of_mapM_eq_ok hfound hmem
    exact lacks_of_box? hw hbox htarget
  have hall : Timely w ((found.filterMap id).foldl (fun boxes box => Boxes.insertBox box boxes) []) := by
    revert hlacks
    have hnone : Timely w [] := ⟨List.nodup_nil, by simp⟩
    revert hnone
    generalize found.filterMap id = found, ([] : List Box) = boxes
    induction found generalizing boxes with
    | nil => exact fun h _ => h
    | cons box rest ih =>
      intro h hlacks
      obtain ⟨hbox, hrest⟩ := List.forall_mem_cons.mp hlacks
      exact ih _ (h.insertBox hbox) hrest
  exact ⟨(List.filter_sublist.map _).nodup hall.distinct,
    fun box hmem => hall.lacking box (List.mem_of_mem_filter hmem)⟩

/-! ### Boxes that are applied -/

theorem applyBox_single (h : w.Single .bounds) (hboxes : Timely w (box :: boxes)) :
    (applyBox w box).2.Single .bounds ∧ Timely (applyBox w box).2 boxes := by
  obtain ⟨hfirst, hdistinct⟩ := List.nodup_cons.mp hboxes.distinct
  have hrest : Timely w boxes := ⟨hdistinct, fun box' hmem => hboxes.lacking box' (List.mem_cons_of_mem _ hmem)⟩
  rw [applyBox]
  split
  · cases htarget : box.target with
    | some handle =>
      have hnone : w.AddsNone .bounds (w.modify .bounds handle fun _ => box.bounds).2 :=
        .of_label? (label?_modify w _ _ _)
      exact ⟨h.mono (sound_modify h.toSound ..) hnone, hrest.mono hnone⟩
    | none =>
      have hlacks := hboxes.lacking box List.mem_cons_self htarget
      refine ⟨h.attach hlacks _, hdistinct, fun box' hmem htarget' => ?_⟩
      have hne : box'.entity ≠ box.entity := fun hsame => hfirst (List.mem_map.mpr ⟨box', hmem, hsame⟩)
      exact (hrest.lacking box' hmem htarget').attach h.toSound hne _
  · exact ⟨h, hrest⟩

theorem single_applyBoxes (h : w.Single .bounds) (hboxes : Timely w boxes) :
    (applyBoxes w boxes).2.Single .bounds := by
  induction boxes generalizing w with
  | nil => exact h
  | cons box rest ih =>
    obtain ⟨hsingle, hrest⟩ := applyBox_single h hboxes
    rw [applyBoxes, inOrder]
    rcases hresult : applyBox w box with ⟨err | _, w'⟩ <;> rw [hresult] at hsingle hrest
    · exact hsingle
    · exact ih hsingle hrest

/-! ### Callbacks -/

variable {other : System σ ρ ε}

theorem timely_update {ctx : Context} {dt : Float32} {b : Boxes} {host : ε} (hw : ctx.world.Sound)
    (hok : ((system ε).update ctx dt b host).outcome = .ok (some boxes)) : Timely ctx.world boxes := by
  simp only [system] at hok
  split at hok
  · cases hok
  · cases hok
  · cases hok
    exact timely_boxes hw ‹_›

/-- Only systems that keep boxes answer boxes. -/
theorem timely_update_sum {ctx : Context} {dt : Float32} {x : Boxes ⊕ σ} {host : ε} (hw : ctx.world.Sound)
    (hok : (((system ε).sum other).update ctx dt x host).outcome = .ok (some (.inl boxes))) :
    Timely ctx.world boxes := by
  cases x with
  | inl b =>
    obtain ⟨result, hresult, heq⟩ := exists_of_map_eq_ok hok
    obtain ⟨_, rfl, heq⟩ := Option.map_eq_some_iff.mp heq
    cases heq
    exact timely_update hw hresult
  | inr s =>
    obtain ⟨result, _, heq⟩ := exists_of_map_eq_ok hok
    obtain ⟨_, _, ⟨⟩⟩ := Option.map_eq_some_iff.mp heq

theorem timely_updateSerial_sum {ctx : Context} {dt : Float32} {x : Boxes ⊕ σ} {host : ε} (hw : ctx.world.Sound)
    (hok : (((system ε).sum other).updateSerial ctx dt x host).outcome = .ok (some (.inl boxes))) :
    Timely (((system ε).sum other).updateSerial ctx dt x host).world boxes := by
  cases x with
  | inl b =>
    have hupdate : (((system ε).sum other).update ctx dt (.inl b) host).outcome = .ok (some (.inl boxes)) := hok
    exact timely_update_sum hw hupdate
  | inr s =>
    obtain ⟨result, _, heq⟩ := exists_of_map_eq_ok hok
    obtain ⟨_, _, ⟨⟩⟩ := Option.map_eq_some_iff.mp heq

theorem neverCleans (clean : ε → Prop) : (system ε).NeverCleans clean := ⟨id, id, id, id, id, id, id, id, id⟩

theorem neverCleans_sum {k : Kind} (hother : other.Abstains clean k) : ((system ε).sum other).NeverCleans clean :=
  (neverCleans clean).sum hother.toNeverCleans

theorem without_updateSerial_sum (hother : other.Abstains clean .bounds) {ctx : Context} {dt : Float32} {x : Boxes ⊕ σ}
    {host : ε} (hclean : clean (((system ε).sum other).updateSerial ctx dt x host).host) :
    ctx.world.Without .bounds (((system ε).sum other).updateSerial ctx dt x host).world := by
  cases x with
  | inl b => exact .refl ctx.world
  | inr s => exact hother.without_updateSerial hclean

/-- A result that is applied holds boxes of a system that keeps them, or attaches no bounds. -/
theorem apply_sum_cases (hother : other.Abstains clean .bounds) {result : List Box ⊕ ρ} {ctx : Context} {x : Boxes ⊕ σ}
    {host : ε} (hclean : clean (((system ε).sum other).apply result ctx x host).host) :
    ctx.world.Without .bounds (((system ε).sum other).apply result ctx x host).world ∨
      ∃ boxes, result = .inl boxes ∧ x.isLeft = true ∧
        (((system ε).sum other).apply result ctx x host).world = (applyBoxes ctx.world boxes).2 := by
  cases result with
  | inl boxes =>
    cases x with
    | inl b => exact .inr ⟨boxes, rfl, rfl, rfl⟩
    | inr s => exact .inl (.refl ctx.world)
  | inr r =>
    cases x with
    | inl b => exact .inl (.refl ctx.world)
    | inr s => exact .inl (hother.without_apply hclean)

theorem handOff_sum_eq_inl {result : Option (List Box ⊕ ρ)} {host : ε}
    (h : (((system ε).sum other).handOff result host).1 = some (.inl boxes)) : result = some (.inl boxes) := by
  cases result with
  | none => cases h
  | some result =>
    cases result with
    | inl boxes' => exact h
    | inr r => cases h

/-- A system that keeps boxes does so for good. -/
theorem keepsSorts_sum (other : System σ ρ ε) : ((system ε).sum other).KeepsSorts Sum.isLeft := by
  intro side
  constructor
  case apply =>
    intro result ctx x host hx
    cases result <;> cases x <;> exact hx
  all_goals
    intros
    rename_i x _ hx
    cases x <;> exact hx

end Boxes

/-! ### An engine with boxes -/

namespace Engine

open Boxes

variable {other : System σ ρ ε} {waits waits' : Phase → Nat → Prop}
  {e e' : Engine (Boxes ⊕ σ) (List Boxes.Box ⊕ ρ) ε}

/-- No entity has two boxes, no phase two systems that keep boxes, and the boxes that wait where `waits` says so are
timely. -/
structure Boxed (waits : Phase → Nat → Prop) (e : Engine (Boxes ⊕ σ) (List Boxes.Box ⊕ ρ) ε) : Prop where
  single : e.world.Single .bounds
  sole : e.Sole Sum.isLeft "bounds"
  timely : ∀ {phase i slot boxes}, waits phase i → e.slotAt? phase i = some slot → slot.system.isLeft = true →
    slot.pending = some (.inl boxes) → Timely e.world boxes

/-- Boxes wait in the slots that have been updated and whose results have not been applied. -/
def BoxedAt : Stage → Engine (Boxes ⊕ σ) (List Boxes.Box ⊕ ρ) ε → Prop
  | .updating phase done failed => Boxed fun phase' i => failed = false ∧ phase' = phase ∧ i < done
  | .applying phase done => Boxed fun phase' i => phase' = phase ∧ done ≤ i
  | _ => Boxed fun _ _ => False

namespace Boxed

theorem idle (hsingle : e.world.Single .bounds) (hsole : e.Sole Sum.isLeft "bounds") :
    e.Boxed fun _ _ => False where
  single := hsingle
  sole := hsole
  timely hwaits := hwaits.elim

theorem start (settings : Settings.Scheduling) (screen : Screen) (host : ε) :
    (Engine.start settings screen host : Engine (Boxes ⊕ σ) (List Boxes.Box ⊕ ρ) ε).Boxed fun _ _ => False :=
  idle (World.single_empty .bounds) (.of_no_slots rfl)

theorem congr (h : e.Boxed waits) (hworld : e'.world = e.world) (hslots : e'.scheduler.slots = e.scheduler.slots)
    (hnames : e'.scheduler.names = e.scheduler.names) (hwaits : ∀ phase i, waits' phase i → waits phase i) :
    e'.Boxed waits' where
  single := hworld ▸ h.single
  sole := h.sole.same (.of_slots hslots hnames)
  timely hw hslot hleft hpending := by
    rw [slotAt?_congr hslots] at hslot
    rw [hworld]
    exact h.timely (hwaits _ _ hw) hslot hleft hpending

theorem edited (h : e.Boxed waits) {world : World} (hworld : e.world.Without .bounds world) :
    { e with world }.Boxed waits where
  single := h.single.without hworld
  sole := h.sole.same (.of_slots rfl rfl)
  timely hw hslot hleft hpending :=
    (h.timely hw hslot hleft hpending).mono (hworld.addsNone h.single.toSound)

theorem delivered (h : e.Boxed waits) :
    Leaves (fun _ e' => e'.Boxed waits) (fun _ e' => e'.Boxed fun _ _ => False)
      (deliver ((Boxes.system ε).sum other) e) := by
  have hsame := SameSorts.deliver (keepsSorts_sum other) e
  have hleaves := leaves_deliver ((Boxes.system ε).sum other) e
  rcases hresult : deliver ((Boxes.system ε).sum other) e with ⟨err | n, e'⟩ <;> rw [hresult] at hsame hleaves
  · obtain ⟨hworld, _⟩ := hleaves
    exact idle (hworld ▸ h.single.drain) (h.sole.same hsame)
  · obtain ⟨hframe, hhears⟩ := hleaves
    have hworld : e'.world = e.world.drain.2 := hframe.world
    refine ⟨hworld ▸ h.single.drain, h.sole.same hsame, fun {phase i slot' boxes} hw hslot' hleft hpending => ?_⟩
    obtain ⟨slot, hslot, hheard⟩ := hhears.slot hslot'
    have hsort : slot'.system.isLeft = slot.system.isLeft := hsame.slot hslot hslot'
    rw [hheard.frame] at hpending
    rw [hworld]
    exact (h.timely hw hslot (hsort ▸ hleft) hpending).mono (.refl _ e.world)

/-- A callback that attaches no bounds leaves the boxes that wait timely. -/
theorem after (h : e.Boxed waits) {phase : Phase} {i : Nat} {slot : Slot (Boxes ⊕ σ) (List Boxes.Box ⊕ ρ)}
    {world : World} {host : ε} {drawn : Array Primitive}
    {f : Slot (Boxes ⊕ σ) (List Boxes.Box ⊕ ρ) → Slot (Boxes ⊕ σ) (List Boxes.Box ⊕ ρ)}
    (hslot : e.slotAt? phase i = some slot) (hworld : e.world.Without .bounds world)
    (hsort : (f slot).system.isLeft = slot.system.isLeft)
    (hself : ∀ boxes, waits' phase i → (f slot).pending = some (.inl boxes) → Timely world boxes)
    (hwaits : ∀ phase' j, ¬ (phase' = phase ∧ j = i) → waits' phase' j → waits phase' j) :
    (e.after phase i world host drawn f).Boxed waits' := by
  refine ⟨?_, h.sole.same (.after hslot world host drawn hsort),
    fun {phase' j slot' boxes} hw hslot' hleft hpending => ?_⟩
  · rw [world_after]
    exact h.single.without hworld
  · rw [world_after]
    obtain ⟨rfl, rfl, rfl⟩ | ⟨hne, hold⟩ := slotAt?_after_cases world host drawn f hslot hslot'
    · exact hself boxes hw hpending
    · exact (h.timely (hwaits _ _ hne hw) hold hleft hpending).mono (hworld.addsNone h.single.toSound)

/-- Boxes that are applied are gone, and there is no other system in the phase whose boxes would wait. -/
theorem applied (h : e.Boxed waits) {phase : Phase} {i : Nat} {slot : Slot (Boxes ⊕ σ) (List Boxes.Box ⊕ ρ)}
    {boxes : List Boxes.Box} {host : ε} {drawn : Array Primitive}
    {f : Slot (Boxes ⊕ σ) (List Boxes.Box ⊕ ρ) → Slot (Boxes ⊕ σ) (List Boxes.Box ⊕ ρ)}
    (hslot : e.slotAt? phase i = some slot) (hleft : slot.system.isLeft = true)
    (hboxes : Timely e.world boxes) (hsort : (f slot).system.isLeft = slot.system.isLeft)
    (hwaits : ∀ phase' j, waits' phase' j → phase' = phase ∧ j ≠ i) :
    (e.after phase i (applyBoxes e.world boxes).2 host drawn f).Boxed waits' := by
  refine ⟨?_, h.sole.same (.after hslot _ host drawn hsort), fun {phase' j slot' boxes'} hw hslot' hleft' _ => ?_⟩
  · rw [world_after]
    exact single_applyBoxes h.single hboxes
  · obtain ⟨rfl, hne⟩ := hwaits _ _ hw
    obtain ⟨_, hj, _⟩ | ⟨_, hold⟩ := slotAt?_after_cases _ host drawn f hslot hslot'
    · exact absurd hj hne
    · exact absurd (h.sole.position_eq hold hslot hleft' hleft) hne

/-- Whatever a system makes of the result that waits in its slot, no entity gets a second box. -/
theorem settled (hother : other.Abstains clean .bounds) {phase : Phase} {i : Nat}
    {slot : Slot (Boxes ⊕ σ) (List Boxes.Box ⊕ ρ)} {result : List Boxes.Box ⊕ ρ}
    (h : e.Boxed fun phase' j => phase' = phase ∧ i ≤ j) (hslot : e.slotAt? phase i = some slot)
    (hpending : slot.pending = some result)
    (hclean : clean (((Boxes.system ε).sum other).apply result (e.context phase false) slot.system e.host).host)
    (hwaits : ∀ phase' j, waits' phase' j → phase' = phase ∧ i < j) :
    let reply := ((Boxes.system ε).sum other).apply result (e.context phase false) slot.system e.host
    (e.after phase i reply.world reply.host reply.drawn
      ({ · with pending := none, system := reply.system })).Boxed waits' := by
  intro reply
  have hsort : reply.system.isLeft = slot.system.isLeft := (keepsSorts_sum other _).apply rfl
  obtain hworld | ⟨boxes, rfl, hleft, hworld⟩ := apply_sum_cases hother hclean
  · refine h.after hslot hworld hsort (fun boxes _ hnone => nomatch hnone) fun phase' j _ hw => ?_
    exact ⟨(hwaits phase' j hw).1, Nat.le_of_lt (hwaits phase' j hw).2⟩
  · have hboxes : Timely e.world boxes := h.timely ⟨rfl, Nat.le_refl i⟩ hslot hleft hpending
    have hworld : reply.world = (applyBoxes e.world boxes).2 := hworld
    rw [hworld]
    refine h.applied hslot hleft hboxes hsort fun phase' j hw => ?_
    exact ⟨(hwaits phase' j hw).1, Nat.ne_of_gt (hwaits phase' j hw).2⟩

end Boxed

/-- Boxes are as they should be, as long as the host says that nobody else has attached bounds. -/
def BoxedWhile (clean : ε → Prop) (stage : Stage) (e : Engine (Boxes ⊕ σ) (List Boxes.Box ⊕ ρ) ε) : Prop :=
  clean e.host → BoxedAt stage e

theorem boxed_rule (hother : other.Abstains clean .bounds) :
    RuleFor (World.Without .bounds) ((Boxes.system ε).sum other) (fun _ _ => True)
      (BoxedWhile clean : Stage → Engine (Boxes ⊕ σ) (List Boxes.Box ⊕ ρ) ε → Prop) where
  deliver {stage e} h := by
    have hbefore : clean (deliver ((Boxes.system ε).sum other) e).2.host → BoxedAt stage e := fun hclean =>
      h ((neverCleans_sum hother).deliver hclean)
    have hdelivered : BoxedAt stage e → Leaves (fun _ e' => BoxedAt stage e') (fun _ e' => BoxedAt .broken e')
        (deliver ((Boxes.system ε).sum other) e) := by
      cases stage <;> exact Boxed.delivered
    rcases hresult : deliver ((Boxes.system ε).sum other) e with ⟨err | n, e'⟩ <;>
      rw [hresult] at hbefore hdelivered <;> exact fun hclean => hdelivered (hbefore hclean)
  begin {phase e} h _ hclean := by
    have hhost : (e.beginPhase phase).host = e.host := by
      unfold beginPhase
      split <;> rfl
    refine Boxed.congr (h (hhost ▸ hclean)) ?_ ?_ ?_ fun _ _ hw => absurd hw.2.2 (Nat.not_lt_zero _) <;>
      unfold beginPhase <;> split <;> rfl
  serial {phase dt i e slot reply result} h _ hslot hreply hok hclean := by
    subst hreply
    rw [host_after] at hclean
    have hboxed : e.Boxed _ := h ((neverCleans_sum hother).updateSerial hclean)
    refine hboxed.after hslot (without_updateSerial_sum hother hclean) ((keepsSorts_sum other _).updateSerial rfl)
      (fun boxes _ hpending => ?_) ?_
    · cases hpending
      exact timely_updateSerial_sum hboxed.single.toSound hok
    · rintro phase' j hne ⟨_, rfl, hj⟩
      exact ⟨rfl, rfl, Nat.lt_of_le_of_ne (Nat.le_of_lt_succ hj) fun hji => hne ⟨rfl, hji⟩⟩
  serial_error {phase dt i e slot reply fault} h _ hslot hreply _ hclean := by
    subst hreply
    rw [host_after] at hclean
    have hboxed : e.Boxed _ := h ((neverCleans_sum hother).updateSerial hclean)
    exact hboxed.after hslot (without_updateSerial_sum hother hclean) ((keepsSorts_sum other _).updateSerial rfl)
      (fun _ hw => hw.elim) fun _ _ _ hw => hw.elim
  worker {phase dt i failed e slot reply result} h _ hslot hreply hok hclean := by
    subst hreply
    rw [host_after] at hclean
    have hboxed : e.Boxed _ := h ((neverCleans_sum hother).update ((neverCleans_sum hother).handOff hclean))
    refine hboxed.after hslot (.refl _) ((keepsSorts_sum other _).update rfl) (fun boxes _ hpending => ?_) ?_
    · -- what waits is the copy that was handed off
      obtain rfl := handOff_sum_eq_inl hpending
      exact timely_update_sum hboxed.single.toSound hok
    · rintro phase' j hne ⟨hfailed, rfl, hj⟩
      exact ⟨hfailed, rfl, Nat.lt_of_le_of_ne (Nat.le_of_lt_succ hj) fun hji => hne ⟨rfl, hji⟩⟩
  worker_error {phase dt i failed e slot reply fault} h _ hslot hreply _ hclean := by
    subst hreply
    rw [host_after] at hclean
    have hboxed : e.Boxed _ := h ((neverCleans_sum hother).update hclean)
    exact hboxed.after hslot (.refl _) ((keepsSorts_sum other _).update rfl) (fun _ hw => nomatch hw.1)
      fun _ _ _ hw => nomatch hw.1
  join h hclean := Boxed.congr (h hclean) rfl rfl rfl fun _ _ hw => hw.elim
  turn {phase n e} h hn hclean := by
    have hboxed : e.Boxed _ := h hclean
    refine ⟨hboxed.single, hboxed.sole, fun {phase' i slot boxes} hw hslot hleft hpending => ?_⟩
    obtain ⟨rfl, _⟩ := hw
    -- all systems of the phase have been updated
    have hlt := (List.getElem?_eq_some_iff.mp hslot).1
    rw [length_labels] at hn
    exact hboxed.timely ⟨rfl, rfl, by omega⟩ hslot hleft hpending
  skip h _ _ hclean := Boxed.congr (h hclean) rfl rfl rfl fun _ _ hw => ⟨hw.1, Nat.le_of_succ_le hw.2⟩
  apply {phase i e slot result reply} h _ hslot hpending hreply _ hclean := by
    subst hreply
    rw [host_after] at hclean
    have hboxed : e.Boxed _ := h ((neverCleans_sum hother).apply hclean)
    exact hboxed.settled hother hslot hpending hclean fun _ _ hw => hw
  apply_error {phase i e slot result reply fault} h _ hslot hpending hreply _ hclean := by
    subst hreply
    rw [host_after] at hclean
    have hboxed : e.Boxed _ := h ((neverCleans_sum hother).apply hclean)
    exact hboxed.settled hother hslot hpending hclean fun _ _ hw => hw.elim
  finish {phase n e} h _ hclean := by
    have hboxed : e.Boxed _ := h hclean
    exact .idle hboxed.single (hboxed.sole.same (.of_slots rfl rfl))
  settle h _ := h
  abort {phase e} h hclean := by
    have hboxed : e.Boxed _ := h hclean
    exact .idle hboxed.single (hboxed.sole.same (.abort e phase))
  edit h hworld hclean := Boxed.edited (h hclean) hworld
  host h hrefuses hclean :=
    Boxed.congr (h ((neverCleans_sum hother).refuses hrefuses hclean)) rfl rfl rfl fun _ _ hw => hw
  register {phase x e id host} h _ _ hfresh hinit hoffers hclean := by
    have hboxed : e.Boxed _ := h ((neverCleans_sum hother).init ((neverCleans_sum hother).offers hoffers hclean))
    have hinitial : (((Boxes.system ε).sum other).init e.world phase id x e.host).system.isLeft = x.isLeft :=
      (keepsSorts_sum other x.isLeft).init rfl
    have hleft := (keepsSorts_sum other x.isLeft).attentive.offered hinitial
      (((Boxes.system ε).sum other).init e.world phase id x e.host).host e.world.store.attached
    rw [hoffers] at hleft
    refine .idle hboxed.single (hboxed.sole.register (fun hx => ?_) hfresh rfl rfl)
    rw [hleft] at hx
    cases x with
    | inl b => rfl
    | inr s => cases hx
  endFrame {e screen} h _ hclean := by
    have hboxed : e.Boxed _ := h hclean
    exact .idle hboxed.single.flush (hboxed.sole.same (.of_slots rfl rfl))
  shutdown {e} h hclean := by
    rw [Engine.shutdown] at hclean ⊢
    split
    · rename_i hclosed
      rw [if_pos hclosed] at hclean
      exact h hclean
    · rename_i hclosed
      rw [if_neg hclosed] at hclean
      have hboxed : e.Boxed _ := h ((neverCleans_sum hother).shutdowns hclean)
      exact .idle hboxed.single (.of_no_slots rfl)

/-! ### Runs -/

/-- No operation of a list attaches a component of kind `k` when its turn comes. -/
def Abstain (k : Kind) (sys : System σ ρ ε) (e : Engine σ ρ ε) : List (Op σ) → Prop
  | [] => True
  | op :: rest =>
    (∀ change, op.change? = some change → ¬ e.world.Adds k change) ∧ Abstain k sys (perform sys e op).2 rest

theorem abstain_of_forall {k : Kind} {sys : System σ ρ ε} {e : Engine σ ρ ε} {ops : List (Op σ)}
    (hops : ∀ op ∈ ops, ∀ entity c, op.change? = some (.attach entity c) → c.kind ≠ k) : Abstain k sys e ops := by
  induction ops generalizing e with
  | nil => trivial
  | cons op rest ih =>
    obtain ⟨hop, hrest⟩ := List.forall_mem_cons.mp hops
    refine ⟨?_, ih hrest⟩
    rintro change hchange ⟨entity, c, _, rfl, hkind, _⟩
    exact hop entity c hchange hkind

theorem boxed_perform (hother : other.Abstains clean .bounds) (h : BoxedWhile clean .between e) {op : Op (Boxes ⊕ σ)}
    (hop : ∀ change, op.change? = some change → ¬ e.world.Adds .bounds change) :
    BoxedWhile clean .between (perform ((Boxes.system ε).sum other) e op).2 := by
  by_cases hroute : ∃ event, op = .route event
  · -- what is routed by hand may fail and poison nothing
    obtain ⟨event, rfl⟩ := hroute
    intro hclean
    have hboxed : e.Boxed _ := h ((neverCleans_sum hother).route hclean)
    refine .idle ?_ (hboxed.sole.same (.route (keepsSorts_sum other) e event))
    show (route ((Boxes.system ε).sum other) e event).2.world.Single .bounds
    rw [world_route]
    exact hboxed.single
  · have hedited : e.world.Without .bounds (op.edited e.world) := by
      rw [Op.edited_eq]
      cases hchange : op.change? with
      | none => exact .refl e.world
      | some change => exact .perform (hop change hchange)
    have hkeeps : op.Keeps (World.Without .bounds) (fun _ _ => True) e.world :=
      ⟨hedited, fun _ _ _ => trivial, fun event heq => hroute ⟨event, heq⟩⟩
    exact (boxed_rule hother).between_perform_of_keeps h hkeeps

theorem boxed_run (hother : other.Abstains clean .bounds) (h : BoxedWhile clean .between e)
    {ops : List (Op (Boxes ⊕ σ))} (hops : Abstain .bounds ((Boxes.system ε).sum other) e ops) :
    BoxedWhile clean .between (run ((Boxes.system ε).sum other) e ops) := by
  induction ops generalizing e with
  | nil => exact h
  | cons op rest ih => exact ih (boxed_perform hother h hops.1) hops.2

/-- An engine that a run comes to: its operations leave it, or the operation that follows calls a system in it. -/
inductive Reached (sys : System σ ρ ε) (e : Engine σ ρ ε) (ops : List (Op σ)) : Engine σ ρ ε → Prop
  | left : Reached sys e ops (run sys e ops)
  | calling {op : Op σ} {e' : Engine σ ρ ε} (hcalls : Calls sys (run sys e ops) op e') : Reached sys e ops e'

/-- Where nobody but the systems that keep boxes has attached bounds, no entity has two of them: whatever has become of
its sprites, its transform and its bounds, after every operation and in every callback. The other systems write down
their calls, so that the log says what they have attached. -/
theorem one_box_each (other : System σ ρ ε) (settings : Settings.Scheduling) (screen : Screen) (host : ε)
    (ops : List (Op (Boxes ⊕ Marked σ))) (e : Engine (Boxes ⊕ Marked σ) (List Boxes.Box ⊕ ρ) (ε × List (Call ρ)))
    (hops : Abstain .bounds ((Boxes.system _).sum other.recorded) (start settings screen (host, [])) ops)
    (hreached : Reached ((Boxes.system _).sum other.recorded) (start settings screen (host, [])) ops e)
    (hcalls : ∀ call ∈ e.host.2, call.Abstains .bounds) (entity : Entity) :
    e.world.attachedCount .bounds entity ≤ 1 := by
  have hother := other.recorded_abstains .bounds
  have hboxed := boxed_run hother (fun _ => .start settings screen (host, [])) hops
  cases hreached with
  | left => exact (hboxed hcalls).single.attachedCount_le entity
  | calling hcalling =>
    obtain ⟨⟨_, _, ⟨_, hcall⟩ | hcall⟩, _⟩ := (boxed_rule hother).at_calls hboxed hcalling
    · exact (Boxed.single (hcall hcalls)).attachedCount_le entity
    · exact (Boxed.single (hcall hcalls)).attachedCount_le entity

/-! ### An entity with two sprites -/

/-- Boxes beside a system that detaches a component. -/
abbrev boxesAndDetaching :
    System (Boxes ⊕ Marked Handle) (List Boxes.Box ⊕ Unit) (Unit × List (Call Unit)) :=
  (Boxes.system _).sum detaching.recorded

def twoSprites : List (Op (Boxes ⊕ Marked Handle)) :=
  [.register .early (.inr ⟨⟨4, 1⟩, 0⟩), .register .early (.inl {}), .spawn false,
    .attach ⟨0, 0⟩ ⟨.transform, {}⟩, .attach ⟨0, 0⟩ ⟨.sprite, ⟨0, 2, 2, 0, .white⟩⟩,
    .attach ⟨0, 0⟩ ⟨.sprite, ⟨1, 4, 4, 0, .white⟩⟩]

def spriteWorld : World :=
  let attached (w : World) (c : Component) : World := (w.attach ⟨0, 0⟩ c).2.drain.2
  attached (attached (attached (World.empty.spawn false).2 ⟨.transform, {}⟩)
    ⟨.sprite, ⟨0, 2, 2, 0, .white⟩⟩) ⟨.sprite, ⟨1, 4, 4, 0, .white⟩⟩

/-- The world in which the entity has got its bounds, around both of its sprites. -/
def boxedWorld : World :=
  (Boxes.applyBoxes spriteWorld [⟨⟨0, 0⟩, none, (Bounds.around {} 2 2).union (Bounds.around {} 4 4)⟩]).2.drain.2

def spriteEngine (sprites : Index) :
    Engine (Boxes ⊕ Marked Handle) (List Boxes.Box ⊕ Unit) (Unit × List (Call Unit)) where
  scheduler :=
    { slots := ⟨[{ id := 0, name := "second", phase := .early, system := .inr ⟨⟨4, 1⟩, 0⟩ },
        { id := 1, name := "bounds", phase := .early, system := .inl ⟨sprites⟩ }], [], []⟩
      names := ["second", "bounds"]
      nextId := 2 }
  world := spriteWorld
  screen := {}
  host := ((), [.init 0 (.ok ())])

theorem two_sprites_get_one_box :
    let e := run boxesAndDetaching (start {} {} ((), [])) (twoSprites ++ [.runPhase .early 0 true])
    e.world.attachedCount .bounds ⟨0, 0⟩ = 1 ∧ ∀ entity, e.world.attachedCount .bounds entity ≤ 1 := by
  have hscene : run boxesAndDetaching (start {} {} ((), [])) twoSprites =
      spriteEngine (Index.insert (Index.insert {} ⟨2, 1⟩ ⟨0, 0⟩).2 ⟨3, 1⟩ ⟨0, 0⟩).2 := rfl
  -- the phase reads the entries of the index, never its table
  obtain ⟨positions, hindex⟩ : ∃ positions, (Index.insert (Index.insert {} ⟨2, 1⟩ ⟨0, 0⟩).2 ⟨3, 1⟩ ⟨0, 0⟩).2 =
      ⟨positions, #[⟨⟨2, 1⟩, ⟨0, 0⟩⟩, ⟨⟨3, 1⟩, ⟨0, 0⟩⟩]⟩ :=
    ⟨(Std.HashMap.insert ∅ ⟨2, 1⟩ 0).insert ⟨3, 1⟩ 1, by simp [Index.insert]⟩
  have hworld : (run boxesAndDetaching (spriteEngine ⟨positions, #[⟨⟨2, 1⟩, ⟨0, 0⟩⟩, ⟨⟨3, 1⟩, ⟨0, 0⟩⟩]⟩)
      [.runPhase .early 0 true]).world = boxedWorld := rfl
  have hlog : (run boxesAndDetaching (spriteEngine ⟨positions, #[⟨⟨2, 1⟩, ⟨0, 0⟩⟩, ⟨⟨3, 1⟩, ⟨0, 0⟩⟩]⟩)
      [.runPhase .early 0 true]).host.2 =
        [.init 0 (.ok ()), .update ⟨0, ⟨spriteWorld, .early, 1, true⟩, #[], spriteWorld, .ok none⟩] := rfl
  have hops : Abstain .bounds boxesAndDetaching (start {} {} ((), [])) (twoSprites ++ [.runPhase .early 0 true]) := by
    refine abstain_of_forall ?_
    simp [twoSprites, Op.change?]
  have hcalls : ∀ call ∈ (run boxesAndDetaching (start {} {} ((), []))
      (twoSprites ++ [.runPhase .early 0 true])).host.2, call.Abstains .bounds := by
    rw [run_append, hscene, hindex, hlog]
    intro call hcall visit hvisit
    obtain rfl | rfl : _ ∨ _ := by simpa using hcall
    · cases hvisit
    · cases hvisit
      exact .refl spriteWorld
  have hone : ∀ entity, (run boxesAndDetaching (start {} {} ((), []))
      (twoSprites ++ [.runPhase .early 0 true])).world.attachedCount .bounds entity ≤ 1 :=
    one_box_each detaching {} {} () _ _ hops .left hcalls
  refine ⟨?_, hone⟩
  rw [run_append, hscene, hindex, hworld]
  rfl

end Engine

end Cadence
