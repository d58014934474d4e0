import Cadence.Proofs.Engine.Poison
import Cadence.Proofs.Engine.Safety
import Cadence.Proofs.Index.Listing
import Cadence.Proofs.System.Catalogs

/-!
The systems of this library never fail. What their indexes list is there with the kind they expect, and the handles
that an update hands on to the application of its result find components of the same kinds until the frame ends.
-/

namespace Cadence

/-! ### Reading a world -/

namespace World

theorem component_of_kind? {w : World} {h : Handle} {k : Kind} (hkind : w.kind? h = some k) :
    ∃ data, w.component k h = .ok data := by
  obtain ⟨data, hget⟩ := getAs?_of_kind? hkind
  exact ⟨data, component_of_getAs? hget⟩

theorem kind?_of_first? {w : World} {k : Kind} {e : Entity} {h : Handle} {data : k.Data}
    (hfirst : w.first? k e = some (h, data)) : w.kind? h = some k := by
  obtain ⟨slot, _, hfound⟩ := Option.bind_eq_some_iff.mp hfirst
  obtain ⟨h', _, hget⟩ := List.exists_of_findSome?_eq_some hfound
  obtain ⟨data', has, heq⟩ := Option.map_eq_some_iff.mp hget
  cases heq
  obtain ⟨c, hc, hdata⟩ := Option.bind_eq_some_iff.mp has
  rw [kind?_eq_map, hc, Component.as_eq_some_iff.mp hdata]
  rfl

theorem modify_done {w : World} {k : Kind} {h : Handle} (hkind : w.kind? h = some k) (f : k.Data → k.Data) :
    (w.modify k h f).1 = .ok () := by
  obtain ⟨data, hdata⟩ := component_of_kind? hkind
  rw [modify, hdata]

theorem attach_done {w : World} {e : Entity} (hlive : w.isLive e) (c : Component) : ∃ h, (w.attach e c).1 = .ok h := by
  rw [attach_eq, isLive_iff.mp hlive]
  exact ⟨_, rfl⟩

theorem mark_done {w : World} {e : Entity} (hlive : w.isLive e) : (w.mark e).1 = .ok true := by
  rw [mark_eq, isLive_iff.mp hlive]

/-- Gentle changes are all made if each can be made in a world that has kept what was stored. -/
theorem inOrder_done {α : Type} {step : World → α → Except WorldError Unit × World} {w : World} (hw : w.Sound)
    {xs : List α} (hgently : ∀ w a, World.Gently w (step w a).2)
    (hstep : ∀ w', w.Keeps w' → ∀ a ∈ xs, (step w' a).1 = .ok ()) : (inOrder step w xs).1 = .ok () := by
  have hall : Leaves (fun _ w' => w'.Sound ∧ w.Keeps w') (fun _ _ => False) (inOrder step w xs) := by
    refine leaves_inOrder (I := fun w' => w'.Sound ∧ w.Keeps w') (fun w' a hmem h => ?_) ⟨hw, .refl w⟩
    have hdone := hstep w' h.2 a hmem
    have hedited := (hgently w' a).edited
    have hsound := (hedited.extends h.1).1
    have hkeeps := hedited.keeps h.1
    rcases hresult : step w' a with ⟨err | _, w''⟩
    · rw [hresult] at hdone
      cases hdone
    · rw [hresult] at hsound hkeeps
      exact ⟨hsound, h.2.trans hkeeps⟩
  rcases hresult : inOrder step w xs with ⟨err | _, w'⟩
  · exact (hall.of_error hresult).elim
  · rfl

end World

/-- What a catalog of one kind lists is stored with that kind. -/
theorem Catalog.Lists.kind? {k : Kind} {index : Index} {w : World} (h : Catalog.Lists ⟨(· == k), index⟩ w)
    {entry : Index.Entry} (hentry : entry ∈ index.entries.toList) : w.kind? entry.handle = some k := by
  obtain ⟨data, hdata⟩ := h.mem_entries_iff.mp hentry
  rw [World.kind?, World.label?_eq_of_entry hdata]
  rfl

theorem mapM_done {α β ε : Type} {f : α → Except ε β} {P : β → Prop} {xs : List α}
    (h : ∀ a ∈ xs, ∃ b, f a = .ok b ∧ P b) : ∃ bs, xs.mapM f = .ok bs ∧ ∀ b ∈ bs, P b := by
  induction xs with
  | nil => exact ⟨[], rfl, by simp⟩
  | cons a rest ih =>
    obtain ⟨b, hb, hPb⟩ := h a (by simp)
    obtain ⟨bs, hbs, hPbs⟩ := ih fun a hmem => h a (by simp [hmem])
    refine ⟨b :: bs, ?_, by simpa [hPb] using hPbs⟩
    rw [List.mapM_cons, hb, hbs]
    rfl

/-! ### The systems one by one -/

namespace Motion

/-- The moves are of transforms. -/
def Valid (w : World) (moves : List Move) : Prop := ∀ move ∈ moves, w.kind? move.transform = some .transform

theorem moves_done {m : Motion} {w : World} (h : Catalog.Lists ⟨(· == .velocity), m.velocities⟩ w) (dt : Float32) :
    ∃ moves, m.moves w dt = .ok moves ∧ Valid w moves := by
  have hmove : ∀ entry ∈ m.velocities.entries.toList, ∃ found, move? w dt entry = .ok found ∧
      ∀ move ∈ found, w.kind? move.transform = some .transform := by
    intro entry hmem
    obtain ⟨v, hv⟩ := World.component_of_kind? (h.kind? hmem)
    rw [move?]
    rw [hv]
    cases hfirst : w.first? .transform entry.owner with
    | none => exact ⟨none, rfl, by simp⟩
    | some found =>
      obtain ⟨handle, t⟩ := found
      refine ⟨_, rfl, fun move hmove => ?_⟩
      split at hmove
      · cases hmove
        exact World.kind?_of_first? hfirst
      · cases hmove
  obtain ⟨found, hfound, hvalid⟩ := mapM_done hmove
  refine ⟨found.filterMap id, by simp [moves, hfound, Except.map], fun move hmem => ?_⟩
  obtain ⟨_, hin, hmove⟩ := List.mem_filterMap.mp hmem
  exact hvalid _ hin move hmove

theorem applyMoves_done {w : World} (hw : w.Sound) {moves : List Move} (h : Valid w moves) :
    (applyMoves w moves).1 = .ok () := by
  refine World.inOrder_done hw gently_applyMove fun w' hkeeps move hmem => ?_
  exact World.modify_done (hkeeps _ _ (h move hmem)) _

theorem update_done (ε : Type) {ctx : Context} {m : Motion} {host : ε} (dt : Float32)
    (h : ∀ k, catalog? m = some k → k.Lists ctx.world) :
    ∃ result, ((system ε).update ctx dt m host).outcome = .ok result ∧ ∀ r ∈ result, Valid ctx.world r := by
  obtain ⟨moves, hmoves, hvalid⟩ := moves_done (h _ rfl) dt
  rw [system]
  dsimp only
  rw [hmoves]
  cases moves with
  | nil => exact ⟨none, rfl, by simp⟩
  | cons move rest => exact ⟨_, rfl, by simpa using hvalid⟩

theorem reliable (ε : Type) : Reliable (system ε) catalog? (fun _ _ => True) Valid where
  catalogs := keepsCatalogs ε
  stable _ := .const _ True
  willing event _ _ _ _ := by cases event <;> rfl
  update _ dt _ _ _ _ h := update_done ε dt h
  updateSerial _ dt _ _ _ _ h := update_done ε dt h
  apply result ctx _ _ hw h := by
    show (applyMoves ctx.world result).1.mapError Fault.world = .ok ()
    rw [applyMoves_done hw h]
    rfl
  duplicate h := h
  keeps hkeeps h move hmem := hkeeps _ _ (h move hmem)

end Motion

namespace Boxes

/-- The boxes that are to be written somewhere are to be written to bounds. -/
def Valid (w : World) (boxes : List Box) : Prop := ∀ box ∈ boxes, ∀ h ∈ box.target, w.kind? h = some .bounds

theorem valid_insertBox {w : World} {box : Box} {boxes : List Box} (hbox : ∀ h ∈ box.target, w.kind? h = some .bounds)
    (h : Valid w boxes) : Valid w (insertBox box boxes) := by
  induction boxes with
  | nil => simpa [insertBox, Valid] using hbox
  | cons other rest ih =>
    obtain ⟨hother, hrest⟩ := List.forall_mem_cons.mp h
    rw [insertBox]
    split
    · exact List.forall_mem_cons.mpr ⟨hother, hrest⟩
    · exact List.forall_mem_cons.mpr ⟨hother, ih hrest⟩

theorem valid_foldl_insertBox {w : World} {found boxes : List Box} (hfound : Valid w found) (h : Valid w boxes) :
    Valid w (found.foldl (fun boxes box => insertBox box boxes) boxes) := by
  induction found generalizing boxes with
  | nil => exact h
  | cons box rest ih =>
    obtain ⟨hbox, hrest⟩ := List.forall_mem_cons.mp hfound
    exact ih hrest (valid_insertBox hbox h)

theorem boxes_done {b : Boxes} {w : World} (h : Catalog.Lists ⟨(· == .sprite), b.sprites⟩ w) :
    ∃ boxes, b.boxes w = .ok boxes ∧ Valid w boxes := by
  have hbox : ∀ entry ∈ b.sprites.entries.toList, ∃ found, box? w entry = .ok found ∧
      ∀ box ∈ found, ∀ h ∈ box.target, w.kind? h = some .bounds := by
    intro entry hmem
    obtain ⟨sprite, hsprite⟩ := World.component_of_kind? (h.kind? hmem)
    rw [box?]
    rw [hsprite]
    refine ⟨_, rfl, fun box hfound handle htarget => ?_⟩
    obtain ⟨_, _, rfl⟩ := Option.map_eq_some_iff.mp hfound
    obtain ⟨⟨_, bounds⟩, hfirst, rfl⟩ := Option.map_eq_some_iff.mp htarget
    exact World.kind?_of_first? hfirst
  obtain ⟨found, hfound, hvalid⟩ := mapM_done hbox
  have hfold : Valid w ((found.filterMap id).foldl (fun boxes box => insertBox box boxes) []) := by
    refine valid_foldl_insertBox (fun box hmem => ?_) (by simp [Valid])
    obtain ⟨_, hin, hbox⟩ := List.mem_filterMap.mp hmem
    exact hvalid _ hin box hbox
  refine ⟨_, by rw [boxes, hfound]; rfl, fun box hmem => ?_⟩
  exact hfold box (List.mem_filter.mp hmem).1

theorem applyBox_done {w : World} {box : Box} (h : ∀ h ∈ box.target, w.kind? h = some .bounds) :
    (applyBox w box).1 = .ok () := by
  rw [applyBox]
  split
  · rename_i hlive
    split
    · rename_i handle htarget
      exact World.modify_done (h handle htarget) _
    · obtain ⟨handle, hdone⟩ := World.attach_done hlive ⟨.bounds, box.bounds⟩
      dsimp only
      rw [hdone]
      rfl
  · rfl

theorem applyBoxes_done {w : World} (hw : w.Sound) {boxes : List Box} (h : Valid w boxes) :
    (applyBoxes w boxes).1 = .ok () := by
  refine World.inOrder_done hw gently_applyBox fun w' hkeeps box hmem => ?_
  exact applyBox_done fun handle htarget => hkeeps _ _ (h box hmem handle htarget)

theorem update_done (ε : Type) {ctx : Context} {b : Boxes} {host : ε} (dt : Float32)
    (h : ∀ k, catalog? b = some k → k.Lists ctx.world) :
    ∃ result, ((system ε).update ctx dt b host).outcome = .ok result ∧ ∀ r ∈ result, Valid ctx.world r := by
  obtain ⟨boxes, hboxes, hvalid⟩ := boxes_done (h _ rfl)
  rw [system]
  dsimp only
  rw [hboxes]
  cases boxes with
  | nil => exact ⟨none, rfl, by simp⟩
  | cons box rest => exact ⟨_, rfl, by simpa using hvalid⟩

theorem reliable (ε : Type) : Reliable (system ε) catalog? (fun _ _ => True) Valid where
  catalogs := keepsCatalogs ε
  stable _ := .const _ True
  willing event _ _ _ _ := by cases event <;> rfl
  update _ dt _ _ _ _ h := update_done ε dt h
  updateSerial _ dt _ _ _ _ h := update_done ε dt h
  apply result ctx _ _ hw h := by
    show (applyBoxes ctx.world result).1.mapError Fault.world = .ok ()
    rw [applyBoxes_done hw h]
    rfl
  duplicate h := h
  keeps hkeeps h box hmem handle htarget := hkeeps _ _ (h box hmem handle htarget)

end Boxes

namespace Painter

theorem sweep_done {p : Painter} {w : World} (h : Catalog.Lists ⟨(· == .sprite), p.sprites⟩ w) :
    (p.sweep w).1 = .ok () := by
  have hall : Leaves (fun _ _ => True) (fun _ _ => False) (p.sweep w) := by
    refine leaves_inOrder (I := fun _ => True) (fun sweep entry hmem _ => ?_) trivial
    obtain ⟨sprite, hsprite⟩ := World.component_of_kind? (h.kind? hmem)
    rw [sweepEntry]
    rw [hsprite]
    dsimp only
    split <;> trivial
  rcases hresult : p.sweep w with ⟨err | _, sweep⟩
  · exact (hall.of_error hresult).elim
  · rfl

theorem update_done (ε : Type) {ctx : Context} {p : Painter} {host : ε} (dt : Float32) (hphase : ctx.phase = .late)
    (h : ∀ k, catalog? p = some k → k.Lists ctx.world) :
    ((system ε).update ctx dt p host).outcome = .ok none := by
  have hsweep := sweep_done (h _ rfl)
  rw [system]
  dsimp only
  rw [hsweep]
  dsimp only
  rw [Context.draw, if_pos hphase]

theorem reliable (ε : Type) :
    Reliable (system ε) catalog? (fun phase _ => phase = .late) fun _ _ => True where
  catalogs := keepsCatalogs ε
  stable phase := .const _ (phase = .late)
  willing event _ _ _ _ := by cases event <;> rfl
  update _ dt _ _ _ hphase h := ⟨none, update_done ε dt hphase h, by simp⟩
  updateSerial _ dt _ _ _ hphase h := ⟨none, update_done ε dt hphase h, by simp⟩
  apply _ _ _ _ _ _ := rfl
  duplicate h := h
  keeps _ h := h

end Painter

namespace Command

theorem assign_done {w : World} {e : Entity} (hlive : w.isLive e) (k : Kind) (change : k.Data → k.Data)
    (fresh : k.Data) : (assign w e k change fresh).1 = .ok () := by
  rw [assign]
  split
  · rename_i hfirst
    exact World.modify_done (World.kind?_of_first? hfirst) change
  · obtain ⟨handle, hdone⟩ := World.attach_done hlive ⟨k, fresh⟩
    dsimp only
    rw [hdone]
    rfl

theorem run_done (w : World) (command : Command) : (run w command).1 = .ok () := by
  unfold run
  split
  · rename_i hlive
    cases command with
    | setPosition e x y => exact assign_done hlive ..
    | setVelocity e dx dy => exact assign_done hlive ..
    | despawn e =>
      have hdone : (w.mark e).1 = .ok true := World.mark_done hlive
      dsimp only
      rw [hdone]
      rfl
    | attachSprite e sprite =>
      obtain ⟨handle, hdone⟩ : ∃ h, (w.attach e ⟨.sprite, sprite⟩).1 = .ok h := World.attach_done hlive _
      dsimp only
      rw [hdone]
      rfl
  · rfl

theorem runAll_done {w : World} (hw : w.Sound) (commands : List Command) : (runAll w commands).1 = .ok () :=
  World.inOrder_done hw gently_run fun w' _ command _ => run_done w' command

end Command

/-- An interpreter that never fails. -/
structure Interpreter.Answers {τ ε : Type} (I : Interpreter τ ε) : Prop where
  load : ∀ script s host, (I.load script s host).outcome = .ok ()
  call : ∀ dt instances s host, ∃ commands, (I.call dt instances s host).outcome = .ok commands

namespace Scripts

variable {τ ε : Type}

theorem willing {I : Interpreter τ ε} (hI : I.Answers) : (system I).IsWilling := by
  intro event c s host haccepts
  cases event with
  | attached h owner =>
    have hkind : c.kind = .script := by simpa [system] using haccepts
    obtain ⟨kind, script⟩ := c
    cases hkind
    -- only the interpreter could fail, when the script is loaded
    unfold System.notify system
    dsimp only
    rw [Component.as_kind]
    dsimp only
    rw [addUser]
    dsimp only
    split
    · rename_i fault herror
      split at herror
      · rw [hI.load] at herror
        cases herror
      · cases herror
    · rfl
  | detached h owner =>
    unfold System.notify system
    dsimp only
    split
    · rfl
    · split <;> rfl

theorem instances_done {s : Scripts τ} {w : World} (h : Catalog.Lists ⟨(· == .script), s.attachments⟩ w) :
    ∃ instances, s.instances w = .ok instances := by
  have hinstance : ∀ entry ∈ s.attachments.entries.toList, ∃ found, instanceOf w entry = .ok found ∧ True := by
    intro entry hmem
    obtain ⟨script, hscript⟩ := World.component_of_kind? (h.kind? hmem)
    rw [instanceOf]
    rw [hscript]
    exact ⟨_, rfl, trivial⟩
  obtain ⟨instances, hinstances, _⟩ := mapM_done hinstance
  exact ⟨instances, hinstances⟩

theorem update_done {I : Interpreter τ ε} (hI : I.Answers) {ctx : Context} {s : Scripts τ} {host : ε} (dt : Float32)
    (h : ∀ k, catalog? s = some k → k.Lists ctx.world) :
    ∃ result, ((system I).update ctx dt s host).outcome = .ok result ∧ ∀ r ∈ result, True := by
  obtain ⟨instances, hinstances⟩ := instances_done (h _ rfl)
  have hcall : ∃ result, (call I ctx.world dt s host).outcome = .ok result := by
    rw [call]
    split
    · exact ⟨none, rfl⟩
    · rw [hinstances]
      obtain ⟨commands, hcommands⟩ := hI.call dt instances s.interpreter host
      dsimp only [Reply.map]
      rw [hcommands]
      exact ⟨_, rfl⟩
  obtain ⟨result, hresult⟩ := hcall
  exact ⟨result, hresult, fun _ _ => trivial⟩

theorem reliable {I : Interpreter τ ε} (hI : I.Answers) :
    Reliable (system I) catalog? (fun _ _ => True) fun _ _ => True where
  catalogs := keepsCatalogs I
  stable _ := .const _ True
  willing := willing hI
  update _ dt _ _ _ _ h := update_done hI dt h
  updateSerial _ dt _ _ _ _ h := update_done hI dt h
  apply result ctx _ _ hw _ := by
    show (Command.runAll ctx.world result).1.mapError Fault.world = .ok ()
    rw [Command.runAll_done hw]
    rfl
  duplicate h := h
  keeps _ h := h

end Scripts

/-! ### Side by side -/

theorem Attentive.sum {σ₁ σ₂ ρ₁ ρ₂ ε : Type} {a : System σ₁ ρ₁ ε} {b : System σ₂ ρ₂ ε} {P : σ₁ → Prop} {Q : σ₂ → Prop}
    (ha : Attentive a P) (hb : Attentive b Q) : Attentive (a.sum b) (Sum.elim P Q) where
  init {w phase id s host} h := by
    cases s with
    | inl s => exact ha.init h
    | inr s => exact hb.init h
  added {handle owner c s host} h := by
    cases s with
    | inl s => exact ha.added h
    | inr s => exact hb.added h
  removed {handle owner c s host} h := by
    cases s with
    | inl s => exact ha.removed h
    | inr s => exact hb.removed h

theorem Stable.sum {σ₁ σ₂ ρ₁ ρ₂ ε : Type} {a : System σ₁ ρ₁ ε} {b : System σ₂ ρ₂ ε} {P : σ₁ → Prop} {Q : σ₂ → Prop}
    (ha : Stable a P) (hb : Stable b Q) : Stable (a.sum b) (Sum.elim P Q) where
  init := (ha.attentive.sum hb.attentive).init
  added := (ha.attentive.sum hb.attentive).added
  removed := (ha.attentive.sum hb.attentive).removed
  update {ctx dt s host} h := by
    cases s with
    | inl s => exact ha.update h
    | inr s => exact hb.update h
  updateSerial {ctx dt s host} h := by
    cases s with
    | inl s => exact ha.updateSerial h
    | inr s => exact hb.updateSerial h
  apply {result ctx s host} h := by
    cases result with
    | inl result =>
      cases s with
      | inl s => exact ha.apply h
      | inr s => exact h
    | inr result =>
      cases s with
      | inl s => exact h
      | inr s => exact hb.apply h

theorem forall_mem_map {α β : Type} {f : α → β} {o : Option α} {P : β → Prop} (h : ∀ a ∈ o, P (f a)) :
    ∀ b ∈ o.map f, P b := by
  intro b hb
  obtain ⟨a, ha, rfl⟩ := Option.map_eq_some_iff.mp hb
  exact h a ha

theorem Reliable.sum {σ₁ σ₂ ρ₁ ρ₂ ε : Type} {a : System σ₁ ρ₁ ε} {b : System σ₂ ρ₂ ε} {f : σ₁ → Option Catalog}
    {g : σ₂ → Option Catalog} {fits₁ : Phase → σ₁ → Prop} {fits₂ : Phase → σ₂ → Prop} {valid₁ : World → ρ₁ → Prop}
    {valid₂ : World → ρ₂ → Prop} (ha : Reliable a f fits₁ valid₁) (hb : Reliable b g fits₂ valid₂) :
    Reliable (a.sum b) (Sum.elim f g) (fun phase => Sum.elim (fits₁ phase) (fits₂ phase))
      fun w => Sum.elim (valid₁ w) (valid₂ w) where
  catalogs := ha.catalogs.sum hb.catalogs
  stable phase := (ha.stable phase).sum (hb.stable phase)
  willing event c s host haccepts := by
    cases s with
    | inl s =>
      have hdone := ha.willing event c s host haccepts
      cases event <;> exact congrArg (Except.map id) hdone
    | inr s =>
      have hdone := hb.willing event c s host haccepts
      cases event <;> exact congrArg (Except.map id) hdone
  update ctx dt s host hw hfits h := by
    cases s with
    | inl s =>
      obtain ⟨result, hdone, hvalid⟩ := ha.update ctx dt s host hw hfits h
      exact ⟨result.map .inl, congrArg (Except.map _) hdone, forall_mem_map hvalid⟩
    | inr s =>
      obtain ⟨result, hdone, hvalid⟩ := hb.update ctx dt s host hw hfits h
      exact ⟨result.map .inr, congrArg (Except.map _) hdone, forall_mem_map hvalid⟩
  updateSerial ctx dt s host hw hfits h := by
    cases s with
    | inl s =>
      obtain ⟨result, hdone, hvalid⟩ := ha.updateSerial ctx dt s host hw hfits h
      exact ⟨result.map .inl, congrArg (Except.map _) hdone, forall_mem_map hvalid⟩
    | inr s =>
      obtain ⟨result, hdone, hvalid⟩ := hb.updateSerial ctx dt s host hw hfits h
      exact ⟨result.map .inr, congrArg (Except.map _) hdone, forall_mem_map hvalid⟩
  apply result ctx s host hw h := by
    cases result with
    | inl result =>
      cases s with
      | inl s => exact congrArg (Except.map id) (ha.apply result ctx s host hw h)
      | inr s => rfl
    | inr result =>
      cases s with
      | inl s => rfl
      | inr s => exact congrArg (Except.map id) (hb.apply result ctx s host hw h)
  duplicate {w r host} h := by
    cases r with
    | inl r => exact ha.duplicate h
    | inr r => exact hb.duplicate h
  keeps {w w' r} hkeeps h := by
    cases r with
    | inl r => exact ha.keeps hkeeps h
    | inr r => exact hb.keeps hkeeps h

namespace BuiltIn

variable {τ ε : Type}

/-- The painter draws, which is for the late phase only; the others may be registered in any phase. -/
def Fits (phase : Phase) : BuiltIn τ → Prop :=
  Sum.elim (fun _ => True) (Sum.elim (fun _ => True) (Sum.elim (fun _ => phase = .late) fun _ => True))

theorem reliable {I : Interpreter τ ε} (hI : I.Answers) :
    Reliable (system I) catalog? Fits fun w =>
      Sum.elim (Motion.Valid w) (Sum.elim (Boxes.Valid w) (Sum.elim (fun _ => True) fun _ => True)) :=
  (Motion.reliable ε).sum ((Boxes.reliable ε).sum ((Painter.reliable ε).sum (Scripts.reliable hI)))

/-- A new system of this library in a phase where it can work. -/
def MayRegister (phase : Phase) (s : BuiltIn τ) : Prop := Engine.IsFresh catalog? s ∧ Fits phase s

theorem init_done (I : Interpreter τ ε) (w : World) (phase : Phase) (id : Nat) (s : BuiltIn τ) (host : ε) :
    ((system I).init w phase id s host).outcome = .ok () := by
  obtain _ | _ | _ | _ := s <;> rfl

/-- The systems of this library, with scripts run by an interpreter that never fails, can never bring the engine down:
after every run of operations that are routed the scheduler is not poisoned, no further operation reports that a
system has failed, and none of these systems fails when it is registered. -/
theorem run_never_fails {I : Interpreter τ ε} (hI : I.Answers) (settings : Settings.Scheduling) (screen : Screen)
    (host : ε) (ops : List (Engine.Op (BuiltIn τ))) (hops : ∀ op ∈ ops, op.IsRouted MayRegister) :
    let e := Engine.run (system I) (Engine.start settings screen host) ops
    e.scheduler.poisoned = false ∧
      (∀ op : Engine.Op (BuiltIn τ), op.IsRouted MayRegister → ∀ phase name fault,
        (Engine.perform (system I) e op).1 ≠ .error (.systemFailed phase name fault)) ∧
      ∀ phase s name fault, (Engine.register (system I) e phase s).1 ≠ .error (.initFailed name fault) := by
  intro e
  have rule := Engine.safe_rule (reliable hI)
  have hsafe := rule.between_run (Engine.safe_start settings screen host _) hops
  refine ⟨hsafe.unpoisoned, fun op hop phase name fault herror => ?_,
    Engine.register_ne_initFailed (reliable hI).willing (init_done I) e⟩
  have hafter := rule.between_perform hsafe hop
  have hroute : ∀ event, op ≠ .route event := by
    rintro event rfl
    exact hop
  have hpoisons := Engine.poisonsOnFailure_perform (system I) e hroute
  rcases hresult : Engine.perform (system I) e op with ⟨err | answer, e'⟩
  · rw [hresult] at herror hafter hpoisons
    have hpoisoned := hpoisons ⟨phase, name, fault, Except.error.inj herror⟩
    have hnot := hafter.unpoisoned
    rw [hpoisoned] at hnot
    cases hnot
  · rw [hresult] at herror
    cases herror

/-- A velocity that the motion system knows is detached, and the frame is run. -/
def detaching : List (Engine.Op (BuiltIn Unit)) :=
  [.register .early (.inl {}), .spawn false, .attach ⟨0, 0⟩ ⟨.velocity, ⟨1, 0⟩⟩, .edit (.detach ⟨1, 1⟩), .runFrame 0]

theorem mayRegister_motion : MayRegister .early (.inl {} : BuiltIn Unit) := by
  refine ⟨?_, trivial⟩
  rintro k ⟨⟩
  rfl

theorem answers_idle : Interpreter.idle.Answers := ⟨fun _ _ _ => rfl, fun _ _ _ _ => ⟨[], rfl⟩⟩

theorem detaching_never_fails :
    (Engine.run (system .idle) (Engine.start {} {} ()) detaching).scheduler.poisoned = false ∧
      ∀ name fault, (Engine.perform (system .idle) (Engine.run (system .idle) (Engine.start {} {} ()) detaching)
        (.runFrame 0)).1 ≠ .error (.systemFailed .early name fault) := by
  have hops : ∀ op ∈ detaching, op.IsRouted MayRegister := by
    simpa [detaching, Engine.Op.IsRouted, World.Edit.IsRouted] using mayRegister_motion
  have hrun := run_never_fails answers_idle {} {} () detaching hops
  exact ⟨hrun.1, hrun.2.1 (.runFrame 0) trivial .early⟩

/-- The motion system has been registered and nothing waits to be routed. -/
def registered (world : World) (screen : Screen) (frame : Nat) (velocities : Index) :
    Engine (BuiltIn Unit) Result Unit where
  scheduler :=
    { slots := ⟨[{ id := 0, name := "motion", phase := .early, system := .inl ⟨velocities⟩ }], [], []⟩
      names := ["motion"]
      nextId := 1
      frame }
  world
  screen
  host := ()

/-- One entity with a velocity, and what the end of a frame leaves of it once the velocity is detached. -/
def attachedWorld : World := ((World.empty.spawn false).2.attach ⟨0, 0⟩ ⟨.velocity, ⟨1, 0⟩⟩).2.drain.2

def releasedWorld : World where
  slots := #[{ state := some .live }]
  liveCount := 1
  store := { entries := { cells := #[⟨0, none⟩, ⟨2, none⟩], vacant := [1] } }

/-- Were the queue taken away, the motion system would look for a velocity that the end of the frame has released. -/
theorem motion_fails_after_drain :
    ¬ ∀ ops : List (Engine.Op (BuiltIn Unit)), (∀ op ∈ ops, op.IsUnflushed MayRegister) →
      (Engine.run (system .idle) (Engine.start {} {} ()) ops).scheduler.poisoned = false := by
  intro hclaim
  have hops : ∀ op ∈ [.register .early (.inl {}), .spawn false, .attach ⟨0, 0⟩ ⟨.velocity, ⟨1, 0⟩⟩] ++
      ([.edit (.detach ⟨1, 1⟩), .edit .drain, .runFrame 0] ++ [.runFrame 0]),
      Engine.Op.IsUnflushed MayRegister (op : Engine.Op (BuiltIn Unit)) := by
    simpa [Engine.Op.IsUnflushed] using mayRegister_motion
  have hattached : Engine.run (system .idle) (Engine.start {} {} ())
      [.register .early (.inl {}), .spawn false, .attach ⟨0, 0⟩ ⟨.velocity, ⟨1, 0⟩⟩] =
        registered attachedWorld {} 0 (Index.insert {} ⟨1, 1⟩ ⟨0, 0⟩).2 := rfl
  -- what follows depends on the array of the index, not on its table
  obtain ⟨positions, hindex⟩ : ∃ positions, (Index.insert {} ⟨1, 1⟩ ⟨0, 0⟩).2 = ⟨positions, #[⟨⟨1, 1⟩, ⟨0, 0⟩⟩]⟩ :=
    ⟨Std.HashMap.insert ∅ ⟨1, 1⟩ 0, by simp [Index.insert]⟩
  have hframe : Engine.run (system .idle) (registered attachedWorld {} 0 ⟨positions, #[⟨⟨1, 1⟩, ⟨0, 0⟩⟩]⟩)
      [.edit (.detach ⟨1, 1⟩), .edit .drain, .runFrame 0] =
        registered (attachedWorld.detach ⟨1, 1⟩).2.drain.2.flush.2 ({} : Screen).flip.2.clearActive 1
          ⟨positions, #[⟨⟨1, 1⟩, ⟨0, 0⟩⟩]⟩ := rfl
  have hreleased : (attachedWorld.detach ⟨1, 1⟩).2.drain.2.flush.2 = releasedWorld := rfl
  have hpoisoned : ∀ screen, (Engine.run (system .idle)
      (registered releasedWorld screen 1 ⟨positions, #[⟨⟨1, 1⟩, ⟨0, 0⟩⟩]⟩) [.runFrame 0]).scheduler.poisoned = true :=
    fun _ => rfl
  have hclean := hclaim _ hops
  rw [Engine.run_append, Engine.run_append, hattached, hindex, hframe, hreleased, hpoisoned] at hclean
  cases hclean

end BuiltIn

end Cadence
