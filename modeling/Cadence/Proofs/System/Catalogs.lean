import Cadence.Proofs.Engine.Sync
import Cadence.Proofs.World.Gentle
import Cadence.System.BuiltIn

/-!
The systems of this library keep catalogs: of the velocities, of the sprites, and of the scripts that entities run.
Whatever they do to the world is routed, and overwrites no script.
-/

namespace Cadence

/-! ### Changes to the world -/

namespace World

theorem Gently.modify (w : World) (k : Kind) (hk : k ≠ .script) (h : Handle) (f : k.Data → k.Data) :
    w.Gently (w.modify k h f).2 := by
  cases hdata : w.component k h with
  | error err =>
    rw [World.modify, hdata]
    exact .refl w
  | ok data =>
    have hsame : (w.perform (.overwrite h ⟨k, f data⟩)).2 = (w.modify k h f).2 := by
      simp [World.perform, answered, World.modify, hdata]
    rw [← hsame]
    refine .perform ⟨trivial, ?_⟩
    rintro h' script heq
    simp only [Edit.overwrite.injEq, Component.mk.injEq] at heq
    exact absurd heq.2.1 hk

theorem Gently.attach (w : World) (e : Entity) (c : Component) : w.Gently (w.attach e c).2 := by
  have hspares : w.Spares (.attach e c) := ⟨trivial, by rintro _ _ ⟨⟩⟩
  exact .perform hspares

theorem Gently.mark (w : World) (e : Entity) : w.Gently (w.mark e).2 := by
  have hspares : w.Spares (.mark e) := ⟨trivial, by rintro _ _ ⟨⟩⟩
  exact .perform hspares

theorem Gently.inOrder {α ε : Type} {step : World → α → Except ε Unit × World}
    (hstep : ∀ (w : World) a, w.Gently (step w a).2) (w : World) (xs : List α) : w.Gently (inOrder step w xs).2 := by
  induction xs generalizing w with
  | nil => exact .refl w
  | cons a rest ih =>
    have hfirst := hstep w a
    rw [Cadence.inOrder]
    rcases hresult : step w a with ⟨err | _, w'⟩
    · rw [hresult] at hfirst
      exact hfirst
    · rw [hresult] at hfirst
      exact hfirst.trans (ih w')

end World

/-- Systems whose callbacks, unless they fail, overwrite no script in play. -/
structure System.IsGentle {σ ρ ε : Type} (sys : System σ ρ ε) : Prop where
  updateSerial : ∀ {ctx dt s host result}, (sys.updateSerial ctx dt s host).outcome = .ok result →
    ctx.world.Gently (sys.updateSerial ctx dt s host).world
  apply : ∀ {result ctx s host}, (sys.apply result ctx s host).outcome = .ok () →
    ctx.world.Gently (sys.apply result ctx s host).world

/-! ### The systems one by one -/

namespace Motion

def catalog? (m : Motion) : Option Catalog := some ⟨(· == .velocity), m.velocities⟩

theorem gently_applyMove (w : World) (move : Move) : w.Gently (applyMove w move).2 :=
  .modify w .transform (by decide) move.transform (·.moveTo move.x move.y)

theorem isGentle (ε : Type) : (system ε).IsGentle where
  updateSerial _ := .refl _
  apply _ := .inOrder gently_applyMove ..

theorem keepsCatalogs (ε : Type) : KeepsCatalogs (system ε) catalog? where
  accepts h _ := by
    cases h
    rfl
  init _ := rfl
  added _ := rfl
  removed _ _ := rfl
  update _ _ _ _ := rfl
  updateSerial _ := ⟨rfl, .refl _⟩
  apply hok := ⟨rfl, ((isGentle ε).apply hok).edited⟩

end Motion

namespace Boxes

def catalog? (b : Boxes) : Option Catalog := some ⟨(· == .sprite), b.sprites⟩

theorem gently_applyBox (w : World) (box : Box) : w.Gently (applyBox w box).2 := by
  rw [applyBox]
  split
  · split
    · exact .modify w .bounds (by decide) ..
    · exact .attach ..
  · exact .refl w

theorem isGentle (ε : Type) : (system ε).IsGentle where
  updateSerial _ := .refl _
  apply _ := .inOrder gently_applyBox ..

theorem keepsCatalogs (ε : Type) : KeepsCatalogs (system ε) catalog? where
  accepts h _ := by
    cases h
    rfl
  init _ := rfl
  added _ := rfl
  removed _ _ := rfl
  update _ _ _ _ := rfl
  updateSerial _ := ⟨rfl, .refl _⟩
  apply hok := ⟨rfl, ((isGentle ε).apply hok).edited⟩

end Boxes

namespace Painter

def catalog? (p : Painter) : Option Catalog := some ⟨(· == .sprite), p.sprites⟩

theorem catalog?_update (ε : Type) (ctx : Context) (dt : Float32) (p : Painter) (host : ε) :
    catalog? ((system ε).update ctx dt p host).system = catalog? p := by
  rw [system]
  dsimp only
  split
  · rfl
  · split <;> rfl

theorem keepsCatalogs (ε : Type) : KeepsCatalogs (system ε) catalog? where
  accepts h _ := by
    cases h
    rfl
  init _ := rfl
  added _ := rfl
  removed _ _ := rfl
  update := catalog?_update ε
  updateSerial {ctx dt s host _} _ := ⟨catalog?_update ε ctx dt s host, .refl _⟩
  apply _ := ⟨rfl, .refl _⟩

theorem isGentle (ε : Type) : (system ε).IsGentle where
  updateSerial _ := .refl _
  apply _ := .refl _

end Painter

namespace Command

theorem gently_assign (w : World) (e : Entity) {k : Kind} (hk : k ≠ .script) (change : k.Data → k.Data)
    (fresh : k.Data) : w.Gently (assign w e k change fresh).2 := by
  rw [assign]
  split
  · exact .modify w k hk ..
  · exact .attach ..

theorem gently_run (w : World) (command : Command) : w.Gently (run w command).2 := by
  unfold run
  split
  · cases command with
    | setPosition e x y => exact gently_assign w e (by decide) ..
    | setVelocity e dx dy => exact gently_assign w e (by decide) ..
    | despawn e => exact .mark ..
    | attachSprite e sprite => exact .attach ..
  · exact .refl w

end Command

namespace Scripts

variable {τ ε : Type}

def catalog? (s : Scripts τ) : Option Catalog := some ⟨(· == .script), s.attachments⟩

theorem attachments_addUser {I : Interpreter τ ε} {h : Handle} {owner : Entity} {script : String} {s : Scripts τ}
    {host : ε} (hok : (addUser I h owner script s host).outcome = .ok ()) :
    (addUser I h owner script s host).system.attachments = (s.attachments.insert h owner).2 := by
  rw [addUser] at hok ⊢
  dsimp only at hok ⊢
  split at hok
  · cases hok
  · rfl

theorem attachments_dropUser (I : Interpreter τ ε) (script : String) (s : Scripts τ) (host : ε) :
    (dropUser I script s host).1.attachments = s.attachments := by
  rw [dropUser]
  split
  · rfl
  · split <;> rfl

theorem attachments_call (I : Interpreter τ ε) (w : World) (dt : Float32) (s : Scripts τ) (host : ε) :
    (call I w dt s host).system.attachments = s.attachments := by
  rw [call]
  split
  · rfl
  · split <;> rfl

theorem isGentle (I : Interpreter τ ε) : (system I).IsGentle where
  updateSerial _ := .refl _
  apply _ := .inOrder Command.gently_run ..

theorem catalog?_congr {s s' : Scripts τ} (h : s'.attachments = s.attachments) : catalog? s' = catalog? s := by
  rw [catalog?, catalog?, h]

theorem keepsCatalogs (I : Interpreter τ ε) : KeepsCatalogs (system I) catalog? where
  accepts h _ := by
    cases h
    rfl
  init _ := rfl
  added {h owner c s host} hok := by
    rw [system] at hok ⊢
    dsimp only at hok ⊢
    split at hok
    · cases hok
    · rw [catalog?, attachments_addUser hok]
      rfl
  removed {h owner c s host} hsound _ := by
    rw [system]
    dsimp only
    split
    · rename_i attachments hremove
      have hself := Index.remove_eq_self (hsound _ rfl) (congrArg Prod.fst hremove)
      rw [catalog?, Option.map_some, hself]
    · rename_i attachments hremove
      have hdropped : ∀ s' : Scripts τ, s'.attachments = attachments → catalog? s' =
          (catalog? s).map fun k => { k with index := (k.index.remove h).2 } := by
        intro s' hs'
        simp [catalog?, hs', hremove]
      split
      · exact hdropped _ rfl
      · exact hdropped _ (attachments_dropUser ..)
  update _ _ _ _ := catalog?_congr (attachments_call ..)
  updateSerial _ := ⟨catalog?_congr (attachments_call ..), .refl _⟩
  apply hok := ⟨rfl, ((isGentle I).apply hok).edited⟩

end Scripts

/-! ### Side by side -/

namespace KeepsCatalogs

variable {σ₁ σ₂ ρ₁ ρ₂ ε : Type}

theorem sum {a : System σ₁ ρ₁ ε} {b : System σ₂ ρ₂ ε} {f : σ₁ → Option Catalog} {g : σ₂ → Option Catalog}
    (ha : KeepsCatalogs a f) (hb : KeepsCatalogs b g) : KeepsCatalogs (a.sum b) (Sum.elim f g) where
  accepts {s k} h := by
    cases s with
    | inl s => exact ha.accepts h
    | inr s => exact hb.accepts h
  init {w phase id s host} hok := by
    cases s with
    | inl s =>
      obtain ⟨_, hok, _⟩ := exists_of_map_eq_ok hok
      exact ha.init hok
    | inr s =>
      obtain ⟨_, hok, _⟩ := exists_of_map_eq_ok hok
      exact hb.init hok
  added {h owner c s host} hok := by
    cases s with
    | inl s =>
      obtain ⟨_, hok, _⟩ := exists_of_map_eq_ok hok
      exact ha.added hok
    | inr s =>
      obtain ⟨_, hok, _⟩ := exists_of_map_eq_ok hok
      exact hb.added hok
  removed {h owner c s host} hsound hok := by
    cases s with
    | inl s =>
      obtain ⟨_, hok, _⟩ := exists_of_map_eq_ok hok
      exact ha.removed hsound hok
    | inr s =>
      obtain ⟨_, hok, _⟩ := exists_of_map_eq_ok hok
      exact hb.removed hsound hok
  update ctx dt s host := by
    cases s with
    | inl s => exact ha.update ctx dt s host
    | inr s => exact hb.update ctx dt s host
  updateSerial {ctx dt s host result} hok := by
    cases s with
    | inl s =>
      obtain ⟨_, hok, _⟩ := exists_of_map_eq_ok hok
      exact ha.updateSerial hok
    | inr s =>
      obtain ⟨_, hok, _⟩ := exists_of_map_eq_ok hok
      exact hb.updateSerial hok
  apply {result ctx s host} hok := by
    cases result with
    | inl result =>
      cases s with
      | inl s =>
        obtain ⟨_, hok, _⟩ := exists_of_map_eq_ok hok
        exact ha.apply hok
      | inr s => exact ⟨rfl, .refl _⟩
    | inr result =>
      cases s with
      | inl s => exact ⟨rfl, .refl _⟩
      | inr s =>
        obtain ⟨_, hok, _⟩ := exists_of_map_eq_ok hok
        exact hb.apply hok

/-- Gentle systems of which no catalog is of interest. -/
theorem of_isGentle {sys : System σ₁ ρ₁ ε} (h : sys.IsGentle) : KeepsCatalogs sys fun _ => none where
  accepts := by rintro _ _ ⟨⟩
  init _ := rfl
  added _ := rfl
  removed _ _ := rfl
  update _ _ _ _ := rfl
  updateSerial hok := ⟨rfl, (h.updateSerial hok).edited⟩
  apply hok := ⟨rfl, (h.apply hok).edited⟩

end KeepsCatalogs

theorem System.IsGentle.sum {σ₁ σ₂ ρ₁ ρ₂ ε : Type} {a : System σ₁ ρ₁ ε} {b : System σ₂ ρ₂ ε} (ha : a.IsGentle)
    (hb : b.IsGentle) : (a.sum b).IsGentle where
  updateSerial {ctx dt s host result} hok := by
    cases s with
    | inl s =>
      obtain ⟨_, hok, _⟩ := exists_of_map_eq_ok hok
      exact ha.updateSerial hok
    | inr s =>
      obtain ⟨_, hok, _⟩ := exists_of_map_eq_ok hok
      exact hb.updateSerial hok
  apply {result ctx s host} hok := by
    cases result with
    | inl result =>
      cases s with
      | inl s =>
        obtain ⟨_, hok, _⟩ := exists_of_map_eq_ok hok
        exact ha.apply hok
      | inr s => exact .refl _
    | inr result =>
      cases s with
      | inl s => exact .refl _
      | inr s =>
        obtain ⟨_, hok, _⟩ := exists_of_map_eq_ok hok
        exact hb.apply hok

/-- An interpreter that answers no commands. -/
def Interpreter.idle : Interpreter Unit Unit where
  call _ _ s host := ⟨.ok [], s, host⟩

namespace BuiltIn

variable {τ ε : Type}

def catalog? : BuiltIn τ → Option Catalog :=
  Sum.elim Motion.catalog? (Sum.elim Boxes.catalog? (Sum.elim Painter.catalog? Scripts.catalog?))

theorem keepsCatalogs (I : Interpreter τ ε) : KeepsCatalogs (system I) catalog? :=
  (Motion.keepsCatalogs ε).sum ((Boxes.keepsCatalogs ε).sum ((Painter.keepsCatalogs ε).sum (Scripts.keepsCatalogs I)))

end BuiltIn

end Cadence
