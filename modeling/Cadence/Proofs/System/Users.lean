import Cadence.Proofs.System.Safety
import Cadence.Proofs.System.Sight
import Cadence.Proofs.System.Usage

/-!
Script systems in an engine, beside systems of any other sort. As long as nobody takes the queue away or overwrites a
script that a system knows, or will still hear of, the scripts that it has loaded are those of the attached components,
each with the number of its users.
-/

namespace Cadence

variable {σ ρ ε τ : Type}

/-! ### Hearing -/

namespace Scripts

variable {other : System σ ρ ε} {I : Interpreter τ ε} {name? : Handle → Option String}

/-- The index of a script system that stands beside others. -/
def beside? : σ ⊕ Scripts τ → Option Catalog := Sum.elim (fun _ => none) catalog?

theorem keepsCatalogs_beside (hother : other.IsGentle) (I : Interpreter τ ε) :
    KeepsCatalogs (other.sum (system I)) beside? := (KeepsCatalogs.of_isGentle hother).sum (keepsCatalogs I)

/-- The system, if it is a script system, counts its users right. -/
def CountsOn (name? : Handle → Option String) (x : σ ⊕ Scripts τ) : Prop := ∀ s, x = .inr s → s.Counts name?

/-- A script system that stands beside others is told as it is told by itself. -/
theorem told_beside {sys : System (Scripts τ) (List Command) ε} {event : Event} {c : Component}
    {slot slot' : Slot (σ ⊕ Scripts τ) (ρ ⊕ List Command)} (h : (other.sum sys).Told event c slot slot')
    {s' : Scripts τ} (hs' : slot'.system = .inr s') :
    ∃ s, slot.system = .inr s ∧ (s' = s ∨ sys.accepts s c = true ∧ ∃ host,
      (sys.notify event c s host).outcome = .ok () ∧ s' = (sys.notify event c s host).system) := by
  cases h with
  | passed _ => exact ⟨s', hs', .inl rfl⟩
  | told host haccepts hok =>
    revert haccepts hok hs'
    dsimp only
    cases slot.system with
    | inl t => cases event <;> exact nofun
    | inr s =>
      intro haccepts hok hs'
      refine ⟨s, rfl, .inr ⟨haccepts, host, ?_⟩⟩
      cases event with
      | attached h owner =>
        obtain ⟨_, hok, _⟩ := exists_of_map_eq_ok hok
        exact ⟨hok, (Sum.inr.inj hs').symm⟩
      | detached h owner =>
        obtain ⟨_, hok, _⟩ := exists_of_map_eq_ok hok
        exact ⟨hok, (Sum.inr.inj hs').symm⟩

theorem CountsOn.told {event : Event} {c : Component} {slot slot' : Slot (σ ⊕ Scripts τ) (ρ ⊕ List Command)}
    (h : (other.sum (system I)).Told event c slot slot') (hcounts : CountsOn name? slot.system)
    (hname : ∀ data, c = ⟨.script, data⟩ → name? event.handle = some data.name)
    (hsound : ∀ k, beside? slot.system = some k → k.index.Sound)
    (hfresh : ∀ k, beside? slot.system = some k → ∀ h owner, event = .attached h owner → k.index.owner? h = none) :
    CountsOn name? slot'.system := by
  intro s' hs'
  obtain ⟨s, hs, rfl | ⟨haccepts, host, hok, rfl⟩⟩ := told_beside h hs'
  · exact hcounts s' hs
  rw [hs] at hsound hfresh
  -- a script system accepts scripts only
  obtain ⟨kind, data⟩ := c
  have hkind : kind = .script := by simpa [system] using haccepts
  subst hkind
  cases event with
  | attached h' owner => exact (hcounts s hs).added (hsound _ rfl) (hfresh _ rfl h' owner rfl) (hname data rfl) hok
  | detached h' owner => exact (hcounts s hs).removed I (hsound _ rfl) (hname data rfl) owner host

/-- The name of a stored script is what the world has of it. -/
theorem name_of_stored {w : World} {h : Handle} {c : Component} (hsome : w.store.get? h = some c) :
    ∀ data, c = ⟨.script, data⟩ → w.scriptName? h = some data.name := by
  rintro data rfl
  simp [World.scriptName?, Store.getAs?, hsome]

theorem CountsOn.heard (hother : other.IsGentle) {w : World} {events : List Event}
    {slot slot' : Slot (σ ⊕ Scripts τ) (ρ ⊕ List Command)}
    (h : (other.sum (system I)).Heard w.store events slot slot') (hcounts : CountsOn w.scriptName? slot.system)
    (hsound : ∀ k, beside? slot.system = some k → k.index.Sound)
    (hunheard : ∀ k, beside? slot.system = some k → k.Unheard w events) : CountsOn w.scriptName? slot'.system :=
  (keepsCatalogs_beside hother I).preserves
    (fun hsome htold hsound hfresh hcounts => hcounts.told htold (name_of_stored hsome) hsound hfresh)
    h hsound hunheard hcounts

/-! ### In step with the world -/

/-- The system, if it is a script system, is in step with the world, what the queue says is attached is news to it, and
it counts its users right. -/
structure Tallied (w : World) (x : σ ⊕ Scripts τ) : Prop where
  tracking : Engine.Tracking beside? w x
  unheard : ∀ k, beside? x = some k → k.Unheard w w.events.toList
  counts : CountsOn w.scriptName? x

theorem Tallied.sound {w : World} {x : σ ⊕ Scripts τ} (h : Tallied w x) : ∀ k, beside? x = some k → k.index.Sound :=
  fun k hk => (h.tracking k hk).sound

theorem Tallied.congr {w w' : World} {x : σ ⊕ Scripts τ} (h : Tallied w x) (htracking : Engine.Tracking beside? w' x)
    (hunheard : ∀ k, beside? x = some k → k.Unheard w' w'.events.toList)
    (hname : ∀ s h, x = .inr s → (s.attachments.owner? h).isSome → w'.scriptName? h = w.scriptName? h) :
    Tallied w' x := by
  refine ⟨htracking, hunheard, ?_⟩
  rintro s rfl
  exact (h.counts s rfl).congr (h.sound _ rfl) fun handle => hname s handle rfl

/-- A component that the system knows keeps its name. -/
theorem Tallied.scriptName?_edited {w w' : World} {s : Scripts τ} (h : Tallied w (.inr s : σ ⊕ Scripts τ))
    (hw : w.Routable) (hgently : w.Gently w') {handle : Handle} (hsome : (s.attachments.owner? handle).isSome) :
    w'.scriptName? handle = w.scriptName? handle :=
  (h.tracking _ rfl).scriptName?_eq hw rfl hgently hsome

theorem Tallied.scriptName?_flushed {w : World} {s : Scripts τ} (h : Tallied w (.inr s : σ ⊕ Scripts τ))
    (hw : w.Routable) (hevents : w.events = #[]) {handle : Handle} (hsome : (s.attachments.owner? handle).isSome) :
    w.flush.2.scriptName? handle = w.scriptName? handle := by
  have hlists := (Catalog.tracks_iff_lists hevents).mp (h.tracking _ rfl)
  exact World.scriptName?_flush hw.toSound (hlists.owner?_eq handle ▸ hsome)

theorem lasting_tallied : Lasting World.Gently World.Routable (Tallied (σ := σ) (τ := τ)) where
  refl := .refl
  sound_edit hw hgently := hw.edited hgently.edited
  sound_drain := World.Routable.drain
  sound_flush := World.Routable.flush
  edit hw h hgently := by
    refine h.congr ((Engine.lasting_tracking beside?).edit hw h.tracking hgently.edited) ?_ ?_
    · exact fun k hk => (h.unheard k hk).edited hw hgently.edited (h.tracking k hk)
    · rintro s handle rfl hsome
      exact h.scriptName?_edited hw hgently hsome
  flush hw hevents h := by
    refine h.congr ((Engine.lasting_tracking beside?).flush hw hevents h.tracking) ?_ ?_
    · intro k _
      rw [World.events_flush hevents]
      trivial
    · rintro s handle rfl hsome
      exact h.scriptName?_flushed hw hevents hsome

/-- A script system that has been told of nothing, or another system. -/
def IsNew (x : σ ⊕ Scripts τ) : Prop := ∀ s, x = .inr s → ∃ interpreter, s = { interpreter }

theorem IsNew.isFresh {x : σ ⊕ Scripts τ} (hx : IsNew x) : Engine.IsFresh beside? x := by
  intro k hk
  cases x with
  | inl t => cases hk
  | inr s =>
    obtain ⟨interpreter, rfl⟩ := hx s rfl
    cases hk
    rfl

theorem IsNew.countsOn {x : σ ⊕ Scripts τ} (hx : IsNew x) (name? : Handle → Option String) : CountsOn name? x := by
  rintro s rfl
  obtain ⟨interpreter, rfl⟩ := hx s rfl
  exact counts_new interpreter name?

theorem IsNew.init {x : σ ⊕ Scripts τ} (hx : IsNew x) (w : World) (phase : Phase) (id : Nat) (host : ε) :
    IsNew ((other.sum (system I)).init w phase id x host).system := by
  cases x with
  | inl t => rintro s ⟨⟩
  | inr s => exact hx

theorem CountsOn.update {x : σ ⊕ Scripts τ} (hx : CountsOn name? x) (ctx : Context) (dt : Float32) (host : ε) :
    CountsOn name? ((other.sum (system I)).update ctx dt x host).system := by
  cases x with
  | inl t => rintro s ⟨⟩
  | inr s =>
    rintro s' ⟨⟩
    exact (hx s rfl).of_eq (attachments_call ..) (usage_call ..)

theorem CountsOn.updateSerial {x : σ ⊕ Scripts τ} (hx : CountsOn name? x) (ctx : Context) (dt : Float32) (host : ε) :
    CountsOn name? ((other.sum (system I)).updateSerial ctx dt x host).system := by
  cases x with
  | inl t => rintro s ⟨⟩
  | inr s =>
    rintro s' ⟨⟩
    exact (hx s rfl).of_eq (attachments_call ..) (usage_call ..)

theorem CountsOn.apply {x : σ ⊕ Scripts τ} (hx : CountsOn name? x) (result : ρ ⊕ List Command) (ctx : Context)
    (host : ε) : CountsOn name? ((other.sum (system I)).apply result ctx x host).system := by
  cases result <;> cases x with
  | inl t => rintro s ⟨⟩
  | inr s => exact hx

/-- A callback that leaves the index of its system alone. -/
theorem Tallied.of_catalog {w : World} {x x' : σ ⊕ Scripts τ} (h : Tallied w x) (hcatalog : beside? x' = beside? x)
    (hcounts : CountsOn w.scriptName? x') : Tallied w x' :=
  ⟨fun k hk => h.tracking k (hcatalog ▸ hk), fun k hk => h.unheard k (hcatalog ▸ hk), hcounts⟩

/-- What a new system is offered is what is attached, each component once. -/
theorem IsNew.unheard_offered {x : σ ⊕ Scripts τ} (hx : IsNew x) (w : World) :
    (∀ k, beside? x = some k → k.index.Sound) ∧
      ∀ k, beside? x = some k → k.Unheard w (w.store.attached.map fun item => .attached item.1 item.2.1) := by
  have hempty : ∀ k, beside? x = some k → k.index = {} := hx.isFresh
  refine ⟨fun k hk => ?_, fun k hk => ?_⟩
  · rw [hempty k hk]
    exact Index.sound_empty
  · refine Catalog.unheard_offers ?_ w.store.nodup_attached fun _ _ => ?_ <;> rw [hempty k hk]
    · exact Index.sound_empty
    · exact Index.owner?_empty _

theorem IsNew.countsOn_offered (hother : other.IsGentle) {x : σ ⊕ Scripts τ} (hx : IsNew x) {w : World}
    {host : ε} {left : (σ ⊕ Scripts τ) × ε}
    (hoffers : inOrder (Engine.offer (other.sum (system I))) (x, host) w.store.attached = (.ok (), left)) :
    CountsOn w.scriptName? left.1 := by
  let slot : Slot (σ ⊕ Scripts τ) (ρ ⊕ List Command) := { id := 0, name := "", phase := .early, system := x }
  have hheard := System.heard_of_offers w.get?_of_mem_attached slot hoffers
  obtain ⟨hsound, hunheard⟩ := hx.unheard_offered w
  exact (hx.countsOn w.scriptName?).heard hother hheard hsound hunheard

theorem following_tallied (hother : other.IsGentle) (I : Interpreter τ ε) :
    Following World.Gently (other.sum (system I)) (fun _ x => IsNew x) World.Routable Tallied where
  toLasting := lasting_tallied
  register {w phase id x host left} hw hevents hx hinit hoffers := by
    have htracking := (Engine.following_tracking (keepsCatalogs_beside hother I)).register hw hevents hx.isFresh hinit
      hoffers
    refine ⟨htracking, fun _ _ => ?_, (hx.init w phase id host).countsOn_offered hother hoffers⟩
    rw [hevents]
    trivial
  hear {w slot slot'} hw h hheard := by
    have htracking := (Engine.following_tracking (keepsCatalogs_beside hother I)).hear hw h.tracking hheard
    have hcounts : CountsOn w.scriptName? slot'.system := h.counts.heard hother hheard h.sound h.unheard
    exact ⟨htracking, fun _ _ => trivial, hcounts⟩
  update ctx dt x host _ h :=
    h.of_catalog ((keepsCatalogs_beside hother I).update ctx dt x host) (h.counts.update ctx dt host)
  updateSerial {ctx dt x host _} _ h hok :=
    ⟨h.of_catalog ((keepsCatalogs_beside hother I).updateSerial hok).1 (h.counts.updateSerial ctx dt host),
      (hother.sum (isGentle I)).updateSerial hok⟩
  apply {result ctx x host} _ h hok :=
    ⟨h.of_catalog ((keepsCatalogs_beside hother I).apply hok).1 (h.counts.apply result ctx host),
      (hother.sum (isGentle I)).apply hok⟩

end Scripts

/-! ### Runs -/

theorem Engine.Op.Keeps.stepwise {allowed : World → World.Edit Entity Handle → Prop} {fits : Phase → σ → Prop}
    {w : World} {op : Op σ} (h : op.IsUnflushed fits)
    (hchange : ∀ change, op.change? = some change → allowed w change) : op.Keeps (World.Stepwise allowed) fits w :=
  h.keeps (.refl w) fun change hop => .perform (hchange change hop)

namespace Scripts

variable {other : System σ ρ ε} {s : Scripts τ} {w : World}

/-- With its index in order a system counts the attached components of each name. -/
theorem users_eq (hlists : s.catalog.Lists w) (script : String) :
    s.attachments.users w.scriptName? script = w.users script := by
  have hperm : s.attachments.pairs.Perm (w.attachedPairs (· == .script)) := hlists.perm
  rw [Index.users, hperm.countP_eq, World.users, ← w.filterMap_attachedPairs, w.countP_sight?]

/-- A system that is in step with the world and counts right knows, when the queue is empty, how many attached
components name a script. -/
theorem Tallied.count?_eq {s : Scripts τ} {w : World} (h : Tallied w (.inr s : σ ⊕ Scripts τ))
    (hevents : w.events = #[]) (script : String) :
    s.usage.count? script = if w.users script = 0 then none else some (w.users script) := by
  have hlists : s.catalog.Lists w := (Catalog.tracks_iff_lists hevents).mp (h.tracking _ rfl)
  rw [(h.counts s rfl).count?_eq, users_eq hlists]

/-- What it has loaded are the scripts of the attached components, each with the number of those that name it. -/
theorem Tallied.counted {s : Scripts τ} {w : World} (h : Tallied w (.inr s : σ ⊕ Scripts τ))
    (hevents : w.events = #[]) :
    s.usage.scripts.Nodup ∧ ∀ script n, (script, n) ∈ s.usage.counts ↔ n = w.users script ∧ n ≠ 0 := by
  have hcounts := h.counts s rfl
  refine ⟨hcounts.sorted.imp ne_of_lt, fun script n => ?_⟩
  rw [Usage.mem_counts hcounts.sorted, h.count?_eq hevents]
  split
  · rename_i hzero
    simp [hzero]
  · rename_i hsome
    constructor
    · rintro ⟨⟩
      exact ⟨rfl, hsome⟩
    · rintro ⟨rfl, _⟩
      rfl

/-- Only scripts of attached components are seen. -/
theorem users_ne_zero {found : ScriptInstance} (hmem : found ∈ w.scripted) : w.users found.script ≠ 0 :=
  Nat.ne_of_gt (List.countP_pos_iff.mpr ⟨found, hmem, by simp⟩)

/-- Every script system has loaded the scripts that attached components name, with the number of those that name it,
and no others. -/
def CountsUsers (e : Engine (σ ⊕ Scripts τ) ρ ε) : Prop :=
  ∀ phase i slot s, e.slotAt? phase i = some slot → slot.system = .inr s →
    s.usage.scripts.Nodup ∧ ∀ script n, (script, n) ∈ s.usage.counts ↔ n = e.world.users script ∧ n ≠ 0

/-- Every script system shows the interpreter each script that is attached, once, and has loaded them all; if there are
none it does not call the interpreter. -/
def ShowsUsers (I : Interpreter τ ε) (e : Engine (σ ⊕ Scripts τ) ρ ε) : Prop :=
  ∀ phase i slot s, e.slotAt? phase i = some slot → slot.system = .inr s →
    (e.world.scripted = [] ∧ Rests I s e.world) ∨
      (e.world.scripted ≠ [] ∧ ∃ seen, seen.Perm e.world.scripted ∧
        (∀ found ∈ seen, ∃ n, (found.script, n) ∈ s.usage.counts) ∧ Shows I s e.world seen)

/-- Script systems count exactly, beside any systems that do not overwrite a script in play: after every run of
operations that do not either, when nothing has failed and the queue is empty, what they have loaded are the scripts in
use, and in every call that the run has made the interpreter was shown the scripts in use. -/
theorem users_are_counted (hother : other.IsGentle) (I : Interpreter τ ε) (settings : Settings.Scheduling)
    (screen : Screen) (host : ε) (ops : List (Engine.Op (σ ⊕ Scripts τ)))
    (hops : Engine.KeepsTo World.Gently (fun _ x => IsNew x) (other.sum (system I)) (Engine.start settings screen host)
      ops) :
    let run := Engine.run (other.sum (system I)) (Engine.start settings screen host)
    ((run ops).scheduler.poisoned = false → (run ops).world.events = #[] → CountsUsers (run ops)) ∧
    ∀ before op after, ops = before ++ op :: after → ∀ e, Engine.Calls (other.sum (system I)) (run before) op e →
      ShowsUsers I e := by
  intro run
  have rule := Engine.following_rule (following_tallied hother I)
  have hstart : Engine.Followed World.Routable Tallied
      (Engine.start settings screen host : Engine (σ ⊕ Scripts τ) (ρ ⊕ List Command) ε) :=
    .start World.routable_empty settings screen host
  refine ⟨fun hpoisoned hevents phase i slot s hslot hs => ?_, ?_⟩
  · have htallied := (rule.between_run_of_keeps (fun _ => hstart) hops hpoisoned).follows hslot
    rw [hs] at htallied
    exact htallied.counted hevents
  · rintro before op after rfl e hcalls phase i slot s hslot hs
    have hbefore := rule.between_run_of_keeps (fun _ => hstart) (Engine.keepsTo_append.mp hops).1
    obtain ⟨⟨phase', n, hstage⟩, hevents⟩ := rule.at_calls hbefore hcalls
    have hfollowed : e.Followed World.Routable Tallied := by
      obtain ⟨failed, hstage⟩ | hstage := hstage
      · exact hstage
      · exact hstage
    have htallied := hfollowed.follows hslot
    rw [hs] at htallied
    have hlists : s.catalog.Lists e.world := (Catalog.tracks_iff_lists hevents).mp (htallied.tracking _ rfl)
    obtain hrests | ⟨hsome, seen, hperm, hshows⟩ := shows_or_rests I hlists
    · exact .inl hrests
    refine .inr ⟨hsome, seen, hperm, fun found hmem => ⟨e.world.users found.script, ?_⟩, hshows⟩
    rw [(htallied.counted hevents).2]
    exact ⟨rfl, users_ne_zero (hperm.mem_iff.mp hmem)⟩

/-! ### A run beside the motion system -/

/-- The motion system and a script system whose interpreter does nothing. -/
abbrev withMotion : System (Motion ⊕ Scripts Unit) (List Motion.Move ⊕ List Command) Unit :=
  (Motion.system Unit).sum (system .idle)

/-- A script is attached, and the script system is told. -/
def scripting : List (Engine.Op (Motion ⊕ Scripts Unit)) :=
  [.register .script (.inr { interpreter := () }), .spawn false, .attach ⟨0, 0⟩ ⟨.script, ⟨"a"⟩⟩]

theorem isNew_idle : IsNew (.inr { interpreter := () } : Motion ⊕ Scripts Unit) := by
  rintro s ⟨⟩
  exact ⟨(), rfl⟩

theorem scripting_is_counted :
    let e := Engine.run withMotion (Engine.start {} {} ()) scripting
    e.world.users "a" = 1 ∧ ∃ slot s, e.slotAt? .script 0 = some slot ∧ slot.system = .inr s ∧
      ("a", 1) ∈ s.usage.counts := by
  have hops : Engine.KeepsTo World.Gently (fun _ x => IsNew x) withMotion (Engine.start {} {} ()) scripting := by
    refine ⟨.stepwise isNew_idle ?_, .stepwise trivial ?_, .stepwise trivial ?_, trivial⟩
    all_goals rintro _ ⟨⟩ <;> exact ⟨trivial, by rintro _ _ ⟨⟩⟩
  have hcounts := (users_are_counted (Motion.isGentle Unit) .idle {} {} () scripting hops).1 rfl rfl
  refine ⟨rfl, _, _, rfl, rfl, ?_⟩
  exact ((hcounts .script 0 _ _ rfl rfl).2 "a" 1).mpr ⟨rfl, by decide⟩

/-- A change that is no flush and overwrites no script that is attached. -/
def SparesAttached (w : World) (change : World.Edit Entity Handle) : Prop :=
  change ≠ .flush ∧ ∀ h script, change = .overwrite h ⟨.script, script⟩ → w.attachedOwner? (· == .script) h = none

/-- Were the queue taken away, a script could be attached that is not loaded. -/
theorem count_lost_by_drain :
    ¬ ∀ ops : List (Engine.Op (Motion ⊕ Scripts Unit)),
      Engine.KeepsTo (World.Stepwise SparesAttached) (fun _ x => IsNew x) withMotion (Engine.start {} {} ()) ops →
      let e := Engine.run withMotion (Engine.start {} {} ()) ops
      e.scheduler.poisoned = false → e.world.events = #[] → CountsUsers e := by
  intro hclaim
  have hops : Engine.KeepsTo (World.Stepwise SparesAttached) (fun _ x => IsNew x) withMotion (Engine.start {} {} ())
      [.register .script (.inr { interpreter := () }), .spawn false, .edit (.attach ⟨0, 0⟩ ⟨.script, ⟨"a"⟩⟩),
        .edit .drain] := by
    refine ⟨.stepwise isNew_idle ?_, .stepwise trivial ?_, .stepwise trivial ?_, .stepwise trivial ?_, trivial⟩
    all_goals rintro _ ⟨⟩ <;> exact ⟨by rintro ⟨⟩, by rintro _ _ ⟨⟩⟩
  have hcounts := hclaim _ hops rfl rfl .script 0 _ _ rfl rfl
  have hloaded := (hcounts.2 "a" 1).mpr ⟨rfl, by decide⟩
  cases hloaded

/-- A script that the system has loaded is detached, and overwritten before the system is told. -/
def overwriting : List (Engine.Op (Motion ⊕ Scripts Unit)) :=
  scripting ++ [.edit (.detach ⟨1, 1⟩), .edit (.overwrite ⟨1, 1⟩ ⟨.script, ⟨"b"⟩⟩)]

theorem isWilling_withMotion : withMotion.IsWilling :=
  ((Motion.reliable Unit).sum (Scripts.reliable BuiltIn.answers_idle)).willing

/-- A script that is detached under a name of which the system has not heard is nobody's. -/
theorem usage_heard_of_count? {I : Interpreter τ ε} {store : Store} {h : Handle} {owner : Entity} {data : Script}
    {slot slot' : Slot (σ ⊕ Scripts τ) (ρ ⊕ List Command)} {s : Scripts τ}
    (hheard : (other.sum (system I)).Heard store [.detached h owner] slot slot')
    (hget : store.get? h = some ⟨.script, data⟩) (hs : slot.system = .inr s)
    (hnone : s.usage.count? data.name = none) : ∃ s', slot'.system = .inr s' ∧ s'.usage = s.usage := by
  cases hheard with
  | skip hskip _ =>
    rw [show store.get? h = none from hskip] at hget
    cases hget
  | cons hsome hfirst hrest =>
    rw [show store.get? h = _ from hsome] at hget
    cases hget
    cases hrest
    cases hfirst with
    | passed _ => exact ⟨s, hs, rfl⟩
    | told host _ _ =>
      dsimp only
      rw [hs]
      refine ⟨((system I).removed h owner ⟨.script, data⟩ s host).system, rfl, ?_⟩
      simp only [system, Component.as_kind, dropUser, hnone]
      split <;> rfl

/-- Were a script overwritten when it is detached but the systems are not told yet, it would stay loaded for good. -/
theorem count_lost_by_overwriting :
    ¬ ∀ ops : List (Engine.Op (Motion ⊕ Scripts Unit)),
      Engine.KeepsTo (World.Stepwise fun w change => change.IsRouted ∧ SparesAttached w change) (fun _ x => IsNew x)
        withMotion (Engine.start {} {} ()) ops →
      let e := Engine.run withMotion (Engine.start {} {} ()) ops
      e.scheduler.poisoned = false → e.world.events = #[] → CountsUsers e := by
  intro hclaim
  have hops : Engine.KeepsTo (World.Stepwise fun w change => change.IsRouted ∧ SparesAttached w change)
      (fun _ x => IsNew x) withMotion (Engine.start {} {} ()) (overwriting ++ [.deliver]) := by
    refine ⟨.stepwise isNew_idle ?_, .stepwise trivial ?_, .stepwise trivial ?_, .stepwise trivial ?_,
      .stepwise trivial ?_, .stepwise trivial ?_, trivial⟩
    all_goals rintro _ ⟨⟩ <;> refine ⟨trivial, by rintro ⟨⟩, ?_⟩ <;> rintro _ _ ⟨⟩
    rfl
  obtain ⟨n, e, hdeliver⟩ := Engine.deliver_done isWilling_withMotion
    (Engine.run withMotion (Engine.start {} {} ()) overwriting)
  have hleft : Engine.run withMotion (Engine.start {} {} ()) (overwriting ++ [.deliver]) = e := by
    rw [Engine.run_append]
    exact congrArg Prod.snd hdeliver
  obtain ⟨⟨slots, host, hframe⟩, hhears⟩ := (Engine.leaves_deliver withMotion _).of_ok hdeliver
  have hcounts := hclaim _ hops
  rw [hleft] at hcounts
  have hrel := hhears .script 0
  cases hslot : e.slotAt? .script 0 with
  | none =>
    rw [hslot] at hrel
    cases hrel
  | some slot =>
    rw [hslot] at hrel
    cases hrel with
    | some hheard =>
      obtain ⟨s, hs, husage⟩ := usage_heard_of_count? hheard rfl rfl rfl
      have hpoisoned : e.scheduler.poisoned = false := by rw [hframe]; rfl
      have hevents : e.world.events = #[] := by rw [hframe]; rfl
      have husers : e.world.users "a" = 0 := by rw [hframe]; rfl
      have hmem : ("a", 1) ∈ s.usage.counts := by rw [husage]; exact List.mem_singleton_self _
      have hcount := ((hcounts hpoisoned hevents .script 0 slot s hslot hs).2 "a" 1).mp hmem
      rw [husers] at hcount
      cases hcount.1

end Scripts

end Cadence
