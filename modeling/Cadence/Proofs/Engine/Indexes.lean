import Cadence.Proofs.System.Catalogs

/-!
The main statement about the indexes of the systems: after every run their indexes agree with the world once they have
heard the queue, and at every call the queue is empty. Taking the queue away by hand is the one change that a system
cannot follow.
-/

namespace Cadence.Engine

variable {σ ρ ε : Type} {sys : System σ ρ ε} {catalog? : σ → Option Catalog}

/-- After every run of operations that are routed, an engine that is not poisoned has every catalog in step: its index,
after the events in the queue, has exactly the attached components of its kinds, each once, and so do the indexes of
any two systems that accept the same kinds, whenever they were registered. At every call that an operation makes the
queue is empty, and the indexes themselves have exactly the attached components. -/
theorem indexes_follow_run (hsys : KeepsCatalogs sys catalog?) (settings : Settings.Scheduling) (screen : Screen)
    (host : ε) (ops : List (Op σ)) (hops : ∀ op ∈ ops, op.IsRouted fun _ s => IsFresh catalog? s) :
    let e := run sys (start settings screen host) ops
    (e.scheduler.poisoned = false →
      (∀ phase i slot k, e.slotAt? phase i = some slot → catalog? slot.system = some k →
        ((k.replay e.world e.world.events.toList).index.pairs.map (·.1)).Nodup ∧
          (k.replay e.world e.world.events.toList).index.pairs.Perm (e.world.attachedPairs k.accepts)) ∧
      ∀ phase i slot k phase' i' slot' k', e.slotAt? phase i = some slot → catalog? slot.system = some k →
        e.slotAt? phase' i' = some slot' → catalog? slot'.system = some k' → k.accepts = k'.accepts →
          (k.replay e.world e.world.events.toList).index.pairs.Perm
            (k'.replay e.world e.world.events.toList).index.pairs) ∧
    ∀ op e', Calls sys e op e' →
      e'.world.events = #[] ∧
        ∀ phase i slot k, e'.slotAt? phase i = some slot → catalog? slot.system = some k →
          (k.index.pairs.map (·.1)).Nodup ∧ k.index.pairs.Perm (e'.world.attachedPairs k.accepts) := by
  intro e
  have hbetween : SyncAt catalog? .between e := (sync_rule hsys).between_run (fun _ => inSync_start ..) hops
  refine ⟨fun hpoisoned => ?_, fun op e' hcalls => ?_⟩
  · have hsync : e.InSync catalog? := hbetween hpoisoned
    have hperm : ∀ {phase i slot k}, e.slotAt? phase i = some slot → catalog? slot.system = some k →
        (k.replay e.world e.world.events.toList).index.pairs.Perm (e.world.attachedPairs k.accepts) := by
      intro phase i slot k hslot hk
      have := (hsync.tracks hslot hk).lists.perm
      rwa [Catalog.accepts_replay] at this
    refine ⟨fun phase i slot k hslot hk => ?_, fun phase i slot k phase' i' slot' k' hslot hk hslot' hk' hsame => ?_⟩
    · exact ⟨Index.nodup_pairs (hsync.tracks hslot hk).lists.sound, hperm hslot hk⟩
    · have hother := hperm hslot' hk'
      rw [← hsame] at hother
      exact (hperm hslot hk).trans hother.symm
  · obtain ⟨⟨phase, n, hstage⟩, hevents⟩ := (sync_rule hsys).at_calls hbetween hcalls
    have hsync : e'.InSync catalog? := by
      obtain ⟨failed, hstage⟩ | hstage := hstage
      · exact hstage
      · exact hstage
    refine ⟨hevents, fun phase i slot k hslot hk => ?_⟩
    have hlists := (Catalog.tracks_iff_lists hevents).mp (hsync.tracks hslot hk)
    exact ⟨Index.nodup_pairs hlists.sound, hlists.perm⟩

/-! ### A run of the motion system -/

/-- A velocity is attached that the motion system has not been told of yet. -/
def attaching : List (Op (BuiltIn Unit)) :=
  [.register .early (.inl {}), .spawn false, .edit (.attach ⟨0, 0⟩ ⟨.velocity, ⟨1, 0⟩⟩)]

theorem isRouted_attaching : ∀ op ∈ attaching, op.IsRouted fun _ s => IsFresh BuiltIn.catalog? s := by
  have hfresh : IsFresh BuiltIn.catalog? (.inl {} : BuiltIn Unit) := by
    rintro k ⟨⟩
    rfl
  simpa [attaching, Op.IsRouted, World.Edit.IsRouted] using hfresh

theorem index_follows_attaching :
    let e := run (BuiltIn.system .idle) (start {} {} ()) attaching
    let k : Catalog := ⟨(· == .velocity), {}⟩
    (k.replay e.world e.world.events.toList).index.pairs.Perm [(⟨1, 1⟩, ⟨0, 0⟩)] := by
  intro e k
  have hrun := indexes_follow_run (BuiltIn.keepsCatalogs .idle) {} {} () attaching isRouted_attaching
  have hperm := (hrun.1 rfl).1 .early 0 { id := 0, name := "motion", phase := .early, system := .inl {} } k rfl rfl
  exact hperm.2

/-- Were the queue taken away, the index would lack the velocity for good. -/
theorem index_lost_by_drain :
    ¬ ∀ ops : List (Op (BuiltIn Unit)), (∀ op ∈ ops, op.IsUnflushed fun _ s => IsFresh BuiltIn.catalog? s) →
      let e := run (BuiltIn.system .idle) (start {} {} ()) ops
      e.scheduler.poisoned = false →
        ∀ phase i slot k, e.slotAt? phase i = some slot → BuiltIn.catalog? slot.system = some k →
          (k.replay e.world e.world.events.toList).index.pairs.Perm (e.world.attachedPairs k.accepts) := by
  intro hclaim
  have hops : ∀ op ∈ attaching ++ [.edit .drain], op.IsUnflushed fun _ s => IsFresh BuiltIn.catalog? s := by
    have hfresh : IsFresh BuiltIn.catalog? (.inl {} : BuiltIn Unit) := by
      rintro k ⟨⟩
      rfl
    simpa [attaching, Op.IsUnflushed] using hfresh
  have hperm := hclaim (attaching ++ [.edit .drain]) hops rfl .early 0
    { id := 0, name := "motion", phase := .early, system := .inl {} } ⟨(· == .velocity), {}⟩ rfl rfl
  have hlength := hperm.length_eq
  cases hlength

end Cadence.Engine
