import Cadence.Proofs.System.Safety
import Cadence.Proofs.World.Holdings

/-!
What the commands of an interpreter do to a world. The commands for many entities come in one list and each is carried
out on the world that the ones before it have left; for one entity only its own commands count, those up to the first
that despawns it. What they come to can be read off this list: the last position, the last velocity, and every sprite.
-/

namespace Cadence

/-! ### Writing several values to one place -/

/-- Values are written one after the other to the first component in a list, or to a blank one if there is none: the
last of them stays. -/
inductive Written {α β : Type} (write : β → α → α) (blank : α) :
    List β → List (Handle × α) → List (Handle × α) → Prop
  | none (old : List (Handle × α)) : Written write blank [] old old
  | first (values : List β) (b : β) (h : Handle) (a : α) (rest : List (Handle × α)) :
    Written write blank (values ++ [b]) ((h, a) :: rest) ((h, write b a) :: rest)
  | fresh (values : List β) (b : β) (h : Handle) : Written write blank (values ++ [b]) [] [(h, write b blank)]

namespace Written

variable {α β : Type} {write : β → α → α} {blank : α} {values values' : List β} {old mid new : List (Handle × α)}

theorem of_eq (h : new = old) : Written write blank [] old new := by
  rw [h]
  exact .none old

/-- A value that is written hides the one written before. -/
theorem trans (hwrite : ∀ b b' a, write b' (write b a) = write b' a) (h : Written write blank values old mid)
    (h' : Written write blank values' mid new) : Written write blank (values ++ values') old new := by
  cases h' with
  | none => rwa [List.append_nil]
  | first values' b h' a rest =>
    rw [← List.append_assoc]
    cases h with
    | none => exact .first _ b h' a rest
    | first =>
      rw [hwrite]
      exact .first _ b h' _ rest
    | fresh =>
      rw [hwrite]
      exact .fresh _ b h'
  | fresh values' b h' =>
    rw [← List.append_assoc]
    cases h with
    | none => exact .fresh _ b h'

end Written

namespace Command

variable {w w' w'' : World} {e : Entity}

/-! ### What the commands for an entity ask for -/

def position? : Command → Option (Float32 × Float32)
  | setPosition _ x y => some (x, y)
  | _ => none

def velocity? : Command → Option Velocity
  | setVelocity _ dx dy => some { dx, dy }
  | _ => none

def sprite? : Command → Option Sprite
  | attachSprite _ sprite => some sprite
  | _ => none

def isDespawn : Command → Bool
  | despawn _ => true
  | _ => false

/-- Moves a transform to a position. -/
def moving (position : Float32 × Float32) (t : Transform) : Transform := t.moveTo position.1 position.2

/-- The commands for an entity up to the first that despawns it, this one included. -/
def heeded (e : Entity) : List Command → List Command
  | [] => []
  | c :: rest =>
    if c.entity = e then
      if c.isDespawn then [c] else c :: heeded e rest
    else heeded e rest

/-- An entity has done what commands ask of it. It is pending if one of them despawns it; its first transform stands
at the last position and keeps its rotation and scale, and if it had no transform, it has one now; likewise for its
velocity; the sprites have been attached in their order. It has all its other components as they were. -/
structure Obeys (e : Entity) (commands : List Command) (w w' : World) : Prop where
  state : w'.state? e = (w.state? e).map fun l => if commands.any isDespawn then .pending else l
  persistent : w'.isPersistent e = w.isPersistent e
  handles : ∃ new, w'.handleList e = w.handleList e ++ new
  transforms : Written moving {} (commands.filterMap position?) (w.held .transform e) (w'.held .transform e)
  velocities : Written (fun v _ => v) ({} : Velocity) (commands.filterMap velocity?)
    (w.held .velocity e) (w'.held .velocity e)
  sprites : ∃ new, w'.held .sprite e = w.held .sprite e ++ new ∧ new.map (·.2) = commands.filterMap sprite?
  others : ∀ k, k ≠ .transform → k ≠ .velocity → k ≠ .sprite → w'.held k e = w.held k e

theorem obeys_of_untouched (hw : w.SoundStore) (h : w.Untouched e w') : Obeys e [] w w' where
  state := by simp [h.state?_eq]
  persistent := h.isPersistent_eq
  handles := ⟨[], by simp [h.handleList_eq]⟩
  transforms := .of_eq (h.held_eq hw _)
  velocities := .of_eq (h.held_eq hw _)
  sprites := ⟨[], by simp [h.held_eq hw], rfl⟩
  others k _ _ _ := h.held_eq hw k

theorem Obeys.trans {commands commands' : List Command} (h : Obeys e commands w w') (h' : Obeys e commands' w' w'') :
    Obeys e (commands ++ commands') w w'' where
  state := by
    rw [h'.state, h.state, Option.map_map, List.any_append]
    congr 1
    funext l
    cases commands.any isDespawn <;> simp
  persistent := h'.persistent.trans h.persistent
  handles := by
    obtain ⟨new, hnew⟩ := h.handles
    obtain ⟨new', hnew'⟩ := h'.handles
    exact ⟨new ++ new', by rw [hnew', hnew, List.append_assoc]⟩
  transforms := by
    rw [List.filterMap_append]
    exact h.transforms.trans (fun _ _ _ => rfl) h'.transforms
  velocities := by
    rw [List.filterMap_append]
    exact h.velocities.trans (fun _ _ _ => rfl) h'.velocities
  sprites := by
    obtain ⟨new, hnew, hvalues⟩ := h.sprites
    obtain ⟨new', hnew', hvalues'⟩ := h'.sprites
    exact ⟨new ++ new', by rw [hnew', hnew, List.append_assoc],
      by rw [List.map_append, hvalues, hvalues', List.filterMap_append]⟩
  others k ht hv hs := (h'.others k ht hv hs).trans (h.others k ht hv hs)

/-! ### One command -/

/-- Writing a value to the first component of a kind, or to a blank one that is attached for it. -/
theorem assign_spec (hw : w.SoundStore) (hlive : w.isLive e) (k : Kind) {β : Type} (write : β → k.Data → k.Data)
    (blank : k.Data) (b : β) :
    w.Alters k e (assign w e k (write b) (write b blank)).2 ∧
      w.Confined e (assign w e k (write b) (write b blank)).2 ∧
      Written write blank [b] (w.held k e) ((assign w e k (write b) (write b blank)).2.held k e) := by
  have hstate := World.isLive_iff.mp hlive
  rw [assign, World.first?_eq_head?_held]
  cases hheld : w.held k e with
  | nil =>
    obtain ⟨slot, hslot, _⟩ := World.slot?_of_state? hstate
    simp only [List.head?_nil, World.attach_of_live hstate]
    refine ⟨World.alters_withAttached hw hslot ⟨k, _⟩, World.confined_withAttached hw hslot _, ?_⟩
    rw [World.held_withAttached hw hslot, hheld, Component.as_kind]
    exact .fresh [] b _
  | cons p rest =>
    obtain ⟨h, a⟩ := p
    obtain ⟨hmem, hget⟩ := World.mem_held (w := w) (e := e) (h := h) (a := a) (by simp [hheld])
    simp only [List.head?_cons]
    refine ⟨World.alters_modify hget _ e, World.confined_modify hw hmem k _, ?_⟩
    rw [World.held_modify_self hw hheld]
    exact .first [] b h a rest

theorem snd_run_of_not_isLive {c : Command} (hnot : ¬ w.isLive c.entity) : (run w c).2 = w := by
  unfold run
  rw [if_neg hnot]

/-- A command changes nothing but its entity. -/
theorem confined_run (hw : w.SoundStore) (c : Command) : w.Confined c.entity (run w c).2 := by
  by_cases hlive : w.isLive c.entity
  · have hstate := World.isLive_iff.mp hlive
    unfold run
    rw [if_pos hlive]
    cases c with
    | setPosition e x y => exact (assign_spec hw hlive .transform moving {} (x, y)).2.1
    | setVelocity e dx dy => exact (assign_spec hw hlive .velocity (fun v _ => v) {} ⟨dx, dy⟩).2.1
    | despawn e => exact World.confined_mark hw hstate
    | attachSprite e sprite =>
      obtain ⟨slot, hslot, _⟩ := World.slot?_of_state? hstate
      change w.Confined e (w.attach e ⟨.sprite, sprite⟩).2
      rw [World.attach_of_live (e := e) hstate]
      exact World.confined_withAttached hw hslot _
  · rw [snd_run_of_not_isLive hlive]
    exact .refl _ w

theorem obeys_setPosition {x y : Float32} (halters : w.Alters .transform e w')
    (hwritten : Written moving {} [(x, y)] (w.held .transform e) (w'.held .transform e)) :
    Obeys e [setPosition e x y] w w' where
  state := by simpa [isDespawn] using halters.state
  persistent := halters.persistent
  handles := halters.handles
  transforms := hwritten
  velocities := .of_eq (halters.others _ (by decide))
  sprites := ⟨[], by simpa using halters.others .sprite (by decide), rfl⟩
  others k ht _ _ := halters.others k ht

theorem obeys_setVelocity {dx dy : Float32} (halters : w.Alters .velocity e w')
    (hwritten : Written (fun v _ => v) ({} : Velocity) [⟨dx, dy⟩] (w.held .velocity e) (w'.held .velocity e)) :
    Obeys e [setVelocity e dx dy] w w' where
  state := by simpa [isDespawn] using halters.state
  persistent := halters.persistent
  handles := halters.handles
  transforms := .of_eq (halters.others _ (by decide))
  velocities := hwritten
  sprites := ⟨[], by simpa using halters.others .sprite (by decide), rfl⟩
  others k _ hv _ := halters.others k hv

theorem obeys_attachSprite {sprite : Sprite} {h : Handle} (halters : w.Alters .sprite e w')
    (hheld : w'.held .sprite e = w.held .sprite e ++ [(h, sprite)]) : Obeys e [attachSprite e sprite] w w' where
  state := by simpa [isDespawn] using halters.state
  persistent := halters.persistent
  handles := halters.handles
  transforms := .of_eq (halters.others _ (by decide))
  velocities := .of_eq (halters.others _ (by decide))
  sprites := ⟨[(h, sprite)], hheld, rfl⟩
  others k _ _ hs := halters.others k hs

theorem obeys_mark (hstate : w.state? e = some .live) : Obeys e [despawn e] w (w.mark e).2 := by
  obtain ⟨slot, hslot, _⟩ := World.slot?_of_state? hstate
  have hmarked := World.slot?_mark hstate hslot
  exact {
    state := by
      rw [World.state?, hmarked, hstate]
      rfl
    persistent := by rw [World.isPersistent, World.isPersistent, hmarked, hslot]
    handles := ⟨[], by rw [World.handleList_mark hstate, List.append_nil]⟩
    transforms := .of_eq (World.held_mark hstate _)
    velocities := .of_eq (World.held_mark hstate _)
    sprites := ⟨[], by rw [World.held_mark hstate, List.append_nil], rfl⟩
    others := fun k _ _ _ => World.held_mark hstate k }

/-- A live entity obeys a command. -/
theorem obeys_run (hw : w.SoundStore) {c : Command} (hlive : w.isLive c.entity) :
    Obeys c.entity [c] w (run w c).2 := by
  have hstate := World.isLive_iff.mp hlive
  unfold run
  rw [if_pos hlive]
  cases c with
  | setPosition e x y =>
    obtain ⟨halters, _, hwritten⟩ := assign_spec hw hlive .transform moving {} (x, y)
    exact obeys_setPosition halters hwritten
  | setVelocity e dx dy =>
    obtain ⟨halters, _, hwritten⟩ := assign_spec hw hlive .velocity (fun v _ => v) {} ⟨dx, dy⟩
    exact obeys_setVelocity halters hwritten
  | despawn e => exact obeys_mark hstate
  | attachSprite e sprite =>
    obtain ⟨slot, hslot, _⟩ := World.slot?_of_state? hstate
    have halters := World.alters_withAttached hw hslot ⟨.sprite, sprite⟩
    have hheld := World.held_withAttached hw hslot ⟨.sprite, sprite⟩ .sprite
    change Obeys e [attachSprite e sprite] w (w.attach e ⟨.sprite, sprite⟩).2
    rw [World.attach_of_live (e := e) hstate]
    rw [Component.as_kind] at hheld
    exact obeys_attachSprite halters hheld

theorem untouched_run (hw : w.SoundStore) {c : Command} (hnot : w.isLive e → c.entity ≠ e) :
    w.Untouched e (run w c).2 := by
  by_cases hlive : w.isLive c.entity
  · refine (confined_run hw c).untouched ?_
    rintro rfl
    exact hnot hlive rfl
  · rw [snd_run_of_not_isLive hlive]
    exact .refl e w

/-! ### All commands -/

theorem snd_runAll_cons (w : World) (c : Command) (rest : List Command) :
    (runAll w (c :: rest)).2 = (runAll (run w c).2 rest).2 := by
  rw [runAll, inOrder_cons_of_ok (run_done w c)]
  rfl

theorem sound_run (hw : w.Sound) (c : Command) : (run w c).2.Sound := ((gently_run w c).edited.extends hw).1

theorem sound_runAll (hw : w.Sound) (commands : List Command) : (runAll w commands).2.Sound := by
  induction commands generalizing w with
  | nil => exact hw
  | cons c rest ih =>
    rw [snd_runAll_cons]
    exact ih (sound_run hw c)

/-- Commands for other entities, or for an entity that is not live, leave it as it is. -/
theorem untouched_runAll (hw : w.Sound) {commands : List Command}
    (hnot : w.isLive e → ∀ c ∈ commands, c.entity ≠ e) : w.Untouched e (runAll w commands).2 := by
  induction commands generalizing w with
  | nil => exact .refl e w
  | cons c rest ih =>
    have hfirst : w.Untouched e (run w c).2 := untouched_run hw.toSoundStore fun hlive => hnot hlive c (by simp)
    rw [snd_runAll_cons]
    refine hfirst.trans (ih (sound_run hw c) fun hlive c' hmem => ?_)
    rw [World.isLive, hfirst.state?_eq] at hlive
    exact hnot hlive c' (by simp [hmem])

/-- A live entity obeys its own commands until it is despawned, whatever else is in the list. -/
theorem obeys_runAll (hw : w.Sound) (hlive : w.isLive e) (commands : List Command) :
    Obeys e (heeded e commands) w (runAll w commands).2 := by
  induction commands generalizing w with
  | nil => exact obeys_of_untouched hw.toSoundStore (.refl e w)
  | cons c rest ih =>
    rw [snd_runAll_cons, heeded]
    have hsound := sound_run hw c
    split
    · rename_i htarget
      subst htarget
      have hobeys : Obeys c.entity [c] w (run w c).2 := obeys_run hw.toSoundStore hlive
      have hstate := hobeys.state
      rw [World.isLive_iff.mp hlive] at hstate
      split
      -- the entity is pending from here on, and the rest passes it over
      · rename_i hdespawn
        refine hobeys.trans (obeys_of_untouched hsound.toSoundStore (untouched_runAll hsound fun hagain => ?_))
        simp [World.isLive_iff, hstate, hdespawn] at hagain
      · rename_i hdespawn
        exact hobeys.trans (ih hsound (by simp [World.isLive_iff, hstate, hdespawn]))
    · rename_i hother
      have huntouched : w.Untouched e (run w c).2 := untouched_run hw.toSoundStore fun _ => hother
      refine (obeys_of_untouched hw.toSoundStore huntouched).trans (ih hsound ?_)
      rwa [World.isLive, huntouched.state?_eq]

/-- What waits for its release waits on, unchanged. -/
theorem queued_runAll (hw : w.Sound) (commands : List Command) :
    (runAll w commands).2.store.releases = w.store.releases ∧
      ∀ h ∈ w.store.releases, (runAll w commands).2.store.entries.get? h = w.store.entries.get? h := by
  induction commands generalizing w with
  | nil => exact ⟨rfl, fun _ _ => rfl⟩
  | cons c rest ih =>
    have hconfined := confined_run hw.toSoundStore c
    obtain ⟨hreleases, hentries⟩ := ih (sound_run hw c)
    rw [snd_runAll_cons]
    refine ⟨hreleases.trans hconfined.releases, fun h hmem => ?_⟩
    rw [hentries h (hconfined.releases ▸ hmem), hconfined.queued hmem]

end Command

namespace Scripts

variable {τ ε : Type}

open Command in
/-- In every world that comes about from the empty one, and whatever entities the commands are for, carrying them out
never fails. Each entity that was live obeys the commands for it up to the first that despawns it, and no later one;
it is pending then if there was one, and its components are attached to it unless there was. Every other entity, and
every live one that no command is for, is as it was, with all its components, and so is what waits for its release. -/
theorem commands_act_per_entity (I : Interpreter τ ε) (edits : List (World.Edit Entity Handle)) (phase : Phase)
    (frame : Nat) (parallel : Bool) (commands : List Command) (s : Scripts τ) (host : ε) :
    let w := World.run .empty edits
    let reply := (system I).apply commands ⟨w, phase, frame, parallel⟩ s host
    (reply.outcome = .ok () ∧ reply.system = s ∧ reply.host = host ∧ reply.drawn = #[]) ∧
    (∀ e, w.isLive e → Obeys e (heeded e commands) w reply.world ∧
      ∀ h ∈ reply.world.handleList e, ∃ c, reply.world.store.entries.get? h =
        some ⟨e, if (heeded e commands).any isDespawn then .detached else .attached, c⟩) ∧
    (∀ e, ¬ w.isLive e ∨ (∀ c ∈ commands, c.entity ≠ e) → w.Untouched e reply.world) ∧
    reply.world.store.releases = w.store.releases ∧
    ∀ h ∈ w.store.releases, reply.world.store.entries.get? h = w.store.entries.get? h := by
  intro w reply
  have hw : w.Sound := World.sound_run World.sound_empty edits
  have hworld : reply.world = (runAll w commands).2 := rfl
  have hsound : reply.world.Sound := hworld ▸ sound_runAll hw commands
  refine ⟨⟨?_, rfl, rfl, rfl⟩, fun e hlive => ?_, fun e hnot => ?_, hworld ▸ queued_runAll hw commands⟩
  · change (runAll w commands).1.mapError Fault.world = .ok ()
    rw [runAll_done hw]
    rfl
  · have hobeys : Obeys e (heeded e commands) w reply.world := hworld ▸ obeys_runAll hw hlive commands
    refine ⟨hobeys, fun h hmem => ?_⟩
    obtain ⟨l, c, hstate, hentry⟩ := hsound.entry_of_mem_handleList hmem
    rw [hobeys.state, World.isLive_iff.mp hlive, Option.map_some, Option.some.injEq] at hstate
    refine ⟨c, ?_⟩
    rw [hentry, ← hstate]
    split <;> rfl
  · rw [hworld]
    exact untouched_runAll hw fun hlive => hnot.resolve_left (absurd hlive)

end Scripts

end Cadence
