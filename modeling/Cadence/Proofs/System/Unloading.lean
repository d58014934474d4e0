import Cadence.Proofs.System.Loading

/-!
A script system from its beginning to its shutdown, whatever it is told of components: that one is added twice, that one
is removed which was never added, or under another script than it was added with, and with loads that fail. For every
script the loads and the unloads take turns, and the shutdown makes them even.
-/

namespace Cadence

open Request

variable {ε τ : Type}

/-! ### The requests about one script -/

namespace Request

/-- Whether a request loads or unloads the script. -/
def concerns (script : String) : Request → Bool
  | load s => s == script
  | call _ => false
  | unload s => s == script

/-- So many loads of a script, each followed by an unload. -/
def rounds (script : String) (n : Nat) : List Request := (List.replicate n [load script, unload script]).flatten

theorem rounds_succ (script : String) (n : Nat) :
    rounds script (n + 1) = rounds script n ++ [load script, unload script] := by
  simp [rounds, List.replicate_succ']

/-- What has been asked about a script, from the first request to the last, are rounds of a load and an unload, and one
more load if the script is loaded. -/
theorem Alternate.exists_rounds {requests : List Request} (h : Alternate requests) (script : String) :
    ∃ n, (requests.filter (concerns script)).reverse =
      rounds script n ++ if loaded script requests then [load script] else [] := by
  induction requests with
  | nil => exact ⟨0, rfl⟩
  | cons request rest ih =>
    cases request with
    | load s =>
      obtain ⟨hunloaded, hrest⟩ := h
      obtain ⟨n, hn⟩ := ih hrest
      refine ⟨n, ?_⟩
      by_cases hs : s = script
      · subst hs
        rw [hunloaded] at hn
        simpa [concerns, loaded] using hn
      · have hloaded : loaded script (load s :: rest) = loaded script rest := by simp [loaded, hs]
        rwa [List.filter_cons_of_neg (by simpa [concerns] using hs), hloaded]
    | call seen => exact ih h
    | unload s =>
      obtain ⟨hwasLoaded, hrest⟩ := h
      obtain ⟨n, hn⟩ := ih hrest
      by_cases hs : s = script
      · subst hs
        rw [hwasLoaded] at hn
        exact ⟨n + 1, by simp [concerns, loaded, rounds_succ, hn]⟩
      · have hloaded : loaded script (unload s :: rest) = loaded script rest := by simp [loaded, hs]
        rw [List.filter_cons_of_neg (by simpa [concerns] using hs), hloaded]
        exact ⟨n, hn⟩

/-- Scripts that are loaded may be unloaded one after the other, each once. -/
theorem alternate_unloads {requests : List Request} (h : Alternate requests) {scripts : List String}
    (hnodup : scripts.Nodup) (hloaded : ∀ script ∈ scripts, loaded script requests = true) :
    Alternate ((scripts.map unload).reverse ++ requests) ∧
      ∀ script, loaded script ((scripts.map unload).reverse ++ requests) =
        (loaded script requests && !scripts.contains script) := by
  induction scripts generalizing requests with
  | nil => exact ⟨h, fun script => by simp⟩
  | cons first rest ih =>
    obtain ⟨hnot, hnodup⟩ := List.nodup_cons.mp hnodup
    have hstill : ∀ script ∈ rest, loaded script (unload first :: requests) = true := by
      intro script hmem
      have hne : first ≠ script := fun heq => hnot (heq ▸ hmem)
      simp [loaded, hne, hloaded script (by simp [hmem])]
    have hfirst : Alternate (unload first :: requests) := ⟨hloaded first (by simp), h⟩
    obtain ⟨halternate, hafter⟩ := ih hfirst hnodup hstill
    have hsplit : ((first :: rest).map unload).reverse ++ requests =
        (rest.map unload).reverse ++ (unload first :: requests) := by simp
    rw [hsplit]
    refine ⟨halternate, fun script => ?_⟩
    rw [hafter]
    by_cases heq : first = script
    · simp [loaded, heq]
    · have hne : (first != script) = true := by simpa using heq
      simp [loaded, hne, Ne.symm heq]

end Request

namespace Scripts

variable {s s' : Scripts (τ × List Request)}

/-! ### What a system is told -/

inductive Message
  | added (h : Handle) (owner : Entity) (c : Component)
  | removed (h : Handle) (owner : Entity) (c : Component)

def tell (I : Interpreter τ ε) (s : Scripts τ) (host : ε) : Message → Reply (Scripts τ) ε Unit
  | .added h owner c => (system I).added h owner c s host
  | .removed h owner c => (system I).removed h owner c s host

/-- Tells a system one message after the other, whether it fails to take them in or not. -/
def tellAll (I : Interpreter τ ε) (state : Scripts τ × ε) (messages : List Message) : Scripts τ × ε :=
  messages.foldl (fun state message => ((tell I state.1 state.2 message).system, (tell I state.1 state.2 message).host))
    state

/-- What the shutdown leaves of the interpreter and of the host. -/
def unloaded (I : Interpreter τ ε) (s : Scripts τ) (host : ε) : τ × ε :=
  s.usage.scripts.foldl (fun state script => I.unload script state.1 state.2) (s.interpreter, host)

theorem shutdown_eq (I : Interpreter τ ε) (s : Scripts τ) (host : ε) :
    (system I).shutdown s host = (unloaded I s host).2 := rfl

theorem reckons_tell (I : Interpreter τ ε) (s : Scripts (τ × List Request)) (host : ε) (message : Message) :
    s.Reckons (tell I.recorded s host message).system := by
  cases message with
  | added h owner c => exact reckons_added ..
  | removed h owner c => exact reckons_removed ..

theorem sorted_reckons (hs : s.usage.Sorted) (h : s.Reckons s') : s'.usage.Sorted := by
  cases h with
  | same husage _ => rwa [husage]
  | first _ husage _ => exact husage ▸ Usage.sorted_set hs ..
  | recount _ _ husage _ => exact husage ▸ Usage.sorted_set hs ..
  | last _ husage _ => exact husage ▸ Usage.sorted_erase hs _

theorem accounted_tellAll (I : Interpreter τ ε) {s : Scripts (τ × List Request)} (hs : s.Accounted)
    (hsorted : s.usage.Sorted) (host : ε) (messages : List Message) :
    (tellAll I.recorded (s, host) messages).1.Accounted ∧ (tellAll I.recorded (s, host) messages).1.usage.Sorted := by
  induction messages generalizing s host with
  | nil => exact ⟨hs, hsorted⟩
  | cons message rest ih =>
    have hreckons := reckons_tell I s host message
    exact ih (hs.reckons hreckons) (sorted_reckons hsorted hreckons) _

/-- A system that fails to take in a message has counted nothing, and has asked for nothing that was done. -/
theorem tell_failed {I : Interpreter τ ε} {s : Scripts (τ × List Request)} {host : ε} {message : Message}
    {fault : Fault} (hfault : (tell I.recorded s host message).outcome = .error fault) :
    (tell I.recorded s host message).system.usage = s.usage ∧
      (tell I.recorded s host message).system.attachments = s.attachments ∧
      (tell I.recorded s host message).system.requests = s.requests := by
  cases message with
  | added h owner c =>
    simp only [tell, system] at hfault ⊢
    cases hscript : c.as .script with
    | none => exact ⟨rfl, rfl, rfl⟩
    | some script =>
      rw [hscript] at hfault
      dsimp only at hfault ⊢
      by_cases hcount : (s.usage.count? script.name).getD 0 = 0
      · rcases hload : I.load script.name s.interpreter.1 host with ⟨_ | _, state, host'⟩
        · simp [addUser, requests, Interpreter.recorded, hcount, hload]
        · simp [addUser, Interpreter.recorded, hcount, hload] at hfault
      · simp [addUser, hcount] at hfault
  | removed h owner c =>
    simp only [tell, system] at hfault
    split at hfault
    · cases hfault
    · split at hfault <;> cases hfault

theorem requests_unloaded (I : Interpreter τ ε) (s : Scripts (τ × List Request)) (host : ε) :
    (unloaded I.recorded s host).1.2 = (s.usage.scripts.map unload).reverse ++ s.requests := by
  unfold unloaded requests
  generalize s.usage.scripts = scripts
  generalize s.interpreter = state
  induction scripts generalizing state host with
  | nil => rfl
  | cons script rest ih =>
    rw [List.foldl_cons, ih]
    simp [Interpreter.recorded]

/-- A load that fails fails the message. -/
theorem tell_of_load_failed {I : Interpreter τ ε} {s : Scripts (τ × List Request)} {host : ε} {data : Script}
    {fault : Fault} (hcount : s.usage.count? data.name = none)
    (hload : (I.load data.name s.interpreter.1 host).outcome = .error fault) (h : Handle) (owner : Entity) :
    (tell I.recorded s host (.added h owner ⟨.script, data⟩)).outcome = .error fault := by
  simp only [tell, system, Component.as_kind]
  simp [addUser, Interpreter.recorded, hcount, hload]

theorem unrecorded_tellAll (I : Interpreter τ ε) (s : Scripts (τ × List Request)) (host : ε) (messages : List Message) :
    ((tellAll I.recorded (s, host) messages).1.unrecorded, (tellAll I.recorded (s, host) messages).2) =
      tellAll I (s.unrecorded, host) messages := by
  have htell (s : Scripts (τ × List Request)) (host : ε) (message : Message) :
      (tell I.recorded s host message).project unrecorded id = tell I s.unrecorded host message := by
    cases message with
    | added h owner c => exact (simulates_recorded I).added ..
    | removed h owner c => exact (simulates_recorded I).removed ..
  induction messages generalizing s host with
  | nil => rfl
  | cons message rest ih =>
    rw [tellAll, tellAll, List.foldl_cons, List.foldl_cons, ← htell]
    exact ih ..

/-- Loads and unloads take turns. Whatever a new script system is told and whichever loads fail, what its interpreter
has been asked about a script are rounds of a load and an unload, and one more load if the script is loaded; the scripts
that are loaded are those that have users, and a script that has users has one at least. A message that the system fails
to take in, such as one whose load fails, changes no count and no entry of the index. After the shutdown there are
rounds only. -/
theorem loads_and_unloads_take_turns (I : Interpreter τ ε) (state : τ) (host : ε) (messages : List Message) :
    let s := (tellAll I.recorded ({ interpreter := (state, []) }, host) messages).1
    let host' := (tellAll I.recorded ({ interpreter := (state, []) }, host) messages).2
    (s.unrecorded, host') = tellAll I ({ interpreter := state }, host) messages ∧
    (∀ script, ∃ n, (s.requests.filter (concerns script)).reverse =
      rounds script n ++ if loaded script s.requests then [load script] else []) ∧
    (∀ script, script ∈ s.usage.scripts ↔ loaded script s.requests = true) ∧
    (∀ script n, s.usage.count? script = some n → 1 ≤ n) ∧
    (∀ message fault, (tell I.recorded s host' message).outcome = .error fault →
      (tell I.recorded s host' message).system.usage = s.usage ∧
      (tell I.recorded s host' message).system.attachments = s.attachments ∧
      (tell I.recorded s host' message).system.requests = s.requests) ∧
    (∀ h owner (data : Script) fault, s.usage.count? data.name = none →
      (I.load data.name s.interpreter.1 host').outcome = .error fault →
      (tell I.recorded s host' (.added h owner ⟨.script, data⟩)).outcome = .error fault) ∧
    (system I.recorded).shutdown s host' = (unloaded I.recorded s host').2 ∧
    ∀ script, ∃ n, ((unloaded I.recorded s host').1.2.filter (concerns script)).reverse = rounds script n := by
  intro s host'
  obtain ⟨haccounted, hsorted⟩ : s.Accounted ∧ s.usage.Sorted :=
    accounted_tellAll I (accounted_new state) .nil host messages
  have hscripts : ∀ script, script ∈ s.usage.scripts ↔ loaded script s.requests = true := by
    intro script
    rw [haccounted.loaded_eq, Option.isSome_iff_exists, Usage.scripts, List.mem_map]
    simp only [← Usage.mem_counts hsorted]
    constructor
    · rintro ⟨⟨_, n⟩, hmem, rfl⟩
      exact ⟨n, hmem⟩
    · rintro ⟨n, hmem⟩
      exact ⟨_, hmem, rfl⟩
  refine ⟨unrecorded_tellAll .., haccounted.alternate.exists_rounds, hscripts, fun script n hn => ?_,
    fun _ _ => tell_failed, fun h owner _ _ hcount hload => tell_of_load_failed hcount hload h owner, shutdown_eq ..,
    fun script => ?_⟩
  · have hused := haccounted.used script
    rw [hn, ne_eq, Option.some.injEq] at hused
    omega
  · have hnodup : s.usage.scripts.Nodup := hsorted.imp ne_of_lt
    obtain ⟨halternate, hafter⟩ :=
      alternate_unloads haccounted.alternate hnodup fun script hmem => (hscripts script).mp hmem
    obtain ⟨n, hn⟩ := halternate.exists_rounds script
    -- a script that is loaded has users, and is unloaded by the shutdown
    have hunloaded : (loaded script s.requests && !s.usage.scripts.contains script) = false := by
      rw [Bool.and_eq_false_iff]
      by_cases hloaded : loaded script s.requests = true
      · simp [(hscripts script).mpr hloaded]
      · simp [hloaded]
    rw [hafter, hunloaded] at hn
    rw [requests_unloaded]
    exact ⟨n, by simpa using hn⟩

end Scripts

end Cadence
