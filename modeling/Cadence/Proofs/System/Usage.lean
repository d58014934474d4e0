import Cadence.Proofs.System.Catalogs
import Mathlib.Data.String.Basic

/-!
The users that a script system counts. Its index has the components it has been told of, and its usage has for every
script the number of those that name it: what adds to the one adds to the other, and what takes from the one takes from
the other, as long as a component is named at its end as it was at its beginning.
-/

namespace Cadence

namespace Usage

/-- Every script stands there once, in the order of the names. -/
def Sorted (u : Usage) : Prop := u.scripts.Pairwise (· < ·)

theorem mem_put {script : String} {n : Nat} {l : List (String × Nat)} {p : String × Nat} (h : p ∈ put script n l) :
    p.1 = script ∨ p ∈ l := by
  fun_induction put script n l <;> grind

theorem sorted_set {u : Usage} (h : u.Sorted) (script : String) (n : Nat) : (u.set script n).Sorted := by
  obtain ⟨l⟩ := u
  unfold Sorted scripts at h ⊢
  rw [List.pairwise_map] at h ⊢
  rw [set]
  dsimp only at h ⊢
  induction l with
  | nil => simp [put]
  | cons p rest ih =>
    obtain ⟨name, m⟩ := p
    rw [put]
    split
    · rename_i heq
      subst heq
      simpa only [List.pairwise_cons] using h
    split
    · rename_i hlt
      refine List.pairwise_cons.mpr ⟨fun q hq => ?_, h⟩
      obtain rfl | hq := List.mem_cons.mp hq
      · exact hlt
      · exact hlt.trans ((List.pairwise_cons.mp h).1 q hq)
    · rename_i hne hnot
      refine List.pairwise_cons.mpr ⟨fun q hq => ?_, ih (List.pairwise_cons.mp h).2⟩
      obtain hscript | hq := mem_put hq
      · rw [hscript]
        exact lt_of_le_of_ne (not_lt.mp hnot) (Ne.symm hne)
      · exact (List.pairwise_cons.mp h).1 q hq

theorem sorted_erase {u : Usage} (h : u.Sorted) (script : String) : (u.erase script).Sorted :=
  h.sublist (List.filter_sublist.map _)

theorem mem_counts {u : Usage} (h : u.Sorted) {script : String} {n : Nat} :
    (script, n) ∈ u.counts ↔ u.count? script = some n := by
  obtain ⟨l⟩ := u
  unfold Sorted scripts at h
  unfold count?
  dsimp only at h ⊢
  induction l with
  | nil => simp
  | cons p rest ih =>
    obtain ⟨name, m⟩ := p
    rw [List.map_cons, List.pairwise_cons] at h
    rw [lookup_cons_eq_ite, List.mem_cons]
    split
    · rename_i heq
      subst heq
      have hnot : (script, n) ∉ rest := fun hmem => lt_irrefl _ (h.1 script (List.mem_map_of_mem hmem))
      simp [hnot, eq_comm]
    · rename_i hne
      simp [hne, ih h.2]

theorem used_set {u : Usage} (hu : ∀ script, u.count? script ≠ some 0) (script : String) {n : Nat} (hn : n ≠ 0)
    (other : String) : (u.set script n).count? other ≠ some 0 := by
  rw [count?_set]
  split
  · simpa using hn
  · exact hu other

theorem used_erase {u : Usage} (hu : ∀ script, u.count? script ≠ some 0) (script other : String) :
    (u.erase script).count? other ≠ some 0 := by
  rw [count?_erase]
  split
  · simp
  · exact hu other

end Usage

namespace Index

/-! ### The entries under a name -/

/-- How many components of the index bear a name. -/
def users (ix : Index) (name? : Handle → Option String) (script : String) : Nat :=
  ix.pairs.countP fun p => name? p.1 == some script

variable {ix : Index} {name? name?' : Handle → Option String} {h : Handle} {owner : Entity} {script : String}

theorem users_insert (hx : ix.Sound) (hnone : ix.owner? h = none) (hname : name? h = some script) (other : String) :
    (ix.insert h owner).2.users name? other = ix.users name? other + if other = script then 1 else 0 := by
  rw [users, (pairs_insert hx hnone owner).countP_eq, List.countP_cons]
  by_cases heq : other = script
  · simp [users, hname, heq]
  · simp [users, hname, heq, Ne.symm heq]

theorem users_remove (hx : ix.Sound) (hsome : ix.owner? h = some owner) (hname : name? h = some script)
    (other : String) :
    ix.users name? other = (ix.remove h).2.users name? other + if other = script then 1 else 0 := by
  rw [users, (pairs_remove hx hsome).countP_eq, List.countP_cons]
  by_cases heq : other = script
  · simp [users, hname, heq]
  · simp [users, hname, heq, Ne.symm heq]

theorem users_congr (hx : ix.Sound) (hsame : ∀ h, (ix.owner? h).isSome → name?' h = name? h) (script : String) :
    ix.users name?' script = ix.users name? script := by
  refine List.countP_congr fun p hmem => ?_
  rw [hsame p.1 (by rw [(mem_pairs hx).mp hmem]; rfl)]

end Index

namespace Scripts

variable {τ ε : Type} {I : Interpreter τ ε} {s : Scripts τ} {name? name?' : Handle → Option String} {h : Handle}
  {owner : Entity} {script : String}

/-- The usage gives for every name the number of components that bear it, and has no names that none bears. -/
structure Counts (s : Scripts τ) (name? : Handle → Option String) : Prop where
  sorted : s.usage.Sorted
  count?_eq : ∀ script, s.usage.count? script =
    if s.attachments.users name? script = 0 then none else some (s.attachments.users name? script)

/-- What a component of the index names has users. -/
theorem Counts.isSome_count? (hs : s.Counts name?) (hsound : s.attachments.Sound)
    (hsome : (s.attachments.owner? h).isSome) (hname : name? h = some script) :
    (s.usage.count? script).isSome = true := by
  obtain ⟨owner, howner⟩ := Option.isSome_iff_exists.mp hsome
  have hused : s.attachments.users name? script ≠ 0 := by
    refine Nat.ne_of_gt (List.countP_pos_iff.mpr ⟨(h, owner), (Index.mem_pairs hsound).mpr howner, ?_⟩)
    simp [hname]
  rw [hs.count?_eq, if_neg hused]
  rfl

theorem Counts.congr (hs : s.Counts name?) (hsound : s.attachments.Sound)
    (hsame : ∀ h, (s.attachments.owner? h).isSome → name?' h = name? h) : s.Counts name?' := by
  refine ⟨hs.sorted, fun script => ?_⟩
  rw [hs.count?_eq, Index.users_congr hsound hsame]

/-- The interpreter has no part in the count. -/
theorem Counts.of_eq {τ' : Type} {s' : Scripts τ'} (hs : s.Counts name?) (hattachments : s'.attachments = s.attachments)
    (husage : s'.usage = s.usage) : s'.Counts name? := by
  refine ⟨husage ▸ hs.sorted, fun script => ?_⟩
  rw [husage, hattachments, hs.count?_eq]

theorem usage_call (I : Interpreter τ ε) (w : World) (dt : Float32) (s : Scripts τ) (host : ε) :
    (call I w dt s host).system.usage = s.usage := by
  rw [call]
  split
  · rfl
  · split <;> rfl

theorem counts_new (interpreter : τ) (name? : Handle → Option String) : ({ interpreter } : Scripts τ).Counts name? :=
  ⟨.nil, fun _ => rfl⟩

theorem usage_addUser {host : ε} (hok : (addUser I h owner script s host).outcome = .ok ()) :
    (addUser I h owner script s host).system.usage = s.usage.set script ((s.usage.count? script).getD 0 + 1) := by
  rw [addUser] at hok ⊢
  dsimp only at hok ⊢
  split at hok
  · cases hok
  · rfl

/-- A component that was not in the index has become one user more of its script. -/
theorem Counts.addUser (hs : s.Counts name?) (hsound : s.attachments.Sound) (hnone : s.attachments.owner? h = none)
    (hname : name? h = some script) {host : ε} (hok : (Scripts.addUser I h owner script s host).outcome = .ok ()) :
    (Scripts.addUser I h owner script s host).system.Counts name? := by
  refine ⟨?_, fun other => ?_⟩
  · rw [usage_addUser hok]
    exact Usage.sorted_set hs.sorted ..
  · rw [usage_addUser hok, attachments_addUser hok, Usage.count?_set, Index.users_insert hsound hnone hname]
    by_cases heq : other = script
    · subst heq
      rw [if_pos rfl, if_pos rfl, hs.count?_eq]
      split <;> simp [*]
    · simp [heq, hs.count?_eq]

/-- A component that is taken out of the index is one user less of its script. -/
theorem Counts.dropUser (I : Interpreter τ ε) (hs : s.Counts name?) (hsound : s.attachments.Sound)
    (hsome : s.attachments.owner? h = some owner) (hname : name? h = some script) (host : ε) :
    (Scripts.dropUser I script { s with attachments := (s.attachments.remove h).2 } host).1.Counts name? := by
  have husers := Index.users_remove hsound hsome hname
  have hcount : s.usage.count? script = some ((s.attachments.remove h).2.users name? script + 1) := by
    rw [hs.count?_eq, husers script]
    simp
  rw [Scripts.dropUser]
  dsimp only
  rw [hcount]
  dsimp only
  rw [Nat.add_sub_cancel]
  split
  · rename_i hlast
    refine ⟨Usage.sorted_erase hs.sorted _, fun other => ?_⟩
    rw [Usage.count?_erase]
    by_cases heq : other = script
    · subst heq
      simp [hlast]
    · simp [heq, hs.count?_eq, husers]
  · rename_i hmore
    refine ⟨Usage.sorted_set hs.sorted .., fun other => ?_⟩
    rw [Usage.count?_set]
    by_cases heq : other = script
    · subst heq
      simp [hmore]
    · simp [heq, hs.count?_eq, husers]

/-! ### The two callbacks -/

theorem Counts.added (hs : s.Counts name?) (hsound : s.attachments.Sound) (hnone : s.attachments.owner? h = none)
    {data : Script} (hname : name? h = some data.name) {host : ε}
    (hok : ((system I).added h owner ⟨.script, data⟩ s host).outcome = .ok ()) :
    ((system I).added h owner ⟨.script, data⟩ s host).system.Counts name? := by
  simp only [system, Component.as_kind] at hok ⊢
  exact hs.addUser hsound hnone hname hok

theorem Counts.removed (I : Interpreter τ ε) (hs : s.Counts name?) (hsound : s.attachments.Sound) {data : Script}
    (hname : name? h = some data.name) (owner : Entity) (host : ε) :
    ((system I).removed h owner ⟨.script, data⟩ s host).system.Counts name? := by
  simp only [system, Component.as_kind]
  split
  · exact hs
  · rename_i entry attachments hremove
    have hsome := Index.owner?_of_remove (congrArg Prod.fst hremove)
    have hleft : attachments = (s.attachments.remove h).2 := by rw [hremove]
    rw [hleft]
    exact hs.dropUser I hsound hsome hname host

end Scripts

end Cadence
