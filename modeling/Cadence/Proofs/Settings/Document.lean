import Mathlib.Algebra.Group.Nat.Defs
import Mathlib.Data.List.Basic
import Cadence.Proofs.Toml.Document
import Cadence.Settings.Document

/-!
Settings that are written are read back. A number that does not fit the document is the only thing that keeps settings
from being written, and settings that are refused for a flaw are refused for the same flaw when they are read.
-/

namespace Cadence.Settings

open Toml

/-- The numbers among the settings. -/
def counts (s : Settings) : List Nat :=
  [s.scheduling.workers, s.presentation.capacity, s.presentation.mailboxSize, s.storage.entities, s.storage.components]

/-- The largest number that a document holds. -/
def largestCount : Nat := 2 ^ 63 - 1

theorem hasPlainNames_toTables (s : Settings) : HasPlainNames s.toTables where
  bare := by
    simp only [toTables, List.forall_mem_cons]
    decide
  distinct := by simp [toTables]
  bareEntries := by
    simp only [toTables, List.forall_mem_cons]
    decide
  distinctEntries := by simp [toTables]

theorem ofEntries_toTables (s : Settings) :
    ofEntries (s.toTables.map fun (name, entries) => (name, .table entries)) = some s := by
  simp [ofEntries, toTables, readPart, fieldsOf, readScheduling, readPresentation, readStorage, readCount, readFlag,
    List.lookup_cons]

theorem writePlain_integer_eq_none_iff (n : Nat) : writePlain (.integer n) = none ↔ largestCount < n := by
  have hfits : isInt64 n = true ↔ ¬ largestCount < n := by
    simp only [isInt64, Bool.and_eq_true, decide_eq_true_iff, largestCount]
    omega
  rw [writePlain]
  split
  · rename_i h
    exact ⟨nofun, fun hlt => absurd hlt (hfits.mp h)⟩
  · rename_i h
    exact ⟨fun _ => not_not.mp (mt hfits.mpr h), fun _ => rfl⟩

theorem writePlain_boolean_ne_none (b : Bool) : writePlain (.boolean b) ≠ none := by
  cases b <;> simp [writePlain]

theorem toText_eq_error_iff (s : Settings) : s.toText = .error .unwritable ↔ ∃ n ∈ s.counts, largestCount < n := by
  have hwrite : s.toText = .error .unwritable ↔ writeTables s.toTables = none := by
    cases h : writeTables s.toTables <;> simp [toText, h]
  rw [hwrite, writeTables_eq_none_iff]
  simp only [toTables, counts, List.exists_mem_cons_iff, List.not_mem_nil, false_and, exists_false, or_false,
    writePlain_integer_eq_none_iff, writePlain_boolean_ne_none, false_or, or_assoc]

/-- Unless a number is too large, the settings come back from their text, and with the flaw that they are refused for. -/
theorem text_round_trip (s : Settings) :
    (s.toText = .error .unwritable ↔ ∃ n ∈ s.counts, largestCount < n) ∧
      (s.toText = .error .unwritable ∨
        ∃ text, s.toText = .ok text ∧ ofText text =
          match s.validate with
          | .ok _ => .ok s
          | .error err => .error err) := by
  refine ⟨toText_eq_error_iff s, ?_⟩
  cases htext : writeTables s.toTables with
  | none => exact .inl (by rw [toText, htext])
  | some text =>
    refine .inr ⟨text, by rw [toText, htext], ?_⟩
    rw [ofText, parse?_writeTables (hasPlainNames_toTables s) htext, Option.bind_some, ofEntries_toTables]
    dsimp only
    cases s.validate <;> rfl

end Cadence.Settings
