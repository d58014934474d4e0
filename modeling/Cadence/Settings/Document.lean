import Cadence.Settings.Environment
import Cadence.Toml.Document
import Cadence.Toml.Writer

/-!
Settings as a TOML document with one table for each part. What the document leaves out keeps its default, and what it
says beyond the settings is ignored.
-/

namespace Cadence.Settings

open Toml

def schedulingFields : List String := ["worker_threads", "parallel_early", "parallel_script", "parallel_late"]

def presentationFields : List String := ["initial_capacity", "sort_by_layer", "notify_capacity"]

def storageFields : List String := ["entity_capacity", "component_capacity"]

/-! ### Reading -/

/-- What a value says about the fields of one part. A table names them and an array gives them in their order; a date
says nothing about any of them. -/
def fieldsOf (fields : List String) : Value → Option (List (String × Value))
  | .table entries => some entries
  | .array items => some (fields.zip items)
  | .moment _ => some []
  | _ => none

def readCount (entries : List (String × Value)) (name : String) (default : Nat) : Option Nat :=
  match entries.lookup name with
  | none => some default
  | some (.integer n) => if 0 ≤ n then some n.toNat else none
  | some _ => none

def readFlag (entries : List (String × Value)) (name : String) (default : Bool) : Option Bool :=
  match entries.lookup name with
  | none => some default
  | some (.boolean b) => some b
  | some _ => none

def readScheduling (entries : List (String × Value)) : Option Scheduling := do
  let default : Scheduling := {}
  let workers ← readCount entries "worker_threads" default.workers
  let early ← readFlag entries "parallel_early" default.parallel.early
  let script ← readFlag entries "parallel_script" default.parallel.script
  let late ← readFlag entries "parallel_late" default.parallel.late
  return { workers, parallel := ⟨early, script, late⟩ }

def readPresentation (entries : List (String × Value)) : Option Presentation := do
  let default : Presentation := {}
  let capacity ← readCount entries "initial_capacity" default.capacity
  let layered ← readFlag entries "sort_by_layer" default.layered
  let mailboxSize ← readCount entries "notify_capacity" default.mailboxSize
  return { capacity, layered, mailboxSize }

def readStorage (entries : List (String × Value)) : Option Storage := do
  let default : Storage := {}
  let entities ← readCount entries "entity_capacity" default.entities
  let components ← readCount entries "component_capacity" default.components
  return { entities, components }

/-- Reads one part, which is its default if the document does not mention it. -/
def readPart {α : Type} (entries : List (String × Value)) (name : String) (fields : List String) (default : α)
    (read : List (String × Value) → Option α) : Option α :=
  match entries.lookup name with
  | none => some default
  | some value => (fieldsOf fields value).bind read

def ofEntries (entries : List (String × Value)) : Option Settings := do
  let scheduling ← readPart entries "scheduler" schedulingFields {} readScheduling
  let presentation ← readPart entries "render" presentationFields {} readPresentation
  let storage ← readPart entries "world" storageFields {} readStorage
  return { scheduling, presentation, storage }

/-- The valid settings that a text describes. -/
def ofText (text : String) : Except Error Settings :=
  match (parse? text).bind ofEntries with
  | none => .error .malformed
  | some s => s.validate.map fun _ => s

/-- The valid settings in a file, given its bytes unless it is missing. -/
def ofFile : Option ByteArray → Except Error Settings
  | none => .error .unreadable
  | some bytes =>
    match String.fromUTF8? bytes with
    | none => .error .unreadable
    | some text => ofText text

/-! ### Writing -/

def toTables (s : Settings) : List (String × List (String × Value)) :=
  [("scheduler",
    [("worker_threads", .integer s.scheduling.workers),
     ("parallel_early", .boolean s.scheduling.parallel.early),
     ("parallel_script", .boolean s.scheduling.parallel.script),
     ("parallel_late", .boolean s.scheduling.parallel.late)]),
   ("render",
    [("initial_capacity", .integer s.presentation.capacity),
     ("sort_by_layer", .boolean s.presentation.layered),
     ("notify_capacity", .integer s.presentation.mailboxSize)]),
   ("world",
    [("entity_capacity", .integer s.storage.entities),
     ("component_capacity", .integer s.storage.components)])]

/-- The document that describes the settings, if their numbers fit it. -/
def toText (s : Settings) : Except Error String :=
  match writeTables s.toTables with
  | none => .error .unwritable
  | some text => .ok text

end Cadence.Settings
