import Cadence.Toml.Number
import Cadence.Toml.Tree

/-!
Reads documents: first their lines, then the tables that the lines describe.
-/

namespace Cadence.Toml

/-! ### Values -/

/-- Skips spaces, line breaks and comments, as they may stand between the items of an array. -/
def skipFiller : Nat → List Char → List Char
  | 0, text => text
  | n + 1, text =>
    match skipSpaces text with
    | '#' :: rest =>
      match newline? (skipComment ('#' :: rest)) with
      | some rest => skipFiller n rest
      | none => '#' :: rest
    | rest =>
      match newline? rest with
      | some rest => skipFiller n rest
      | none => rest

/-- The items of an array up to its closing bracket; a comma may stand behind the last one. -/
def arrayItems (item : Reader Value) : Nat → Reader (List Value)
  | 0, _ => none
  | n + 1, text =>
    match skipFiller text.length text with
    | ']' :: rest => some ([], rest)
    | text =>
      match item text with
      | none => none
      | some (value, rest) =>
        match skipFiller rest.length rest with
        | ',' :: rest => (arrayItems item n rest).map fun (values, rest) => (value :: values, rest)
        | ']' :: rest => some ([value], rest)
        | _ => none

/-- A key with its value. -/
def pair (item : Reader Value) : Reader ((List String × String) × Value) := fun text =>
  match key text with
  | some (name, '=' :: rest) => (item (skipSpaces rest)).map fun (value, rest) => ((name, value), rest)
  | _ => none

/-- The pairs of an inline table up to its closing brace. -/
def tablePairs (item : Reader Value) : Nat → Reader (List ((List String × String) × Value))
  | 0, _ => none
  | n + 1, text =>
    match pair item text with
    | none => none
    | some (first, rest) =>
      match skipSpaces rest with
      | ',' :: rest => (tablePairs item n rest).map fun (pairs, rest) => (first :: pairs, rest)
      | '\x7d' :: rest => some ([first], rest)
      | _ => none

/-- An inline table is put together from its pairs alone, and nothing is added to it later. -/
def inlineTable (pairs : List ((List String × String) × Value)) : Option Value :=
  (pairs.foldlM (fun (entries : Entries) ((path, name), value) => Entries.assign name value path entries) []).map
    fun entries => .table (Entries.toValues entries)

/-- A value that may nest `depth` levels deep. -/
def value (depth : Nat) : Reader Value := fun text =>
  match depth, text with
  | n + 1, '[' :: rest => (arrayItems (value n) (rest.length + 1) rest).map fun (items, rest) => (.array items, rest)
  | n + 1, '\x7b' :: rest =>
    match skipSpaces rest with
    | '\x7d' :: rest => some (.table [], rest)
    | text =>
      match tablePairs (value n) (text.length + 1) text with
      | none => none
      | some (pairs, rest) => (inlineTable pairs).map fun table => (table, rest)
  | _, text => scalar text

/-! ### Lines -/

/-- A line that holds more than a comment, up to the start of the next one. -/
def line : Reader Line
  | '[' :: '[' :: rest =>
    match key rest with
    | some ((path, name), ']' :: ']' :: rest) => (lineEnd? rest).map fun rest => (.appends path name, rest)
    | _ => none
  | '[' :: rest =>
    match key rest with
    | some ((path, name), ']' :: rest) => (lineEnd? rest).map fun rest => (.opens path name, rest)
    | _ => none
  | text =>
    match pair (value depthLimit) text with
    | some (((path, name), value), rest) => (lineEnd? rest).map fun rest => (.assigns path name value, rest)
    | none => none

/-- The lines of a text. The first argument bounds their number. -/
def lines : Nat → List Char → Option (List Line)
  | 0, _ => none
  | n + 1, text =>
    match skipSpaces text with
    | [] => some []
    | c :: rest =>
      match lineEnd? (c :: rest) with
      | some rest => lines n rest
      | none =>
        match line (c :: rest) with
        | none => none
        | some (first, rest) => (lines n rest).map (first :: ·)

/-- A byte order mark in front of a document is no part of it. -/
def skipMark : List Char → List Char
  | '\ufeff' :: rest => rest
  | text => text

/-- The table that a text describes, or `none` if the text is no document. -/
def parse? (text : String) : Option (List (String × Value)) :=
  let text := skipMark text.toList
  (lines (text.length + 1) text).bind Document.ofLines

end Cadence.Toml
