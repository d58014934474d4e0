import Cadence.Toml.Value

/-!
Strings and keys. A basic string stands between double quotes and knows escapes, a literal string stands between
single quotes and is taken as it is; either may run over several lines between three quotes.
-/

namespace Cadence.Toml

def isHexDigit (c : Char) : Bool := c.isDigit || ('a' ≤ c && c ≤ 'f') || ('A' ≤ c && c ≤ 'F')

def hexDigit (c : Char) : Nat :=
  if c.isDigit then c.toNat - '0'.toNat
  else if 'a' ≤ c then c.toNat - 'a'.toNat + 10
  else c.toNat - 'A'.toNat + 10

/-- The character that `count` hexadecimal digits name. -/
def codePoint (count : Nat) : Reader Char := fun text =>
  let digits := text.take count
  if digits.length = count && digits.all isHexDigit then
    let code := digits.foldl (fun n c => 16 * n + hexDigit c) 0
    if Nat.isValidChar code then some (Char.ofNat code, text.drop count) else none
  else none

/-- An escaped character, its backslash taken away already. -/
def escaped : Reader Char
  | 'b' :: rest => some ('\x08', rest)
  | 't' :: rest => some ('\t', rest)
  | 'n' :: rest => some ('\n', rest)
  | 'f' :: rest => some ('\x0c', rest)
  | 'r' :: rest => some ('\r', rest)
  | '"' :: rest => some ('"', rest)
  | '\\' :: rest => some ('\\', rest)
  | 'u' :: rest => codePoint 4 rest
  | 'U' :: rest => codePoint 8 rest
  | _ => none

/-- The text behind a backslash that ends its line: blanks and line breaks up to the next other character. -/
def continuation? (text : List Char) : Option (List Char) :=
  (newline? (skipSpaces text)).map skipBlanks
where
  skipBlanks : List Char → List Char
    | ' ' :: rest => skipBlanks rest
    | '\t' :: rest => skipBlanks rest
    | '\n' :: rest => skipBlanks rest
    | '\r' :: '\n' :: rest => skipBlanks rest
    | text => text

/-- The rest of a basic string on one line. The first argument bounds the characters that are read. -/
def basicBody : Nat → Reader (List Char)
  | 0, _ => none
  | _ + 1, [] => none
  | _ + 1, '"' :: rest => some ([], rest)
  | n + 1, '\\' :: rest =>
    match escaped rest with
    | none => none
    | some (c, rest) => (basicBody n rest).map fun (cs, rest) => (c :: cs, rest)
  | n + 1, c :: rest =>
    if isPrintable c then (basicBody n rest).map fun (cs, rest) => (c :: cs, rest) else none

def literalBody : Reader (List Char)
  | [] => none
  | '\'' :: rest => some ([], rest)
  | c :: rest => if isPrintable c then (literalBody rest).map fun (cs, rest) => (c :: cs, rest) else none

/-- The end of a string over several lines: three quotes, before which up to two more belong to the string. -/
def closing? (quote : Char) (text : List Char) : Option (List Char × List Char) :=
  match text.takeWhile (· == quote) with
  | [_, _, _] => some ([], text.drop 3)
  | [_, _, _, _] => some ([quote], text.drop 4)
  | _ :: _ :: _ :: _ :: _ :: _ => some ([quote, quote], text.drop 5)
  | _ => none

/-- The rest of a basic string over several lines. -/
def basicLines : Nat → Reader (List Char)
  | 0, _ => none
  | _ + 1, [] => none
  | n + 1, '\\' :: rest =>
    match continuation? rest with
    | some rest => basicLines n rest
    | none =>
      match escaped rest with
      | none => none
      | some (c, rest) => (basicLines n rest).map fun (cs, rest) => (c :: cs, rest)
  | n + 1, c :: rest =>
    match closing? '"' (c :: rest) with
    | some found => some found
    | none =>
      match newline? (c :: rest) with
      | some rest => (basicLines n rest).map fun (cs, rest) => ('\n' :: cs, rest)
      | none =>
        if isPrintable c then (basicLines n rest).map fun (cs, rest) => (c :: cs, rest) else none

/-- The rest of a literal string over several lines. -/
def literalLines : Nat → Reader (List Char)
  | 0, _ => none
  | _ + 1, [] => none
  | n + 1, c :: rest =>
    match closing? '\'' (c :: rest) with
    | some found => some found
    | none =>
      match newline? (c :: rest) with
      | some rest => (literalLines n rest).map fun (cs, rest) => ('\n' :: cs, rest)
      | none =>
        if isPrintable c then (literalLines n rest).map fun (cs, rest) => (c :: cs, rest) else none

/-- A string over several lines does not hold the line break right behind its opening quotes. -/
def skipFirstBreak (text : List Char) : List Char := (newline? text).getD text

def quoted : Reader String
  | '"' :: '"' :: '"' :: rest =>
    (basicLines (rest.length + 1) (skipFirstBreak rest)).map fun (cs, rest) => (String.ofList cs, rest)
  | '\'' :: '\'' :: '\'' :: rest =>
    (literalLines (rest.length + 1) (skipFirstBreak rest)).map fun (cs, rest) => (String.ofList cs, rest)
  | '"' :: rest => (basicBody (rest.length + 1) rest).map fun (cs, rest) => (String.ofList cs, rest)
  | '\'' :: rest => (literalBody rest).map fun (cs, rest) => (String.ofList cs, rest)
  | _ => none

def isBareKeyChar (c : Char) : Bool := c.isAlphanum || c == '_' || c == '-'

/-- One part of a key: bare, or a string on one line. -/
def keyPart : Reader String
  | '"' :: rest => (basicBody (rest.length + 1) rest).map fun (cs, rest) => (String.ofList cs, rest)
  | '\'' :: rest => (literalBody rest).map fun (cs, rest) => (String.ofList cs, rest)
  | text =>
    let name := text.takeWhile isBareKeyChar
    if name.isEmpty then none else some (String.ofList name, text.dropWhile isBareKeyChar)

/-- The parts of a key with dots between them, spaces around each part, at most `limit` parts. -/
def keyParts : Nat → Reader (List String)
  | 0, _ => none
  | n + 1, text =>
    match keyPart (skipSpaces text) with
    | none => none
    | some (part, rest) =>
      match skipSpaces rest with
      | '.' :: rest => (keyParts n rest).map fun (parts, rest) => (part :: parts, rest)
      | rest => some ([part], rest)

/-- How deep keys, arrays and tables may nest. -/
def depthLimit : Nat := 79

/-- A key: the path to its table and its own name. -/
def key : Reader (List String × String) := fun text =>
  match keyParts depthLimit text with
  | none => none
  | some (parts, rest) => parts.getLast?.map fun name => ((parts.dropLast, name), rest)

end Cadence.Toml
