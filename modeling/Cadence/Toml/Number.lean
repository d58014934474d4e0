import Cadence.Text.Numeral
import Cadence.Toml.Quoted

/-!
Numbers, truth values, dates and times.
-/

namespace Cadence.Toml

def decimal (digits : List Char) : Nat := digits.foldl (fun n c => 10 * n + (c.toNat - '0'.toNat)) 0

/-- Digits of a class, between which single underscores may stand; the underscores are dropped. -/
def digitRun (isMember : Char → Bool) : Reader (List Char)
  | [] => none
  | c :: rest => if isMember c then some ((go rest).map (c :: ·) id) else none
where
  go : List Char → List Char × List Char
    | '_' :: c :: rest => if isMember c then (go rest).map (c :: ·) id else ([], '_' :: c :: rest)
    | c :: rest => if isMember c then (go rest).map (c :: ·) id else ([], c :: rest)
    | [] => ([], [])

/-- A decimal number without a superfluous zero in front. -/
def decimalRun : Reader (List Char)
  | '0' :: rest => some (['0'], rest)
  | text => digitRun Char.isDigit text

/-- A sign in front: whether the number is negative. -/
def sign : List Char → Bool × List Char
  | '+' :: rest => (false, rest)
  | '-' :: rest => (true, rest)
  | text => (false, text)

def signed (negative : Bool) (n : Nat) : Int := if negative then -(n : Int) else n

/-- Whether an integer fits 64 bits with a sign. -/
def isInt64 (n : Int) : Bool := -9223372036854775808 ≤ n && n ≤ 9223372036854775807

/-- The integers of an other base than ten have no sign. -/
def based (base : Nat) (isMember : Char → Bool) : Reader Value := fun text =>
  match digitRun isMember text with
  | none => none
  | some (digits, rest) =>
    let n := digits.foldl (fun n c => base * n + hexDigit c) 0
    if isInt64 n then some (.integer n, rest) else none

/-- The exponent of a float, if there is one: `none` for an exponent without digits. -/
def exponent (text : List Char) : Option (Int × List Char) :=
  match text with
  | c :: rest =>
    if c = 'e' || c = 'E' then
      let (negative, rest) := sign rest
      (digitRun Char.isDigit rest).map fun (digits, rest) => (signed negative (decimal digits), rest)
    else some (0, text)
  | [] => some (0, [])

/-- The float nearest to `mantissa * 10 ^ exponent`. Exponents far beyond those of floats need no arithmetic. -/
def magnitude (mantissa : Nat) (exponent : Int) : Float :=
  if mantissa = 0 || exponent + mantissa.log2 < -400 then 0
  else if 400 < exponent then 1.0 / 0.0
  else Float.ofScientific mantissa (exponent < 0) exponent.natAbs

/-- A float, unless it is positive and too large to have a value. -/
def floatOf (negative : Bool) (mantissa : Nat) (exponent : Int) : Option Float :=
  let size := magnitude mantissa exponent
  if negative then some (-size) else if size.isInf then none else some size

/-- An integer or a float. -/
def number : Reader Value := fun text =>
  let (negative, unsigned) := sign text
  match after? "inf".toList unsigned, after? "nan".toList unsigned with
  | some rest, _ => some (.float (if negative then -(1.0 / 0.0) else 1.0 / 0.0), rest)
  | none, some rest => some (.float (0.0 / 0.0), rest)
  | none, none =>
    match decimalRun unsigned with
    | none => none
    | some (whole, '.' :: rest) =>
      match digitRun Char.isDigit rest with
      | none => none
      | some (fraction, rest) =>
        match exponent rest with
        | none => none
        | some (e, rest) =>
          (floatOf negative (decimal (whole ++ fraction)) (e - fraction.length)).map fun x => (.float x, rest)
    | some (whole, rest) =>
      match rest with
      | 'e' :: _ | 'E' :: _ =>
        match exponent rest with
        | none => none
        | some (e, rest) => (floatOf negative (decimal whole) e).map fun x => (.float x, rest)
      | _ =>
        let n := signed negative (decimal whole)
        if isInt64 n then some (.integer n, rest) else none

/-! ### Dates and times -/

/-- A number of exactly `count` digits within limits. -/
def field (count low high : Nat) : Reader Nat := fun text =>
  let digits := text.take count
  if digits.length = count && digits.all Char.isDigit then
    let n := decimal digits
    if low ≤ n && n ≤ high then some (n, text.drop count) else none
  else none

def daysIn (year month : Nat) : Nat :=
  if month = 2 then
    if year % 4 = 0 && (year % 100 ≠ 0 || year % 400 = 0) then 29 else 28
  else if month = 4 || month = 6 || month = 9 || month = 11 then 30
  else 31

/-- The text behind a date `yyyy-mm-dd`. -/
def date? (text : List Char) : Option (List Char) := do
  let (year, rest) ← field 4 0 9999 text
  let rest ← after? ['-'] rest
  let (month, rest) ← field 2 1 12 rest
  let rest ← after? ['-'] rest
  let (_, rest) ← field 2 1 (daysIn year month) rest
  return rest

/-- The text behind a time `hh:mm:ss`, with or without a fraction of a second. -/
def time? (text : List Char) : Option (List Char) := do
  let (_, rest) ← field 2 0 23 text
  let rest ← after? [':'] rest
  let (_, rest) ← field 2 0 59 rest
  let rest ← after? [':'] rest
  let (_, rest) ← field 2 0 60 rest
  match rest with
  | '.' :: c :: more => return if c.isDigit then more.dropWhile Char.isDigit else rest
  | _ => return rest

/-- The text behind an offset from the universal time, if there is one. -/
def skipOffset (text : List Char) : Option (List Char) :=
  match text with
  | 'Z' :: rest => some rest
  | 'z' :: rest => some rest
  | c :: rest =>
    if c = '+' || c = '-' then do
      let (_, rest) ← field 2 0 23 rest
      let rest ← after? [':'] rest
      let (_, rest) ← field 2 0 59 rest
      return rest
    else some text
  | [] => some []

/-- The text behind a date, a time, or a date and a time. -/
def skipMoment (text : List Char) : Option (List Char) :=
  match date? text with
  | none => time? text
  | some rest =>
    match rest with
    | c :: more =>
      if c = 'T' || c = 't' || c = ' ' then
        match time? more with
        | none => some rest
        | some rest => skipOffset rest
      else some rest
    | [] => some []

def moment : Reader Value := fun text =>
  (skipMoment text).map fun rest => (.moment (String.ofList (text.take (text.length - rest.length))), rest)

/-- A value that holds no other values. -/
def scalar : Reader Value := fun text =>
  match text with
  | '"' :: _ | '\'' :: _ => (quoted text).map fun (s, rest) => (.string s, rest)
  | 't' :: 'r' :: 'u' :: 'e' :: rest => some (.boolean true, rest)
  | 'f' :: 'a' :: 'l' :: 's' :: 'e' :: rest => some (.boolean false, rest)
  | '0' :: 'x' :: rest => based 16 isHexDigit rest
  | '0' :: 'o' :: rest => based 8 (fun c => '0' ≤ c && c ≤ '7') rest
  | '0' :: 'b' :: rest => based 2 (fun c => c == '0' || c == '1') rest
  | _ =>
    match moment text with
    | some found => some found
    | none => number text

end Cadence.Toml
