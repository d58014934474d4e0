import Cadence.Text.Numeral

/-!
Semantic versions: `major.minor.patch`, then optionally `-` and the identifiers of a pre-release, then optionally
`+` and the identifiers of a build. Numbers have no leading zero and fit a machine word; the identifiers of a build
may look like numbers with leading zeros.
-/

namespace Cadence

structure Version where
  major : Nat
  minor : Nat
  patch : Nat
  deriving DecidableEq

namespace Version

def number? (cs : List Char) : Option Nat :=
  match cs with
  | '0' :: _ :: _ => none
  | _ => (Text.digits? cs).filter (· ≤ Text.maxWord)

def isIdentifier (cs : List Char) : Bool :=
  !cs.isEmpty && cs.all fun c => c.isAlphanum || c == '-'

/-- A pre-release identifier that is a number has no leading zero. -/
def isPreRelease (cs : List Char) : Bool :=
  isIdentifier cs && !(cs.all Char.isDigit && cs.length ≠ 1 && cs.head? == some '0')

def parse? (text : String) : Option Version :=
  let (body, build) := Text.cut '+' text.toList
  let (core, preRelease) := Text.cut '-' body
  let wellFormed :=
    (build.all fun cs => (Text.fields '.' cs).all isIdentifier) &&
      preRelease.all fun cs => (Text.fields '.' cs).all isPreRelease
  match (Text.fields '.' core).mapM number? with
  | some [major, minor, patch] => if wellFormed then some ⟨major, minor, patch⟩ else none
  | _ => none

/-- Whether what was written against version `v` runs on version `engine`: the major versions agree, and the
minor version is no newer; before 1.0 the minor versions agree too. -/
def runsOn (v engine : Version) : Bool :=
  v.major == engine.major && if v.major == 0 then v.minor == engine.minor else v.minor ≤ engine.minor

end Version

/-- The version of the contract between this engine and its systems. -/
def apiVersion : String := "0.2.0"

/-- Texts that are no versions are compatible with nothing. -/
def isApiCompatible (system engine : String) : Bool :=
  match Version.parse? system, Version.parse? engine with
  | some v, some e => v.runsOn e
  | _, _ => false

end Cadence
