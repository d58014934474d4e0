import Cadence.System.Basic

/-!
Systems that do nothing but count their updates, and hand a result back that nobody needs.
-/

namespace Cadence.Session

inductive Ticker.Make
  | unit
  | words
  | plain
  deriving DecidableEq

/-- Without a `size` no result is handed back. -/
structure Ticker where
  make : Ticker.Make
  size : Option Nat := none
  updates : Nat := 0

/-- Nothing, a vector of 32-bit words, or a block of 32 bytes. -/
inductive Ticker.Parcel
  | unit
  | words (values : List UInt32)
  | plain

namespace Ticker

def Make.name : Make → String
  | unit => "driver::Basic<()>"
  | words => "driver::Basic<alloc::vec::Vec<u32>>"
  | plain => "driver::Basic<driver::Plain>"

def parcel (t : Ticker) (frame : Nat) : Option Parcel :=
  t.size.map fun n =>
    match t.make with
    | .unit => .unit
    | .words => .words (List.replicate n (UInt32.ofNat frame))
    | .plain => .plain

def Parcel.byteSize : Parcel → Nat
  | unit => 0
  | words values => vectorBytes 4 values.length
  | plain => 32

def system (ε : Type) : System Ticker Parcel ε where
  name t := t.make.name
  accepts _ _ := true
  update ctx _ t host :=
    { outcome := .ok (t.parcel ctx.frame), system := { t with updates := t.updates + 1 }, host }
  byteSize := Parcel.byteSize

end Ticker

end Cadence.Session
