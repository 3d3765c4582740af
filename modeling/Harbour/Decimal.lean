namespace Harbour.Decimal

structure Scaled where
  digits : Nat
  power : Int
deriving DecidableEq, Repr

namespace Scaled

def clip (s : Scaled) : Scaled :=
  if s.digits < 0x10000000000000000 then s else clip ⟨s.digits / 10,s.power + 1⟩
termination_by s.digits
decreasing_by omega

def extend (s : Scaled) : List Char → Scaled
  | [] => s
  | d :: rest =>
      let wider := s.digits * 10 + (d.toNat - '0'.toNat)
      if wider < 0x10000000000000000 then extend ⟨wider,s.power - 1⟩ rest else s

def tenTo (n : Nat) : Float := Float.ofScientific 1 false n

-- The digits are converted first and then scaled by a power of ten. That is
-- exact for up to fifteen digits and a small power, and a step or two off the
-- nearest fraction otherwise.
def toFloat? (s : Scaled) : Option Float :=
  let f := (UInt64.ofNat s.digits).toFloat
  if s.digits = 0 then some 0
  else if 308 < s.power then none
  else if 0 ≤ s.power then
    let scaled := f * tenTo s.power.toNat
    if scaled.isInf then none else some scaled
  else if -308 ≤ s.power then some (f / tenTo (-s.power).toNat)
  else if -616 ≤ s.power then some (f / tenTo 308 / tenTo (-s.power - 308).toNat)
  else some 0

end Scaled

-- The reals that round to `significand * 2 ^ power` form an interval, whose
-- ends belong to it when the significand is even. All sizes are taken in
-- quarters of the last binary place, so the ends are integers.
structure Binary where
  significand : Nat
  power : Int
  -- Below a power of two the spacing halves.
  narrow : Bool
deriving DecidableEq, Repr

namespace Binary

def ofBits (bits : UInt64) : Binary :=
  let unit : Nat := 0x10000000000000
  let mantissa : Nat := bits.toNat % unit
  let biased : Nat := bits.toNat / unit % 2048
  if biased = 0 then ⟨mantissa,-1074,false⟩
  else ⟨unit + mantissa,(biased : Int) - 1075,mantissa = 0 ∧ 1 < biased⟩

def low (b : Binary) : Nat := 4 * b.significand - (if b.narrow then 1 else 2)
def middle (b : Binary) : Nat := 4 * b.significand
def high (b : Binary) : Nat := 4 * b.significand + 2

def numerator (b : Binary) (power : Int) : Nat := Nat.pow 2 (b.power - 2).toNat * Nat.pow 10 (-power).toNat
def denominator (b : Binary) (power : Int) : Nat := Nat.pow 2 (2 - b.power).toNat * Nat.pow 10 power.toNat

def inside (b : Binary) (power : Int) (digits : Nat) : Bool :=
  let point := digits * b.denominator power
  let below := b.low * b.numerator power
  let above := b.high * b.numerator power
  if b.significand % 2 = 0 then below ≤ point ∧ point ≤ above else below < point ∧ point < above

def onGrid? (b : Binary) (power : Int) : Option Nat :=
  let value := b.middle * b.numerator power
  let step := b.denominator power
  let under := value / step
  let twice := 2 * (value % step)
  let upward := step < twice ∨ (step = twice ∧ under % 2 = 1)
  let (first,second) := if upward then (under + 1,under) else (under,under + 1)
  if b.inside power first then some first
  else if b.inside power second then some second
  else none

-- The coarsest grid that has such a point needs the fewest digits. Sixty-four
-- bit numbers reach from 10 ^ 309 down to 10 ^ -324.
def coarsest (b : Binary) : Nat → Int → Scaled
  | 0,power => ⟨0,power⟩
  | fuel+1,power =>
      match b.onGrid? power with
      | some digits => ⟨digits,power⟩
      | none => b.coarsest fuel (power - 1)

def shortest (b : Binary) : Scaled := b.coarsest 640 309

end Binary

end Harbour.Decimal
