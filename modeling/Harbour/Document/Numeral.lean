namespace Harbour.Document

-- No rounding has happened yet: the digits after the point are kept as they
-- are, and the exponent has no bound.
structure Numeral where
  negative : Bool
  whole : Nat
  fraction : List Char
  exponent : Option Int
deriving DecidableEq, Repr

namespace Numeral

def ofNat (n : Nat) : Numeral := ⟨false,n,[],none⟩

def ofInt (i : Int) : Numeral := ⟨i < 0,i.natAbs,[],none⟩

def decimal (digits : List Char) : Nat := Nat.ofDigitChars 10 digits 0

def signText (negative : Bool) : List Char := if negative then ['-'] else []

def fractionText : List Char → List Char
  | [] => []
  | digits => '.' :: digits

def exponentText : Option Int → List Char
  | none => []
  | some e => 'e' :: (if e < 0 then '-' else '+') :: Nat.toDigits 10 e.natAbs

def text (n : Numeral) : List Char :=
  signText n.negative ++ Nat.toDigits 10 n.whole ++ fractionText n.fraction ++ exponentText n.exponent

def readWhole (cs : List Char) : Option (Nat × List Char) :=
  match cs.takeWhile Char.isDigit with
  | [] => none
  | '0' :: _ :: _ => none
  | digits => some (decimal digits,cs.dropWhile Char.isDigit)

def readFraction : List Char → Option (List Char × List Char)
  | '.' :: cs =>
      match cs.takeWhile Char.isDigit with
      | [] => none
      | digits => some (digits,cs.dropWhile Char.isDigit)
  | cs => some ([],cs)

def readPower (negative : Bool) (cs : List Char) : Option (Option Int × List Char) :=
  match cs.takeWhile Char.isDigit with
  | [] => none
  | digits =>
      let power : Int := decimal digits
      some (some (if negative then -power else power),cs.dropWhile Char.isDigit)

def readExponent : List Char → Option (Option Int × List Char)
  | c :: cs =>
      if c = 'e' ∨ c = 'E' then
        match cs with
        | '+' :: cs => readPower false cs
        | '-' :: cs => readPower true cs
        | cs => readPower false cs
      else some (none,c :: cs)
  | [] => some (none,[])

def readUnsigned (negative : Bool) (cs : List Char) : Option (Numeral × List Char) := do
  let (whole,cs) ← readWhole cs
  let (fraction,cs) ← readFraction cs
  let (exponent,cs) ← readExponent cs
  return (⟨negative,whole,fraction,exponent⟩,cs)

def read : List Char → Option (Numeral × List Char)
  | '-' :: cs => readUnsigned true cs
  | cs => readUnsigned false cs

-- Integers span the unsigned and the signed 64-bit range together. Beyond it,
-- and for a negative zero, a number counts as fractional.
def integer? (n : Numeral) : Option Int :=
  if n.fraction = [] ∧ n.exponent = none then
    if n.negative then
      if 0 < n.whole ∧ n.whole ≤ 0x8000000000000000 then some (-n.whole) else none
    else if n.whole < 0x10000000000000000 then some n.whole else none
  else none

end Numeral

end Harbour.Document
