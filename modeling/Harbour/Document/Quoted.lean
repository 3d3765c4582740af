import Harbour.Basic

namespace Harbour.Document.Quoted

def escape (c : Char) : List Char :=
  if c = '"' then ['\\','"']
  else if c = '\\' then ['\\','\\']
  else if c = '\x08' then ['\\','b']
  else if c = '\t' then ['\\','t']
  else if c = '\n' then ['\\','n']
  else if c = '\x0c' then ['\\','f']
  else if c = '\r' then ['\\','r']
  else if c.toNat < 32 then '\\' :: 'u' :: (Positional.write 16 4 c.toNat).map Nat.digitChar
  else [c]

def write (s : List Char) : List Char := '"' :: s.flatMap escape ++ ['"']

-- What stands between the quotes, unit by unit. An escaped unit is a 16-bit
-- code and may be half of a surrogate pair.
inductive Piece where
  | plain (c : Char)
  | code (n : Nat)
deriving DecidableEq, Repr

def hexValue (c : Char) : Option Nat :=
  if '0' ≤ c ∧ c ≤ '9' then some (c.toNat - '0'.toNat)
  else if 'a' ≤ c ∧ c ≤ 'f' then some (c.toNat - 'a'.toNat + 10)
  else if 'A' ≤ c ∧ c ≤ 'F' then some (c.toNat - 'A'.toNat + 10)
  else none

def hexCode (a b c d : Char) : Option Nat := do
  return Positional.read 16 [← hexValue a,← hexValue b,← hexValue c,← hexValue d]

def shortEscape : Char → Option Char
  | '"' => some '"'
  | '\\' => some '\\'
  | '/' => some '/'
  | 'b' => some '\x08'
  | 'f' => some '\x0c'
  | 'n' => some '\n'
  | 'r' => some '\r'
  | 't' => some '\t'
  | _ => none

def pieces : List Char → Option (List Piece × List Char)
  | [] => none
  | '"' :: cs => some ([],cs)
  | '\\' :: 'u' :: a :: b :: c :: d :: cs => do
      let code ← hexCode a b c d
      let (rest,cs) ← pieces cs
      return (.code code :: rest,cs)
  | '\\' :: e :: cs => do
      let c ← shortEscape e
      let (rest,cs) ← pieces cs
      return (.plain c :: rest,cs)
  | c :: cs =>
      if c = '\\' ∨ c.toNat < 32 then none
      else do
        let (rest,cs) ← pieces cs
        return (.plain c :: rest,cs)

def isHigh (n : Nat) : Bool := 0xD800 ≤ n ∧ n < 0xDC00
def isLow (n : Nat) : Bool := 0xDC00 ≤ n ∧ n < 0xE000

-- A high half must be followed at once by a low half, and a low half never
-- stands alone; otherwise the pieces name no text.
def assemble : List Piece → Option (List Char)
  | [] => some []
  | .plain c :: rest => (assemble rest).map (c :: ·)
  | .code h :: .code l :: rest =>
      if isHigh h then
        if isLow l then
          (assemble rest).map (Char.ofNat (0x10000 + (h - 0xD800) * 0x400 + (l - 0xDC00)) :: ·)
        else none
      else if isLow h then none
      else (assemble (.code l :: rest)).map (Char.ofNat h :: ·)
  | .code n :: rest =>
      if isHigh n ∨ isLow n then none else (assemble rest).map (Char.ofNat n :: ·)

def read (cs : List Char) : Option (Option String × List Char) :=
  (pieces cs).map fun (found,rest) => ((assemble found).map String.ofList,rest)

end Harbour.Document.Quoted
