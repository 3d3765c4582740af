import Harbour.Basic

namespace Harbour.Random

class Source (σ : Type) where
  next : σ → UInt32 × σ

abbrev Draw (σ α : Type) := σ → Except Halt (α × σ)

namespace Draw
variable {σ α : Type} [Source σ]

def word64 (s : σ) : UInt64 × σ :=
  let (low,s) := Source.next s
  let (high,s) := Source.next s
  (high.toUInt64 <<< 32 ||| low.toUInt64,s)

-- Certainty takes no words; a number that is no probability stops the run here.
def chance (p : Float) (s : σ) : Except Halt (Bool × σ) :=
  if p == 1 then .ok (true,s)
  else if 0 ≤ p ∧ p < 1 then
    let (w,s) := word64 s
    .ok (w < (p * 18446744073709551616).toUInt64,s)
  else .error .improbable

-- The largest multiple of the range, as a power of two times it, that the words
-- can hold. Words whose low product exceeds it are thrown away, which leaves
-- every result equally likely.
def zone (bits range : Nat) : Nat := (range <<< (bits - 1 - range.log2)) - 1

-- When a full period of the source kept no word, no later one would be kept
-- either, and the lowest result stands in.
def period : Nat := 0x100000000000000000

def below (take : σ → Nat × σ) (bits range : Nat) : Nat → σ → Nat × σ
  | 0,s => (0,s)
  | fuel+1,s =>
      let (w,s) := take s
      let product := w * range
      if product % Nat.pow 2 bits ≤ zone bits range then (product / Nat.pow 2 bits,s)
      else below take bits range fuel s

def wide (s : σ) : Nat × σ :=
  let (w,s) := word64 s
  (w.toNat,s)

def narrow (s : σ) : Nat × σ :=
  let (w,s) := Source.next s
  (w.toNat,s)

def upTo (high : UInt64) (s : σ) : UInt64 × σ :=
  let (n,s) := below wide 64 high.toNat period s
  (UInt64.ofNat (n + 1),s)

def choose (first : α) (rest : List α) (s : σ) : α × σ :=
  let (n,s) := below narrow 32 (first :: rest).length period s
  ((first :: rest).getD n first,s)

end Draw

-- What a workload draws. Any source of words gives such draws, and nothing that
-- uses them asks how they come about.
class Dice (σ : Type) where
  chance : Float → Draw σ Bool
  upTo : UInt64 → σ → UInt64 × σ
  choose {α : Type} : α → List α → σ → α × σ

instance {σ : Type} [Source σ] : Dice σ := ⟨Draw.chance,Draw.upTo,Draw.choose⟩

-- Eight rounds, a nonce of zero, and a block counter of 64 bits.
structure ChaCha where
  key : List UInt32
  counter : UInt64
  buffer : List UInt32
deriving DecidableEq, Repr

namespace ChaCha

def rotate (w : UInt32) (places : UInt32) : UInt32 := (w <<< places) ||| (w >>> (32 - places))

structure Quarter where
  a : UInt32
  b : UInt32
  c : UInt32
  d : UInt32

def quarter (q : Quarter) : Quarter :=
  let a := q.a + q.b; let d := rotate (q.d ^^^ a) 16
  let c := q.c + d; let b := rotate (q.b ^^^ c) 12
  let a := a + b; let d := rotate (d ^^^ a) 8
  let c := c + d; let b := rotate (b ^^^ c) 7
  ⟨a,b,c,d⟩

def mix (s : Array UInt32) (i j k l : Nat) : Array UInt32 :=
  let q := quarter ⟨s.getD i 0,s.getD j 0,s.getD k 0,s.getD l 0⟩
  (((s.setIfInBounds i q.a).setIfInBounds j q.b).setIfInBounds k q.c).setIfInBounds l q.d

-- Four columns, then four diagonals.
def doubleRound (s : Array UInt32) : Array UInt32 :=
  [(0,4,8,12),(1,5,9,13),(2,6,10,14),(3,7,11,15),(0,5,10,15),(1,6,11,12),(2,7,8,13),(3,4,9,14)].foldl
    (fun s (i,j,k,l) => mix s i j k l) s

def start (key : List UInt32) (counter : UInt64) : List UInt32 :=
  0x61707865 :: 0x3320646e :: 0x79622d32 :: 0x6b206574 ::
    (key ++ [counter.toUInt32,(counter >>> 32).toUInt32,0,0])

def block (key : List UInt32) (counter : UInt64) : List UInt32 :=
  let first := start key counter
  let last := Nat.repeat doubleRound 4 first.toArray
  List.zipWith (· + ·) first last.toList

-- The key is drawn from a 64-bit seed by a congruential generator whose state
-- is permuted into eight words.
def advance (state : UInt64) : UInt64 := state * 6364136223846793005 + 11634580027462260723

def permute (state : UInt64) : UInt32 :=
  let folded := (((state >>> 18) ^^^ state) >>> 27).toUInt32
  let places := (state >>> 59).toUInt32
  (folded >>> places) ||| (folded <<< ((32 - places) % 32))

def expand : Nat → UInt64 → List UInt32
  | 0,_ => []
  | count+1,state =>
      let next := advance state
      permute next :: expand count next

def ofSeed (seed : UInt64) : ChaCha := ⟨expand 8 seed,0,[]⟩

def next (s : ChaCha) : UInt32 × ChaCha :=
  match s.buffer with
  | w :: rest => (w,{ s with buffer := rest })
  | [] =>
      match block s.key s.counter with
      | w :: rest => (w,⟨s.key,s.counter + 1,rest⟩)
      | [] => (0,{ s with counter := s.counter + 1 })

end ChaCha

instance : Source ChaCha := ⟨ChaCha.next⟩

end Harbour.Random
