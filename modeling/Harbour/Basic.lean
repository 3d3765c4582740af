namespace Harbour

inductive Halt where
  | overflow
  | improbable
deriving DecidableEq, Repr

def Halt.message : Halt → String
  | .overflow => "a sum left the 64-bit range"
  | .improbable => "a probability lies outside 0 to 1"

namespace Checked

def add (a b : UInt64) : Except Halt UInt64 :=
  if a.toNat + b.toNat < 0x10000000000000000 then .ok (a + b) else .error .overflow

def after (base : Int64) (step : Nat) : Except Halt Int64 :=
  if base.toInt + step < 0x8000000000000000 then .ok (Int64.ofInt (base.toInt + step)) else .error .overflow

theorem add_fits {a b : UInt64} (fits : a.toNat + b.toNat < 0x10000000000000000) :
    add a b = .ok (a + b) ∧ (a + b).toNat = a.toNat + b.toNat := by
  refine ⟨if_pos fits,?_⟩
  rw [UInt64.toNat_add]
  exact Nat.mod_eq_of_lt fits

theorem add_one {a : UInt64} (fits : a.toNat + 1 < 0x10000000000000000) :
    add a 1 = .ok (a + 1) ∧ (a + 1).toNat = a.toNat + 1 := add_fits fits

theorem add_ok {a b sum : UInt64} (added : add a b = .ok sum) : sum.toNat = a.toNat + b.toNat := by
  unfold add at added
  split at added
  · rename_i fits
    cases added
    exact (add_fits fits).2
  · cases added

theorem add_grows {a b sum : UInt64} (added : add a b = .ok sum) : a ≤ sum := by
  have exact := add_ok added
  rw [UInt64.le_iff_toNat_le]
  omega

theorem after_ok {base time : Int64} {steps : Nat} (timed : after base steps = .ok time) :
    time = Int64.ofInt (base.toInt + steps) ∧ time.toInt = base.toInt + steps := by
  unfold after at timed
  split at timed
  · rename_i early
    cases timed
    have low := base.le_toInt
    exact ⟨rfl,Int64.toInt_ofInt_of_le (by omega) (by omega)⟩
  · cases timed

theorem after_one {time : Int64} (early : time ≠ Int64.maxValue) : after time 1 = .ok (time + 1) := by
  have apart : time.toInt ≠ Int64.maxValue.toInt := fun same => early (Int64.toInt_inj.mp same)
  have last : Int64.maxValue.toInt = 0x7fffffffffffffff := rfl
  have bound := time.toInt_le
  have fits : time.toInt + (1 : Nat) < 0x8000000000000000 := by omega
  have sum : Int64.ofInt (time.toInt + (1 : Nat)) = time + 1 := by
    rw [Int64.ofInt_add,Int64.ofInt_toInt]
    rfl
  rw [after,if_pos fits,sum]

end Checked

namespace Positional

-- A value too large for the width keeps its low digits; no caller relies on that.
def write (base : Nat) : Nat → Nat → List Nat
  | 0,_ => []
  | width+1,n => write base width (n / base) ++ [n % base]

def read (base : Nat) (digits : List Nat) : Nat :=
  digits.foldl (fun n d => n * base + d) 0

@[simp] theorem write_length (base width n : Nat) : (write base width n).length = width := by
  induction width generalizing n with
  | zero => rfl
  | succ width ih => simp [write,ih]

theorem write_below (positive : 0 < base) (width n : Nat) : ∀ d ∈ write base width n, d < base := by
  induction width generalizing n with
  | zero => simp [write]
  | succ width ih =>
      intro d present
      rcases List.mem_append.mp present with earlier | last
      · exact ih _ _ earlier
      · simp only [List.mem_singleton] at last
        exact last ▸ Nat.mod_lt _ positive

theorem read_write (base width n : Nat) : read base (write base width n) = n % Nat.pow base width := by
  induction width generalizing n with
  | zero => simp [write,read,Nat.mod_one]
  | succ width ih =>
      have inner := ih (n / base)
      simp only [read] at inner
      simp only [write,read,List.foldl_append,List.foldl_cons,List.foldl_nil,inner]
      show n / base % Nat.pow base width * base + n % base = n % (Nat.pow base width * base)
      rw [Nat.mul_comm (Nat.pow base width) base,Nat.mod_mul]
      rw [Nat.mul_comm,Nat.add_comm]

theorem write_injective (small : m < Nat.pow base width) (small' : n < Nat.pow base width)
    (same : write base width m = write base width n) : m = n := by
  have values := congrArg (read base) same
  rwa [read_write,read_write,Nat.mod_eq_of_lt small,Nat.mod_eq_of_lt small'] at values

end Positional

namespace Octets

def ofWord (w : UInt64) : List UInt8 :=
  (Positional.write 256 8 w.toNat).map UInt8.ofNat

def ofTime (t : Int64) : List UInt8 := ofWord t.toUInt64

def ofText (s : String) : List UInt8 := s.toByteArray.data.toList

-- The length prefix counts octets, not characters.
def counted (s : String) : List UInt8 :=
  let octets := ofText s
  ofWord (UInt64.ofNat octets.length) ++ octets

def hex (octets : List UInt8) : String :=
  String.ofList (octets.flatMap fun o => (Positional.write 16 2 o.toNat).map Nat.digitChar)

@[simp] theorem ofWord_length (w : UInt64) : (ofWord w).length = 8 := by simp [ofWord]

@[simp] theorem ofTime_length (t : Int64) : (ofTime t).length = 8 := by simp [ofTime]

theorem ofWord_digits (w : UInt64) : (ofWord w).map UInt8.toNat = Positional.write 256 8 w.toNat := by
  rw [ofWord,List.map_map]
  refine (List.map_congr_left fun d present => ?_).trans (List.map_id _)
  have small := Positional.write_below (by decide) 8 w.toNat d present
  simpa [UInt8.toNat_ofNat'] using small

theorem word_below (w : UInt64) : w.toNat < Nat.pow 256 8 := by
  have small := w.toNat_lt
  omega

theorem ofWord_injective (same : ofWord v = ofWord w) : v = w := by
  have digits : Positional.write 256 8 v.toNat = Positional.write 256 8 w.toNat := by
    rw [← ofWord_digits v,← ofWord_digits w,same]
  exact UInt64.toNat_inj.mp (Positional.write_injective (word_below v) (word_below w) digits)

theorem ofTime_injective {s t : Int64} (same : ofTime s = ofTime t) : s = t := by
  have words := ofWord_injective same
  cases s; cases t
  exact congrArg Int64.ofUInt64 words

theorem ofText_injective (same : ofText s = ofText t) : s = t := by
  have arrays : s.toByteArray = t.toByteArray := ByteArray.ext (Array.toList_inj.mp same)
  exact String.toByteArray_inj.mp arrays

end Octets

namespace Text

-- The White_Space property of Unicode. Zero-width characters, the byte order
-- mark and the information separators U+001C to U+001F do not have it.
def isBlank (c : Char) : Bool :=
  let n := c.toNat
  (0x09 ≤ n ∧ n ≤ 0x0D) ∨ n = 0x20 ∨ n = 0x85 ∨ n = 0xA0 ∨ n = 0x1680 ∨
    (0x2000 ≤ n ∧ n ≤ 0x200A) ∨ n = 0x2028 ∨ n = 0x2029 ∨ n = 0x202F ∨ n = 0x205F ∨ n = 0x3000

def allBlank (s : String) : Bool := s.toList.all isBlank

def trimLeft (cs : List Char) : List Char := cs.dropWhile isBlank

def trim (cs : List Char) : List Char := (trimLeft (trimLeft cs).reverse).reverse

-- The first character that cannot stand, or the first digit that leads past
-- the range, decides the fault.
inductive CountFault where
  | empty
  | badDigit
  | tooLarge
deriving DecidableEq, Repr

def CountFault.message : CountFault → String
  | .empty => "cannot parse integer from empty string"
  | .badDigit => "invalid digit found in string"
  | .tooLarge => "number too large to fit in target type"

def countDigits (n : Nat) : List Char → Except CountFault Nat
  | [] => .ok n
  | c :: rest =>
      if c.isDigit then
        let wider := n * 10 + (c.toNat - '0'.toNat)
        if wider < 0x10000000000000000 then countDigits wider rest else .error .tooLarge
      else .error .badDigit

def unsigned : List Char → Except CountFault Nat
  | [] => .error .badDigit
  | cs => countDigits 0 cs

def readCount : List Char → Except CountFault UInt64
  | [] => .error .empty
  | '+' :: rest => (unsigned rest).map UInt64.ofNat
  | cs => (unsigned cs).map UInt64.ofNat

end Text

end Harbour
