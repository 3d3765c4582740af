import Harbour.Decimal
import Harbour.Document.Reader

namespace Harbour.Document

namespace Numeral

def scaled (n : Numeral) : Decimal.Scaled :=
  let s := (Decimal.Scaled.clip ⟨n.whole,0⟩).extend n.fraction
  ⟨s.digits,s.power + n.exponent.getD 0⟩

def ratio? (n : Numeral) : Option Float :=
  match n.integer? with
  | some i => some (if 0 ≤ i then (UInt64.ofNat i.toNat).toFloat else (Int64.ofInt i).toFloat)
  | none => n.scaled.toFloat?.map fun x => if n.negative then -x else x

def finite (n : Numeral) : Bool := n.ratio?.isSome

def ofScaled (negative : Bool) (s : Decimal.Scaled) : Numeral :=
  let digits := Nat.toDigits 10 s.digits
  let point : Int := digits.length + s.power
  if 0 ≤ s.power ∧ point ≤ 16 then ⟨negative,s.digits * Nat.pow 10 s.power.toNat,['0'],none⟩
  else if 0 < point ∧ point ≤ 16 then
    ⟨negative,decimal (digits.take point.toNat),digits.drop point.toNat,none⟩
  else if -5 < point ∧ point ≤ 0 then
    ⟨negative,0,List.replicate (-point).toNat '0' ++ digits,none⟩
  else ⟨negative,decimal (digits.take 1),digits.drop 1,some (point - 1)⟩

def ofRatio (x : Float) : Numeral :=
  let bits := x.toBits
  let negative := bits.toNat / 0x8000000000000000 = 1
  let b := Decimal.Binary.ofBits (UInt64.ofNat (bits.toNat % 0x8000000000000000))
  if b.significand = 0 then ⟨negative,0,['0'],none⟩ else ofScaled negative b.shortest

end Numeral

-- Why a document is not read. The reader goes from left to right and answers
-- the first fault it meets; a missing member shows only at the closing brace.
inductive Fault where
  | malformed
  | wrongType
  | outOfRange
  | tooShort
  | missingField (name : String)
  | duplicateField (name : String)
  | unknownVariant (name : String)
  | badIdentifier
  | badInstant
deriving DecidableEq, Repr

-- The kind of a fault, which is all that is kept of the library's wording and of
-- the line and column in it.
def Fault.reason : Fault → String
  | .malformed => "syntax"
  | .wrongType => "invalid type"
  | .outOfRange => "invalid value"
  | .tooShort => "invalid length"
  | .missingField name => s!"missing field `{name}`"
  | .duplicateField name => s!"duplicate field `{name}`"
  | .unknownVariant name => s!"unknown variant `{name}`"
  | .badIdentifier => "uuid"
  | .badInstant => "datetime"

-- That reading undoes writing is a property of each codec and not a field:
-- ratios are rounded and do not have it.
structure Codec (α : Type) where
  write : α → Value
  read : Value → Except Fault α

-- A list or an object is refused at its bracket, before its content is looked at.
def Value.mismatch : Value → Fault
  | .broken => .malformed
  | .number n => if n.finite then .wrongType else .malformed
  | .text none => .malformed
  | _ => .wrongType

def Value.skip (v : Value) : Except Fault Unit :=
  if v.intact then .ok () else .error .malformed

namespace Codec
variable {α β : Type}

def map (c : Codec α) (into : α → β) (back : β → α) : Codec β where
  write b := c.write (back b)
  read v := (c.read v).map into

def text : Codec String where
  write := Value.string
  read
    | .text (some s) => .ok s
    | v => .error v.mismatch

def spelled (spell : α → String) (parse : String → Option α) (fault : Fault) : Codec α where
  write a := .string (spell a)
  read v := do
    let s ← text.read v
    match parse s with
    | some a => .ok a
    | none => .error fault

def flag : Codec Bool where
  write := .flag
  read
    | .flag b => .ok b
    | v => .error v.mismatch

def readInteger (accept : Int → Option α) : Value → Except Fault α
  | .number n =>
      match n.integer? with
      | some i =>
          match accept i with
          | some a => .ok a
          | none => .error .outOfRange
      | none => .error (Value.number n).mismatch
  | v => .error v.mismatch

def count : Codec UInt64 where
  write n := .ofNat n.toNat
  read := readInteger fun i => if 0 ≤ i ∧ i < 0x10000000000000000 then some (UInt64.ofNat i.toNat) else none

def time : Codec Int64 where
  write t := .ofInt t.toInt
  read := readInteger fun i => if -0x8000000000000000 ≤ i ∧ i < 0x8000000000000000 then some (Int64.ofInt i) else none

def octet : Codec UInt8 where
  write o := .ofNat o.toNat
  read := readInteger fun i => if 0 ≤ i ∧ i < 256 then some (UInt8.ofNat i.toNat) else none

def ratio : Codec Float where
  write x := .number (.ofRatio x)
  read
    | .number n =>
        match n.ratio? with
        | some x => .ok x
        | none => .error .malformed
    | v => .error v.mismatch

def nullable (c : Codec α) : Codec (Option α) where
  write
    | some a => c.write a
    | none => .null
  read
    | .null => .ok none
    | v => (c.read v).map some

def readAll (c : Codec α) : Items → Except Fault (List α)
  | .done => .ok []
  | .broken => .error .malformed
  | .more v rest => do
      let a ← c.read v
      let as ← c.readAll rest
      return a :: as

def list (c : Codec α) : Codec (List α) where
  write as := .list (.ofList (as.map c.write))
  read
    | .list items => c.readAll items
    | v => .error v.mismatch

def readExactly (c : Codec α) : (n : Nat) → Items → Except Fault (Vector α n)
  | 0,.done => .ok #v[]
  | 0,_ => .error .malformed
  | _+1,.done => .error .tooShort
  | _+1,.broken => .error .malformed
  | n+1,.more v rest => do
      let a ← c.read v
      let as ← c.readExactly n rest
      return (#v[a] ++ as).cast (Nat.add_comm 1 n)

def vector (n : Nat) (c : Codec α) : Codec (Vector α n) where
  write as := .list (.ofList (as.toList.map c.write))
  read
    | .list items => c.readExactly n items
    | v => .error v.mismatch

end Codec

structure Absence (α : Type) where
  unnamed : Option α
  unlisted : Option α
  hidden : α → Bool

namespace Absence
variable {α : Type}

def required : Absence α := ⟨none,none,fun _ => false⟩
def defaulted (a : α) : Absence α := ⟨some a,some a,fun _ => false⟩
def nullable : Absence (Option α) := ⟨some none,none,fun _ => false⟩
def omitted : Absence (Option α) := ⟨some none,some none,Option.isNone⟩

end Absence

-- The fields of a record in declaration order. The record is written as an
-- object; it is read from an object with its members in any order, or from a
-- list in declaration order.
inductive Fields : Type → Type 1
  | done : Fields Unit
  | field {α β : Type} (name : String) (item : Codec α) (absence : Absence α) (rest : Fields β) :
      Fields (α × β)

namespace Fields

def Slots : {α : Type} → Fields α → Type
  | _,.done => Unit
  | _,.field (α := α) _ _ _ rest => Option α × rest.Slots

def vacant : {α : Type} → (f : Fields α) → f.Slots
  | _,.done => ()
  | _,.field _ _ _ rest => (none,rest.vacant)

-- A repeated field is refused at its name, before its value is read. A member
-- of another name is passed over.
def fill : {α : Type} → (f : Fields α) → f.Slots → String → Value → Except Fault f.Slots
  | _,.done,slots,_,v => v.skip.map fun _ => slots
  | _,.field (α := α) name item _ rest,slots,key,v =>
      let (own,others) : Option α × rest.Slots := slots
      if key = name then
        match own with
        | some _ => .error (.duplicateField name)
        | none => (item.read v).map fun a => (some a,others)
      else (rest.fill others key v).map (own,·)

def gather {α : Type} (f : Fields α) : f.Slots → Members → Except Fault f.Slots
  | slots,.done => .ok slots
  | slots,.more (some key) v rest => do
      let slots ← f.fill slots key v
      f.gather slots rest
  | _,_ => .error .malformed

def close : {α : Type} → (f : Fields α) → f.Slots → Except Fault α
  | _,.done,_ => .ok ()
  | _,.field (α := α) name _ absence rest,slots => do
      let (own,others) : Option α × rest.Slots := slots
      let a ← match own.or absence.unnamed with
        | some a => .ok a
        | none => .error (.missingField name)
      let b ← rest.close others
      return (a,b)

def ofRow : {α : Type} → Fields α → Items → Except Fault α
  | _,.done,.done => .ok ()
  | _,.done,_ => .error .malformed
  | _,.field _ _ _ _,.broken => .error .malformed
  | _,.field _ _ absence rest,.done =>
      match absence.unlisted with
      | some a => (rest.ofRow .done).map (a,·)
      | none => .error .tooShort
  | _,.field _ item _ rest,.more v items => do
      let a ← item.read v
      let b ← rest.ofRow items
      return (a,b)

def members : {α : Type} → Fields α → α → List (String × Value)
  | _,.done,_ => []
  | _,.field name item absence rest,(a,b) =>
      if absence.hidden a then rest.members b else (name,item.write a) :: rest.members b

def record {α : Type} (f : Fields α) : Codec α where
  write a := .object (.ofList (f.members a))
  read
    | .object members => do
        let slots ← f.gather f.vacant members
        f.close slots
    | .list items => f.ofRow items
    | v => .error v.mismatch

end Fields

structure Variant (α : Type) where
  name : String
  bare : Except Fault α
  carried : Value → Except Fault α

namespace Variant
variable {α β : Type}

def plain (name : String) (a : α) : Variant α where
  name := name
  bare := .ok a
  carried
    | .null => .ok a
    | v => .error v.mismatch

def carrying (name : String) (c : Codec β) (into : β → α) : Variant α where
  name := name
  bare := .error .wrongType
  carried v := (c.read v).map into

end Variant

structure Written where
  name : String
  content : Option Value

namespace Codec
variable {α : Type}

def choice (variants : List (Variant α)) (written : α → Written) : Codec α where
  write a :=
    match written a with
    | ⟨name,none⟩ => .string name
    | ⟨name,some v⟩ => .object (.ofList [(name,v)])
  read
    | .text (some name) =>
        match variants.find? fun c => c.name = name with
        | some c => c.bare
        | none => .error (.unknownVariant name)
    | .object (.more (some name) v rest) =>
        match variants.find? fun c => c.name = name with
        | some c => do
            let a ← c.carried v
            match rest with
            | .done => .ok a
            | _ => .error .malformed
        | none => .error (.unknownVariant name)
    | _ => .error .malformed

def decode (c : Codec α) (document : String) : Except Fault α := do
  let (v,ended) := Document.read document
  let a ← c.read v
  if ended then .ok a else .error .malformed

def encode (c : Codec α) (a : α) : String := (c.write a).compact

def encodePretty (c : Codec α) (a : α) : String := (c.write a).pretty

end Codec

end Harbour.Document
