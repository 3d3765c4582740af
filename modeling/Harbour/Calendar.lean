import Harbour.Document.Codec

namespace Harbour.Calendar

def isLeap (year : Int) : Bool := year % 4 = 0 ∧ (year % 100 ≠ 0 ∨ year % 400 = 0)

def monthLength (year : Int) (month : Nat) : Nat :=
  if month = 2 then if isLeap year then 29 else 28
  else if month = 4 ∨ month = 6 ∨ month = 9 ∨ month = 11 then 30
  else 31

theorem monthLength_positive (year : Int) (month : Nat) : 0 < monthLength year month := by
  unfold monthLength
  repeat' split
  all_goals decide

structure Date where
  year : Int
  month : Nat
  day : Nat
  month_in_year : 1 ≤ month ∧ month ≤ 12
  day_in_month : 1 ≤ day ∧ day ≤ monthLength year month
deriving DecidableEq, Repr

namespace Date

def of? (year : Int) (month day : Nat) : Option Date :=
  if inYear : 1 ≤ month ∧ month ≤ 12 then
    if inMonth : 1 ≤ day ∧ day ≤ monthLength year month then
      some ⟨year,month,day,inYear,inMonth⟩
    else none
  else none

def next (d : Date) : Date :=
  if within : d.day < monthLength d.year d.month then
    ⟨d.year,d.month,d.day + 1,d.month_in_year,by omega⟩
  else if more : d.month < 12 then
    ⟨d.year,d.month + 1,1,by omega,⟨Nat.le_refl _,monthLength_positive _ _⟩⟩
  else ⟨d.year + 1,1,1,by decide,⟨Nat.le_refl _,monthLength_positive _ _⟩⟩

def previous (d : Date) : Date :=
  if within : 1 < d.day then
    ⟨d.year,d.month,d.day - 1,d.month_in_year,by have := d.day_in_month; omega⟩
  else if more : 1 < d.month then
    ⟨d.year,d.month - 1,monthLength d.year (d.month - 1),by have := d.month_in_year; omega,
      ⟨monthLength_positive _ _,Nat.le_refl _⟩⟩
  else ⟨d.year - 1,12,monthLength (d.year - 1) 12,by decide,⟨monthLength_positive _ _,Nat.le_refl _⟩⟩

end Date

-- Second 60 is a leap second; it may stand in any minute, because only tables
-- outside this library know the real ones.
structure Instant where
  date : Date
  hour : Nat
  minute : Nat
  second : Nat
  nanosecond : Nat
  hour_in_day : hour < 24
  minute_in_hour : minute < 60
  second_in_minute : second ≤ 60
  nanosecond_in_second : nanosecond < 1000000000
deriving DecidableEq, Repr

namespace Instant

def firstYear : Int := -262143
def lastYear : Int := 262142

def fixed (width n : Nat) : List Char := (Positional.write 10 width n).map Nat.digitChar

def yearText (year : Int) : List Char :=
  if 0 ≤ year ∧ year ≤ 9999 then fixed 4 year.toNat
  else
    let digits := Nat.toDigits 10 year.natAbs
    (if year < 0 then '-' else '+') :: List.replicate (4 - digits.length) '0' ++ digits

def fractionText (nanosecond : Nat) : List Char :=
  if nanosecond = 0 then []
  else if nanosecond % 1000000 = 0 then '.' :: fixed 3 (nanosecond / 1000000)
  else if nanosecond % 1000 = 0 then '.' :: fixed 6 (nanosecond / 1000)
  else '.' :: fixed 9 nanosecond

def text (t : Instant) : String :=
  String.ofList (yearText t.date.year ++ '-' :: fixed 2 t.date.month ++ '-' :: fixed 2 t.date.day ++
    'T' :: fixed 2 t.hour ++ ':' :: fixed 2 t.minute ++ ':' :: fixed 2 t.second ++
    fractionText t.nanosecond ++ ['Z'])

def readDigits (most : Nat) (cs : List Char) : Option (Nat × List Char) :=
  match (cs.take most).takeWhile Char.isDigit with
  | [] => none
  | ds => some (Document.Numeral.decimal ds,cs.drop ds.length)

def expect (c : Char) : List Char → Option (List Char)
  | d :: cs => if d = c then some cs else none
  | [] => none

def readYear (cs : List Char) : Option (Int × List Char) :=
  match Text.trimLeft cs with
  | '-' :: cs => (readDigits cs.length cs).map fun (n,cs) => (-n,cs)
  | '+' :: cs => (readDigits cs.length cs).map fun (n,cs) => (n,cs)
  | cs => (readDigits 4 cs).map fun (n,cs) => (n,cs)

def readPair (cs : List Char) : Option (Nat × List Char) := readDigits 2 (Text.trimLeft cs)

def readDate (cs : List Char) : Option (Date × List Char) := do
  let (year,cs) ← readYear cs
  let cs ← expect '-' (Text.trimLeft cs)
  let (month,cs) ← readPair cs
  let cs ← expect '-' (Text.trimLeft cs)
  let (day,cs) ← readPair cs
  let date ← Date.of? year month day
  return (date,cs)

-- A point has at least one digit after it; the tenth and later ones are dropped.
def readFraction : List Char → Option (Nat × List Char)
  | '.' :: cs =>
      let ds := cs.takeWhile Char.isDigit
      if ds.isEmpty then none
      else
        let nine := (ds ++ List.replicate 9 '0').take 9
        some (Document.Numeral.decimal nine,cs.dropWhile Char.isDigit)
  | cs => some (0,cs)

structure Clock where
  hour : Nat
  minute : Nat
  second : Nat
  nanosecond : Nat
deriving DecidableEq, Repr

def readClock (cs : List Char) : Option (Clock × List Char) := do
  let (hour,cs) ← readPair cs
  let cs ← expect ':' (Text.trimLeft cs)
  let (minute,cs) ← readPair cs
  let cs ← expect ':' (Text.trimLeft cs)
  let (second,cs) ← readPair cs
  let (nanosecond,cs) ← readFraction cs
  return (⟨hour,minute,second,nanosecond⟩,cs)

def readShift (negative : Bool) (cs : List Char) : Option (Int × List Char) :=
  match cs with
  | h :: h' :: cs =>
      match cs.dropWhile fun c => c = ':' ∨ Text.isBlank c with
      | m :: m' :: cs =>
          if h.isDigit ∧ h'.isDigit ∧ m.isDigit ∧ m'.isDigit ∧ m < '6' then
            let minutes : Int := Document.Numeral.decimal [h,h'] * 60 + Document.Numeral.decimal [m,m']
            some (if negative then -minutes else minutes,cs)
          else none
      | _ => none
  | _ => none

def readZone : List Char → Option (Int × List Char)
  | u :: t :: c :: cs =>
      if u.toUpper = 'U' ∧ t.toUpper = 'T' ∧ c.toUpper = 'C' then some (0,cs) else signed (u :: t :: c :: cs)
  | cs => signed cs
where
  signed : List Char → Option (Int × List Char)
    | 'Z' :: cs => some (0,cs)
    | 'z' :: cs => some (0,cs)
    | '+' :: cs => readShift false cs
    | '-' :: cs => readShift true cs
    | '\u2212' :: cs => readShift true cs
    | _ => none

-- A zone is less than a day away, so the date moves by one day at most.
def settle (date : Date) (clock : Clock) (ahead : Int) : Option Instant :=
  let minutes : Int := (clock.hour * 60 + clock.minute : Nat) - ahead
  let (date,minutes) :=
    if minutes < 0 then (date.previous,minutes + 1440)
    else if 1440 ≤ minutes then (date.next,minutes - 1440)
    else (date,minutes)
  let hour := minutes.toNat / 60
  if fits : hour < 24 ∧ clock.second ≤ 60 ∧ clock.nanosecond < 1000000000 ∧
      firstYear ≤ date.year ∧ date.year ≤ lastYear then
    some ⟨date,hour,minutes.toNat % 60,clock.second,clock.nanosecond,fits.1,
      Nat.mod_lt _ (by decide),fits.2.1,fits.2.2.1⟩
  else none

def parse (s : String) : Option Instant := do
  let (date,cs) ← readDate s.toList
  let cs ← match cs with
    | 'T' :: cs => some cs
    | 't' :: cs => some cs
    | ' ' :: cs => some cs
    | _ => none
  let (clock,cs) ← readClock cs
  let (ahead,cs) ← readZone (Text.trimLeft cs)
  if clock.hour < 24 ∧ clock.minute < 60 ∧ -1440 < ahead ∧ ahead < 1440 ∧
      firstYear ≤ date.year ∧ date.year ≤ lastYear ∧ (Text.trimLeft cs).isEmpty then
    settle date clock ahead
  else none

def codec : Document.Codec Instant := .spelled text parse .badInstant

end Instant

end Harbour.Calendar
