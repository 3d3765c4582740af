import Mathlib.Data.List.TakeWhile
import Harbour.Basic
import Harbour.Proofs.Digits

namespace Harbour.Text

def whiteSpace : List Nat :=
  [0x09,0x0A,0x0B,0x0C,0x0D,0x20,0x85,0xA0,0x1680,0x2000,0x2001,0x2002,0x2003,0x2004,0x2005,0x2006,
    0x2007,0x2008,0x2009,0x200A,0x2028,0x2029,0x202F,0x205F,0x3000]

def Blank (s : String) : Prop := ∀ c ∈ s.toList, c.toNat ∈ whiteSpace

theorem isBlank_exact (c : Char) : isBlank c = true ↔ c.toNat ∈ whiteSpace := by
  simp only [isBlank,whiteSpace,decide_eq_true_eq,List.mem_cons,List.not_mem_nil,or_false]
  omega

theorem allBlank_exact (s : String) : allBlank s = true ↔ Blank s := by
  simp only [allBlank,List.all_eq_true,isBlank_exact,Blank]

def Stripped (raw core : List Char) : Prop :=
  ∃ before after, raw = before ++ (core ++ after) ∧ (∀ c ∈ before ++ after, c.toNat ∈ whiteSpace) ∧
    (∀ c ∈ core.head?, c.toNat ∉ whiteSpace) ∧ ∀ c ∈ core.getLast?, c.toNat ∉ whiteSpace

def Unsigned (n : Nat) (core : List Char) : Prop :=
  ∃ sign digits, core = sign ++ digits ∧ (sign = [] ∨ sign = ['+']) ∧ digits ≠ [] ∧
    (∀ c ∈ digits, c.isDigit = true) ∧ Nat.ofDigitChars 10 digits 0 = n

-- The number that a text stands for as a setting. A text that says too large a
-- number stands for none.
def Counts (n : UInt64) (raw : String) : Prop := ∃ core, Stripped raw.toList core ∧ Unsigned n.toNat core

variable {raw core before after cs : List Char}

theorem isBlank_false_iff (c : Char) : isBlank c = false ↔ c.toNat ∉ whiteSpace := by
  rw [← isBlank_exact,Bool.not_eq_true]

theorem stops_blank_iff (cs : List Char) : Stops isBlank cs ↔ ∀ c ∈ cs.head?, c.toNat ∉ whiteSpace := by
  simp only [Stops,isBlank_false_iff]

theorem trimLeft_split (cs : List Char) :
    ∃ before, cs = before ++ trimLeft cs ∧ (∀ c ∈ before, isBlank c = true) ∧ Stops isBlank (trimLeft cs) := by
  refine ⟨cs.takeWhile isBlank,List.takeWhile_append_dropWhile.symm,fun c => List.mem_takeWhile_imp,?_⟩
  intro c first
  have ends := List.head?_dropWhile_not isBlank cs
  rw [← trimLeft,Option.mem_def.mp first] at ends
  exact ends

theorem trim_stripped (raw : List Char) : Stripped raw (trim raw) := by
  obtain ⟨before,front,blank,stops⟩ := trimLeft_split raw
  obtain ⟨behind,back,blank',stops'⟩ := trimLeft_split (trimLeft raw).reverse
  have middle : trimLeft raw = trim raw ++ behind.reverse := by
    rw [trim,← List.reverse_append,← back,List.reverse_reverse]
  refine ⟨before,behind.reverse,?_,?_,?_,?_⟩
  · rw [← middle]
    exact front
  · intro c present
    rw [List.mem_append,List.mem_reverse] at present
    rw [← isBlank_exact]
    exact present.elim (blank c) (blank' c)
  · intro c first
    rw [middle] at stops
    refine (stops_blank_iff _).mp stops c ?_
    rw [List.head?_append,Option.mem_def.mp first,Option.some_or,Option.mem_some]
  · intro c last
    refine (stops_blank_iff _).mp stops' c ?_
    rw [trim,List.getLast?_reverse] at last
    exact last

theorem trim_of_stripped (stripped : Stripped raw core) : trim raw = core := by
  obtain ⟨before,after,rfl,blank,first,last⟩ := stripped
  have front : ∀ c ∈ before, isBlank c = true :=
    fun c present => (isBlank_exact c).mpr (blank c (List.mem_append_left _ present))
  have back : ∀ c ∈ after.reverse, isBlank c = true :=
    fun c present => (isBlank_exact c).mpr (blank c (List.mem_append_right _ (List.mem_reverse.mp present)))
  cases core with
  | nil =>
      have all : trimLeft (before ++ ([] ++ after)) = [] := by
        rw [trimLeft,List.dropWhile_eq_nil_iff]
        intro c present
        exact (isBlank_exact c).mpr (blank c present)
      rw [trim,all]
      rfl
  | cons c more =>
      have starts : Stops isBlank (c :: more ++ after) := (stops_blank_iff _).mpr first
      have ends : Stops isBlank (c :: more).reverse := by
        rw [stops_blank_iff,List.head?_reverse]
        exact last
      have unfronted : trimLeft (before ++ (c :: more ++ after)) = c :: more ++ after := dropWhile_run front starts
      have unbacked : trimLeft (after.reverse ++ (c :: more).reverse) = (c :: more).reverse := dropWhile_run back ends
      rw [trim,unfronted,List.reverse_append,unbacked,List.reverse_reverse]

theorem stripped_iff : Stripped raw core ↔ trim raw = core :=
  ⟨trim_of_stripped,fun same => same ▸ trim_stripped raw⟩

theorem le_ofDigitChars (digits : List Char) (n : Nat) : n ≤ Nat.ofDigitChars 10 digits n := by
  induction digits generalizing n with
  | nil => exact Nat.le_refl n
  | cons c rest ih =>
      rw [Nat.ofDigitChars_cons]
      have later := ih (10 * n + (c.toNat - '0'.toNat))
      omega

-- A number is too large as soon as its first digits are, so that it does not
-- matter that the range is checked digit by digit.
theorem countDigits_iff (start : Nat) (small : start < 0x10000000000000000) :
    countDigits start cs = .ok n ↔ (∀ c ∈ cs, c.isDigit = true) ∧ Nat.ofDigitChars 10 cs start = n ∧
      n < 0x10000000000000000 := by
  induction cs generalizing start with
  | nil =>
      simp only [countDigits,Except.ok.injEq,List.not_mem_nil,false_imp_iff,implies_true,true_and]
      constructor
      · rintro rfl; exact ⟨rfl,small⟩
      · rintro ⟨rfl,_⟩; rfl
  | cons c rest ih =>
      rw [countDigits,List.forall_mem_cons,Nat.ofDigitChars_cons,Nat.mul_comm 10 start]
      by_cases digit : c.isDigit = true
      · rw [if_pos digit]
        by_cases fits : start * 10 + (c.toNat - '0'.toNat) < 0x10000000000000000
        · simp only [if_pos fits,ih _ fits,digit,true_and]
        · simp only [if_neg fits]
          constructor
          · intro same; cases same
          · rintro ⟨_,rfl,small⟩
            exact absurd (Nat.lt_of_le_of_lt (le_ofDigitChars rest _) small) fits
      · rw [if_neg digit]
        constructor
        · intro same; cases same
        · rintro ⟨⟨whole,_⟩,_⟩
          exact absurd whole digit

theorem unsigned_iff (n : Nat) : unsigned cs = .ok n ↔ cs ≠ [] ∧ (∀ c ∈ cs, c.isDigit = true) ∧
    Nat.ofDigitChars 10 cs 0 = n ∧ n < 0x10000000000000000 := by
  cases cs with
  | nil => simp [unsigned]
  | cons c rest => simp only [unsigned,countDigits_iff 0 (by decide),ne_eq,reduceCtorEq,not_false_eq_true,true_and]

theorem unsigned_plain (plain : cs.head? ≠ some '+') :
    Unsigned n cs ↔ cs ≠ [] ∧ (∀ c ∈ cs, c.isDigit = true) ∧ Nat.ofDigitChars 10 cs 0 = n := by
  constructor
  · rintro ⟨sign,digits,rfl,rfl | rfl,some_digits,all,value⟩
    · exact ⟨some_digits,all,value⟩
    · exact absurd rfl plain
  · rintro ⟨some_digits,all,value⟩
    exact ⟨[],cs,rfl,.inl rfl,some_digits,all,value⟩

theorem unsigned_plus (rest : List Char) :
    Unsigned n ('+' :: rest) ↔ rest ≠ [] ∧ (∀ c ∈ rest, c.isDigit = true) ∧ Nat.ofDigitChars 10 rest 0 = n := by
  constructor
  · rintro ⟨sign,digits,whole,rfl | rfl,some_digits,all,value⟩
    · rw [List.nil_append] at whole
      have plus := all '+' (whole ▸ List.mem_cons_self)
      cases plus
    · cases whole
      exact ⟨some_digits,all,value⟩
  · rintro ⟨some_digits,all,value⟩
    exact ⟨['+'],rest,rfl,.inr rfl,some_digits,all,value⟩

theorem counted_iff {read : Except CountFault Nat} (n : UInt64)
    (bounded : ∀ m, read = .ok m → m < 0x10000000000000000) :
    read.map UInt64.ofNat = .ok n ↔ read = .ok n.toNat := by
  cases read with
  | error fault => simp [Except.map]
  | ok m =>
      have small := bounded m rfl
      simp only [Except.map,Except.ok.injEq]
      constructor
      · rintro rfl
        exact (UInt64.toNat_ofNat_of_lt' small).symm
      · rintro rfl
        exact UInt64.ofNat_toNat

theorem readCount_iff (n : UInt64) : readCount cs = .ok n ↔ Unsigned n.toNat cs := by
  have small := n.toNat_lt
  have bounded : ∀ cs m, unsigned cs = .ok m → m < 0x10000000000000000 :=
    fun cs m read => ((unsigned_iff m).mp read).2.2.2
  unfold readCount
  split
  · rw [unsigned_plain (by simp)]
    simp
  · rename_i rest
    rw [counted_iff n (bounded _),unsigned_iff,unsigned_plus]
    simp [small]
  · rename_i plain
    rw [counted_iff n (bounded _),unsigned_iff,unsigned_plain]
    · simp [small]
    · intro plus
      obtain ⟨rest,whole⟩ := List.head?_eq_some_iff.mp plus
      exact plain rest whole

theorem counts_iff (n : UInt64) (raw : String) : Counts n raw ↔ readCount (trim raw.toList) = .ok n := by
  simp only [Counts,stripped_iff,readCount_iff,exists_eq_left']

end Harbour.Text
