import Harbour.Proofs.Digits

namespace Harbour.Document.Numeral

def fractional (c : Char) : Bool := c.isDigit || c = '.'
def extends? (c : Char) : Bool := fractional c || c = 'e' || c = 'E'

def Sound (n : Numeral) : Prop := ∀ c ∈ n.fraction, c.isDigit = true

variable {rest : List Char}

theorem digit_fractional (c : Char) (digit : c.isDigit = true) : fractional c = true := by
  simp [fractional,digit]

theorem fractional_extends (c : Char) (inside : fractional c = true) : extends? c = true := by
  simp [extends?,inside]

theorem readWhole_toDigits (n : Nat) (stops : Text.Stops Char.isDigit rest) :
    readWhole (Nat.toDigits 10 n ++ rest) = some (n,rest) := by
  have taken := Text.takeWhile_run (toDigits_digits n) stops
  have dropped := Text.dropWhile_run (toDigits_digits n) stops
  unfold readWhole
  rw [taken,dropped]
  split
  · rename_i none
    exact absurd none Nat.toDigits_ne_nil
  · rename_i more zeros
    -- Two digits or more do not start with a zero.
    by_cases zero : n = 0
    · subst zero
      simp at zeros
    · obtain ⟨d,ds,whole,nonzero⟩ := toDigits_leads (Nat.pos_of_ne_zero zero)
      rw [whole,List.cons.injEq] at zeros
      exact absurd zeros.1 nonzero
  · rw [decimal,Nat.ofDigitChars_ten_toDigits]

theorem readFraction_text (digits : ∀ c ∈ ds, c.isDigit = true) (stops : Text.Stops fractional rest) :
    readFraction (fractionText ds ++ rest) = some (ds,rest) := by
  cases ds with
  | nil =>
      rw [fractionText,List.nil_append]
      unfold readFraction
      split
      · rw [Text.stops_cons] at stops
        cases stops
      · rfl
  | cons d more =>
      have ends := stops.narrow digit_fractional
      have taken := Text.takeWhile_run digits ends
      have dropped := Text.dropWhile_run digits ends
      change readFraction ('.' :: (d :: more ++ rest)) = _
      rw [readFraction,taken,dropped]

theorem readPower_toDigits (negative : Bool) (n : Nat) (stops : Text.Stops Char.isDigit rest) :
    readPower negative (Nat.toDigits 10 n ++ rest) =
      some (some (if negative then -(n : Int) else n),rest) := by
  have taken := Text.takeWhile_run (toDigits_digits n) stops
  have dropped := Text.dropWhile_run (toDigits_digits n) stops
  unfold readPower
  rw [taken,dropped]
  split
  · rename_i none
    exact absurd none Nat.toDigits_ne_nil
  · rw [decimal,Nat.ofDigitChars_ten_toDigits]

theorem readExponent_text (e : Option Int) (stops : Text.Stops extends? rest) :
    readExponent (exponentText e ++ rest) = some (e,rest) := by
  cases e with
  | none =>
      cases rest with
      | nil => rfl
      | cons c rest =>
          rw [Text.stops_cons] at stops
          have other : ¬ (c = 'e' ∨ c = 'E') := by
            rintro (rfl | rfl) <;> cases stops
          rw [exponentText,List.nil_append]
          exact if_neg other
  | some e =>
      have ends := (stops.narrow fractional_extends).narrow digit_fractional
      by_cases negative : e < 0
      · have power := readPower_toDigits true e.natAbs ends
        rw [exponentText,if_pos negative,List.cons_append,List.cons_append,readExponent,if_pos (.inl rfl)]
        rwa [show -(e.natAbs : Int) = e by omega] at power
      · have power := readPower_toDigits false e.natAbs ends
        rw [exponentText,if_neg negative,List.cons_append,List.cons_append,readExponent,if_pos (.inl rfl)]
        rwa [show (e.natAbs : Int) = e by omega] at power

theorem stops_fraction (stops : Text.Stops fractional rest) : Text.Stops Char.isDigit (fractionText ds ++ rest) := by
  cases ds with
  | nil => exact stops.narrow digit_fractional
  | cons d more => exact (Text.stops_cons _ _ _).mpr rfl

theorem stops_exponent (e : Option Int) (stops : Text.Stops extends? rest) :
    Text.Stops fractional (exponentText e ++ rest) := by
  cases e with
  | none => exact stops.narrow fractional_extends
  | some e => exact (Text.stops_cons _ _ _).mpr rfl

theorem readUnsigned_text (negative : Bool) (whole : Nat) (digits : ∀ c ∈ ds, c.isDigit = true)
    (e : Option Int) (stops : Text.Stops extends? rest) :
    readUnsigned negative (Nat.toDigits 10 whole ++ (fractionText ds ++ (exponentText e ++ rest))) =
      some (⟨negative,whole,ds,e⟩,rest) := by
  have afterFraction := stops_exponent e stops
  have afterWhole : Text.Stops Char.isDigit (fractionText ds ++ (exponentText e ++ rest)) :=
    stops_fraction afterFraction
  simp only [readUnsigned,readWhole_toDigits whole afterWhole,readFraction_text digits afterFraction,
    readExponent_text e stops,Option.bind_eq_bind,Option.bind_some]
  rfl

theorem toDigits_head (n : Nat) : ∃ d ds, Nat.toDigits 10 n = d :: ds ∧ d.isDigit = true := by
  obtain ⟨d,ds,whole⟩ := List.exists_cons_of_ne_nil (Nat.toDigits_ne_nil (n := n) (b := 10))
  exact ⟨d,ds,whole,toDigits_digits n d (by rw [whole]; exact List.mem_cons_self)⟩

theorem read_text (sound : n.Sound) (stops : Text.Stops extends? rest) :
    read (n.text ++ rest) = some (n,rest) := by
  obtain ⟨negative,whole,ds,e⟩ := n
  have unsigned := readUnsigned_text negative whole sound e stops
  simp only [text,List.append_assoc]
  cases negative with
  | true => exact unsigned
  | false =>
      obtain ⟨d,more,shape,digit⟩ := toDigits_head whole
      rw [shape,List.cons_append] at unsigned ⊢
      have positive : d ≠ '-' := by rintro rfl; cases digit
      rw [signText,if_neg Bool.false_ne_true,List.nil_append]
      unfold read
      split
      · rename_i same
        rw [List.cons.injEq] at same
        exact absurd same.1 positive
      · exact unsigned

theorem readWhole_head (found : readWhole cs = some r) : ∃ c more, cs = c :: more ∧ c.isDigit = true := by
  cases cs with
  | nil => cases found
  | cons c more =>
      cases digit : c.isDigit with
      | true => exact ⟨c,more,rfl,digit⟩
      | false =>
          have none : (c :: more).takeWhile Char.isDigit = [] := by simp [digit]
          rw [readWhole,none] at found
          cases found

theorem readUnsigned_head {negative : Bool} (found : readUnsigned negative cs = some r) :
    ∃ c more, cs = c :: more ∧ c.isDigit = true := by
  unfold readUnsigned at found
  cases whole : readWhole cs with
  | none => rw [whole] at found; cases found
  | some parts => exact readWhole_head whole

theorem read_head (found : read cs = some r) : ∃ c more, cs = c :: more ∧ (c = '-' ∨ c.isDigit = true) := by
  unfold read at found
  split at found
  · exact ⟨'-',_,rfl,.inl rfl⟩
  · obtain ⟨c,more,whole,digit⟩ := readUnsigned_head found
    exact ⟨c,more,whole,.inr digit⟩

theorem ofInt_sound (i : Int) : (ofInt i).Sound := by simp [Sound,ofInt]

theorem ofNat_sound (n : Nat) : (ofNat n).Sound := by simp [Sound,ofNat]

theorem integer_ofNat (small : n < 0x10000000000000000) : (ofNat n).integer? = some (n : Int) := by
  simp [integer?,ofNat,small]

theorem integer_ofInt (low : -0x8000000000000000 ≤ i) (high : i < 0x10000000000000000) :
    (ofInt i).integer? = some i := by
  rw [integer?,if_pos ⟨rfl,rfl⟩]
  by_cases negative : i < 0
  · have fits : 0 < i.natAbs ∧ i.natAbs ≤ 0x8000000000000000 := by omega
    have magnitude : -(i.natAbs : Int) = i := by omega
    rw [if_pos (show (ofInt i).negative = true from decide_eq_true negative)]
    exact (if_pos fits).trans (congrArg some magnitude)
  · have fits : i.natAbs < 0x10000000000000000 := by omega
    have magnitude : (i.natAbs : Int) = i := by omega
    rw [if_neg (show ¬ (ofInt i).negative = true by simpa [ofInt] using negative)]
    exact (if_pos fits).trans (congrArg some magnitude)

end Harbour.Document.Numeral
