import Harbour.Calendar
import Harbour.Proofs.Codecs

namespace Harbour.Calendar

open Document Text

theorem Date.of_parts (d : Date) : Date.of? d.year d.month d.day = some d := by
  rw [Date.of?,dif_pos d.month_in_year,dif_pos d.day_in_month]

theorem monthLength_short (year : Int) (month : Nat) : monthLength year month ≤ 31 := by
  unfold monthLength
  repeat' split
  all_goals decide

namespace Instant

variable {n width : Nat} {c : Char} {rest : List Char}

theorem digit_solid (digit : c.isDigit = true) : isBlank c = false := by
  have range : 48 ≤ c.toNat ∧ c.toNat ≤ 57 := by
    simpa [Char.isDigit,UInt32.le_iff_toNat_le] using digit
  simp only [isBlank]
  apply decide_eq_false
  omega

theorem fixed_digit (width n : Nat) : ∀ c ∈ fixed width n, c.isDigit = true := Numeral.fixed_digits width n

theorem fixed_length (width n : Nat) : (fixed width n).length = width := by simp [fixed]

theorem fixed_lead (width n : Nat) : ∃ d ds, fixed (width + 1) n = d :: ds ∧ d.isDigit = true := by
  obtain ⟨d,ds,written⟩ := List.exists_cons_of_length_eq_add_one (fixed_length (width + 1) n)
  exact ⟨d,ds,written,fixed_digit (width + 1) n d (written ▸ List.mem_cons_self)⟩

theorem trimLeft_fixed (width n : Nat) (rest : List Char) :
    trimLeft (fixed (width + 1) n ++ rest) = fixed (width + 1) n ++ rest := by
  obtain ⟨d,ds,written,digit⟩ := fixed_lead width n
  rw [written]
  exact dropWhile_stops ((stops_cons _ d _).mpr (digit_solid digit))

theorem readDigits_fixed (small : n < Nat.pow 10 (width + 1)) (rest : List Char) :
    readDigits (width + 1) (fixed (width + 1) n ++ rest) = some (n,rest) := by
  have kept : ((fixed (width + 1) n ++ rest).take (width + 1)).takeWhile Char.isDigit = fixed (width + 1) n := by
    rw [List.take_left' (fixed_length _ n),List.takeWhile_eq_self_iff.mpr (fixed_digit _ n)]
  obtain ⟨d,ds,written,_⟩ := fixed_lead width n
  have value : Numeral.decimal (d :: ds) = n := by rw [← written]; exact Numeral.decimal_fixed small
  have length : (d :: ds).length = width + 1 := by rw [← written]; exact fixed_length _ n
  rw [readDigits,kept,written]
  simp only [value,length]
  rw [List.drop_left' length]

theorem readPair_fixed (small : n < 100) (rest : List Char) : readPair (fixed 2 n ++ rest) = some (n,rest) := by
  rw [readPair,trimLeft_fixed,readDigits_fixed small]

theorem readYear_text {year : Int} (plain : 0 ≤ year ∧ year ≤ 9999) (rest : List Char) :
    readYear (yearText year ++ rest) = some (year,rest) := by
  obtain ⟨d,ds,written,digit⟩ := fixed_lead 3 year.toNat
  have read : readDigits 4 (d :: ds ++ rest) = some (year.toNat,rest) := by
    rw [← written]; exact readDigits_fixed (show year.toNat < 10000 by omega) rest
  have whole : (year.toNat : Int) = year := Int.toNat_of_nonneg plain.1
  have trimmed : trimLeft (d :: ds ++ rest) = d :: ds ++ rest := by rw [← written]; exact trimLeft_fixed 3 _ rest
  rw [yearText,if_pos plain,written,readYear,trimmed]
  split
  · rename_i sign; rw [(List.cons.inj sign).1] at digit; cases digit
  · rename_i sign; rw [(List.cons.inj sign).1] at digit; cases digit
  · rw [read]
    exact congrArg (fun year => some (year,rest)) whole

theorem expect_mark (c : Char) (solid : isBlank c = false) (rest : List Char) :
    expect c (trimLeft (c :: rest)) = some rest := by
  rw [trimLeft,dropWhile_stops ((stops_cons _ c rest).mpr solid),expect,if_pos rfl]

theorem readDate_text (d : Date) (plain : 0 ≤ d.year ∧ d.year ≤ 9999) (rest : List Char) :
    readDate (yearText d.year ++ '-' :: (fixed 2 d.month ++ '-' :: (fixed 2 d.day ++ rest))) = some (d,rest) := by
  have month := d.month_in_year
  have day := d.day_in_month
  have short := monthLength_short d.year d.month
  simp only [readDate,readYear_text plain,bind,Option.bind,expect_mark '-' rfl,
    readPair_fixed (show d.month < 100 by omega),readPair_fixed (show d.day < 100 by omega),d.of_parts]
  rfl

theorem decimal_filled (small : n < Nat.pow 10 width) (within : width ≤ 9) :
    Numeral.decimal ((fixed width n ++ List.replicate 9 '0').take 9) = n * Nat.pow 10 (9 - width) := by
  have value : Nat.ofDigitChars 10 (fixed width n) 0 = n := Numeral.decimal_fixed small
  have fits : (fixed width n).take 9 = fixed width n := List.take_of_length_le (by rw [fixed_length]; exact within)
  rw [List.take_append,fits,fixed_length,List.take_replicate,Nat.min_eq_left (Nat.sub_le 9 width),
    Numeral.decimal,Nat.ofDigitChars_append,value,Nat.ofDigitChars_replicate_zero]
  exact Nat.mul_comm _ _

theorem readFraction_point (small : n < Nat.pow 10 (width + 1)) (within : width + 1 ≤ 9)
    (stops : Stops Char.isDigit rest) :
    readFraction ('.' :: (fixed (width + 1) n ++ rest)) = some (n * Nat.pow 10 (9 - (width + 1)),rest) := by
  obtain ⟨d,ds,written,_⟩ := fixed_lead width n
  have digits := fixed_digit (width + 1) n
  have some_digits : (fixed (width + 1) n).isEmpty = false := by rw [written]; rfl
  simp only [readFraction,takeWhile_run digits stops,dropWhile_run digits stops,some_digits,
    decimal_filled small within]
  rfl

theorem readFraction_text (small : n < 1000000000) (stops : Stops Char.isDigit rest)
    (unpointed : rest.head? ≠ some '.') : readFraction (fractionText n ++ rest) = some (n,rest) := by
  unfold fractionText
  split
  · rename_i zero
    rw [List.nil_append,readFraction,zero]
    rintro cs rfl
    exact unpointed rfl
  · split
    · rename_i exact3
      rw [List.cons_append,readFraction_point (show n / 1000000 < 1000 by omega) (by decide) stops]
      have whole : n / 1000000 * 1000000 = n := by omega
      exact congrArg (fun n => some (n,rest)) whole
    · split
      · rename_i exact6
        rw [List.cons_append,readFraction_point (show n / 1000 < 1000000 by omega) (by decide) stops]
        have whole : n / 1000 * 1000 = n := by omega
        exact congrArg (fun n => some (n,rest)) whole
      · rw [List.cons_append,readFraction_point small (by decide) stops]
        exact congrArg (fun n => some (n,rest)) (Nat.mul_one n)

theorem readClock_text (t : Instant) (stops : Stops Char.isDigit rest) (unpointed : rest.head? ≠ some '.') :
    readClock (fixed 2 t.hour ++ ':' :: (fixed 2 t.minute ++ ':' :: (fixed 2 t.second ++
      (fractionText t.nanosecond ++ rest)))) = some (⟨t.hour,t.minute,t.second,t.nanosecond⟩,rest) := by
  have hour := t.hour_in_day
  have minute := t.minute_in_hour
  have second := t.second_in_minute
  simp only [readClock,bind,Option.bind,expect_mark ':' rfl,readPair_fixed (show t.hour < 100 by omega),
    readPair_fixed (show t.minute < 100 by omega),readPair_fixed (show t.second < 100 by omega),
    readFraction_text t.nanosecond_in_second stops unpointed]
  rfl

theorem settle_utc (t : Instant) (known : firstYear ≤ t.date.year ∧ t.date.year ≤ lastYear) :
    settle t.date ⟨t.hour,t.minute,t.second,t.nanosecond⟩ 0 = some t := by
  have hour := t.hour_in_day
  have minute := t.minute_in_hour
  have same : ((t.hour * 60 + t.minute : Nat) - 0 : Int).toNat = t.hour * 60 + t.minute := by omega
  have hours : (t.hour * 60 + t.minute) / 60 = t.hour := by omega
  have minutes : (t.hour * 60 + t.minute) % 60 = t.minute := by omega
  have early : ¬ ((t.hour * 60 + t.minute : Nat) - 0 : Int) < 0 := by omega
  have late : ¬ 1440 ≤ ((t.hour * 60 + t.minute : Nat) - 0 : Int) := by omega
  simp only [settle,if_neg early,if_neg late,same,hours,minutes]
  exact dif_pos ⟨hour,t.second_in_minute,t.nanosecond_in_second,known⟩

theorem parse_text (t : Instant) (plain : 0 ≤ t.date.year ∧ t.date.year ≤ 9999) : parse t.text = some t := by
  have known : firstYear ≤ t.date.year ∧ t.date.year ≤ lastYear := by
    simp only [firstYear,lastYear]
    omega
  have clock := t.readClock_text (show Stops Char.isDigit ['Z'] by simp) (by decide)
  have zone : readZone (trimLeft ['Z']) = some (0,[]) := by decide
  simp only [parse,text,String.toList_ofList,List.append_assoc,List.cons_append,readDate_text t.date plain,
    bind,Option.bind,clock,zone,settle_utc t known]
  exact if_pos ⟨t.hour_in_day,t.minute_in_hour,by decide,by decide,known.1,known.2,rfl⟩

theorem codec_keeps (t : Instant) (plain : 0 ≤ t.date.year ∧ t.date.year ≤ 9999) : codec.Keeps t :=
  Codec.keeps_spelled (t.parse_text plain)

end Instant

end Harbour.Calendar
