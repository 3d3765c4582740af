import Harbour.Basic
import Harbour.Document.Numeral

namespace Harbour

namespace Text

-- The text does not go on with a character of this kind.
def Stops (kind : Char → Bool) (rest : List Char) : Prop := ∀ c ∈ rest.head?, kind c = false

@[simp] theorem stops_nil (kind : Char → Bool) : Stops kind [] := by simp [Stops]

@[simp] theorem stops_cons (kind : Char → Bool) (c : Char) (rest : List Char) :
    Stops kind (c :: rest) ↔ kind c = false := by simp [Stops]

theorem Stops.narrow {wide kind : Char → Bool} (stops : Stops wide rest)
    (less : ∀ c, kind c = true → wide c = true) : Stops kind rest := by
  intro c first
  have outside := stops c first
  cases inside : kind c with
  | false => rfl
  | true => rw [less c inside] at outside; cases outside

theorem dropWhile_stops {kind : Char → Bool} (stops : Stops kind rest) : rest.dropWhile kind = rest := by
  cases rest with
  | nil => rfl
  | cons c rest => rw [List.dropWhile_cons,(stops_cons kind c rest).mp stops,if_neg Bool.false_ne_true]

theorem takeWhile_run {kind : Char → Bool} (all : ∀ c ∈ run, kind c = true) (stops : Stops kind rest) :
    (run ++ rest).takeWhile kind = run := by
  rw [List.takeWhile_append_of_pos all]
  cases rest with
  | nil => simp
  | cons c rest =>
      rw [List.takeWhile_cons,(stops_cons kind c rest).mp stops,if_neg Bool.false_ne_true,List.append_nil]

theorem dropWhile_run {kind : Char → Bool} (all : ∀ c ∈ run, kind c = true) (stops : Stops kind rest) :
    (run ++ rest).dropWhile kind = rest := by
  rw [List.dropWhile_append_of_pos all,dropWhile_stops stops]

end Text

namespace Document.Numeral

theorem toDigits_digits (n : Nat) : ∀ c ∈ Nat.toDigits 10 n, c.isDigit = true :=
  fun _ present => Nat.isDigit_of_mem_toDigits (by decide) (by decide) present

theorem toDigits_leads (positive : 0 < n) : ∃ d ds, Nat.toDigits 10 n = d :: ds ∧ d ≠ '0' := by
  induction n using Nat.strongRecOn with
  | ind n ih =>
      by_cases single : n < 10
      · refine ⟨n.digitChar,[],Nat.toDigits_of_lt_base single,?_⟩
        simpa using Nat.pos_iff_ne_zero.mp positive
      · obtain ⟨d,ds,whole,nonzero⟩ := ih (n / 10) (by omega) (by omega)
        refine ⟨d,ds ++ [(n % 10).digitChar],?_,nonzero⟩
        rw [Nat.toDigits_of_base_le (by decide) (Nat.not_lt.mp single),whole,List.cons_append]

theorem fixed_digits (width n : Nat) :
    ∀ c ∈ (Positional.write 10 width n).map Nat.digitChar, c.isDigit = true := by
  intro c present
  obtain ⟨d,written,rfl⟩ := List.mem_map.mp present
  rw [Nat.isDigit_digitChar]
  exact decide_eq_true (Positional.write_below (by decide) width n d written)

theorem decimal_digits {digits : List Nat} (small : ∀ d ∈ digits, d < 10) (start : Nat) :
    Nat.ofDigitChars 10 (digits.map Nat.digitChar) start = digits.foldl (fun n d => n * 10 + d) start := by
  induction digits generalizing start with
  | nil => rfl
  | cons d rest ih =>
      rw [List.map_cons,Nat.ofDigitChars_cons_digitChar_of_lt_ten (small d List.mem_cons_self),
        List.foldl_cons,Nat.mul_comm 10 start]
      exact ih (fun d present => small d (List.mem_cons_of_mem _ present)) _

theorem decimal_fixed (small : n < Nat.pow 10 width) :
    decimal ((Positional.write 10 width n).map Nat.digitChar) = n := by
  rw [decimal,decimal_digits (Positional.write_below (by decide) width n)]
  exact (Positional.read_write 10 width n).trans (Nat.mod_eq_of_lt small)

end Document.Numeral

end Harbour
