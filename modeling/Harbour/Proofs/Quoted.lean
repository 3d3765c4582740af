import Harbour.Document.Quoted

namespace Harbour.Document.Quoted

structure Stands (p : Piece) (c : Char) : Prop where
  found : ∀ cs, pieces (escape c ++ cs) = (pieces cs).map fun (found,rest) => (p :: found,rest)
  meant : ∀ found, assemble (p :: found) = (assemble found).map (c :: ·)

theorem pieces_short (short : shortEscape e = some c) (cs : List Char) :
    pieces ('\\' :: e :: cs) = (pieces cs).map fun (found,rest) => (.plain c :: found,rest) := by
  have other : e ≠ 'u' := by rintro rfl; cases short
  rw [pieces,short]
  · cases pieces cs <;> rfl
  · exact fun _ _ _ _ _ same _ => other same

theorem short_stands (written : escape c = ['\\',e]) (short : shortEscape e = some c) : Stands (.plain c) c where
  found := by
    intro cs
    rw [written]
    exact pieces_short short cs
  meant := fun _ => rfl

theorem hexValue_digitChar : ∀ d < 16, hexValue (Nat.digitChar d) = some d := by decide

theorem hexCode_digits (small : ∀ d ∈ [w,x,y,z], d < 16) :
    hexCode w.digitChar x.digitChar y.digitChar z.digitChar = some (Positional.read 16 [w,x,y,z]) := by
  rw [hexCode,hexValue_digitChar w (small w (by simp)),hexValue_digitChar x (small x (by simp)),
    hexValue_digitChar y (small y (by simp)),hexValue_digitChar z (small z (by simp))]
  rfl

theorem hexCode_write (small : n < Nat.pow 16 4) (shape : Positional.write 16 4 n = [w,x,y,z]) :
    hexCode w.digitChar x.digitChar y.digitChar z.digitChar = some n := by
  have digits := Positional.write_below (show 0 < 16 by decide) 4 n
  have value := Positional.read_write 16 4 n
  rw [shape] at digits value
  rw [hexCode_digits digits,value,Nat.mod_eq_of_lt small]

theorem assemble_code (low : n < 0xD800) (found : List Piece) :
    assemble (.code n :: found) = (assemble found).map (Char.ofNat n :: ·) := by
  have high : ¬ isHigh n = true := by simp only [isHigh,decide_eq_true_eq]; omega
  have half : ¬ isLow n = true := by simp only [isLow,decide_eq_true_eq]; omega
  have neither : ¬ (isHigh n = true ∨ isLow n = true) := not_or.mpr ⟨high,half⟩
  cases found with
  | nil => exact if_neg neither
  | cons p rest =>
      cases p with
      | plain c => exact if_neg neither
      | code l => rw [assemble,if_neg high,if_neg half]

theorem code_stands (control : c.toNat < 32)
    (written : escape c = '\\' :: 'u' :: (Positional.write 16 4 c.toNat).map Nat.digitChar) :
    Stands (.code c.toNat) c where
  found := by
    intro cs
    have code := hexCode_write (show c.toNat < Nat.pow 16 4 by change c.toNat < 0x10000; omega) rfl
    rw [written]
    change pieces ('\\' :: 'u' :: _ :: _ :: _ :: _ :: cs) = _
    rw [pieces,code]
    cases pieces cs <;> rfl
  meant := by
    intro found
    rw [assemble_code (by omega),Char.ofNat_toNat]

theorem plain_stands (quote : c ≠ '"') (slash : c ≠ '\\') (printed : ¬ c.toNat < 32) (written : escape c = [c]) :
    Stands (.plain c) c where
  found := by
    intro cs
    have allowed : ¬ (c = '\\' ∨ c.toNat < 32) := not_or.mpr ⟨slash,printed⟩
    rw [written,List.singleton_append,pieces,if_neg allowed]
    · cases pieces cs <;> rfl
    · exact quote
    · exact fun _ _ _ _ _ same _ => slash same
    · exact fun _ _ same _ => slash same
  meant := fun _ => rfl

theorem escape_stands (c : Char) : ∃ p, Stands p c := by
  by_cases quote : c = '"'
  · subst quote; exact ⟨_,short_stands rfl rfl⟩
  by_cases slash : c = '\\'
  · subst slash; exact ⟨_,short_stands rfl rfl⟩
  by_cases back : c = '\x08'
  · subst back; exact ⟨_,short_stands rfl rfl⟩
  by_cases tab : c = '\t'
  · subst tab; exact ⟨_,short_stands rfl rfl⟩
  by_cases line : c = '\n'
  · subst line; exact ⟨_,short_stands rfl rfl⟩
  by_cases form : c = '\x0c'
  · subst form; exact ⟨_,short_stands rfl rfl⟩
  by_cases carriage : c = '\r'
  · subst carriage; exact ⟨_,short_stands rfl rfl⟩
  have long : escape c = if c.toNat < 32 then
      '\\' :: 'u' :: (Positional.write 16 4 c.toNat).map Nat.digitChar else [c] := by
    rw [escape,if_neg quote,if_neg slash,if_neg back,if_neg tab,if_neg line,if_neg form,if_neg carriage]
  by_cases control : c.toNat < 32
  · exact ⟨_,code_stands control (long.trans (if_pos control))⟩
  · exact ⟨_,plain_stands quote slash control (long.trans (if_neg control))⟩

theorem pieces_write (s : List Char) (rest : List Char) :
    ∃ found, pieces (s.flatMap escape ++ '"' :: rest) = some (found,rest) ∧ assemble found = some s := by
  induction s with
  | nil => exact ⟨[],rfl,rfl⟩
  | cons c s ih =>
      obtain ⟨p,stands⟩ := escape_stands c
      obtain ⟨found,later,meant⟩ := ih
      refine ⟨p :: found,?_,?_⟩
      · rw [List.flatMap_cons,List.append_assoc,stands.found,later]
        rfl
      · rw [stands.meant,meant]
        rfl

theorem read_write (s : List Char) (rest : List Char) :
    read (s.flatMap escape ++ '"' :: rest) = some (some (String.ofList s),rest) := by
  obtain ⟨found,parts,meant⟩ := pieces_write s rest
  rw [read,parts]
  simp only [Option.map_some,meant]

end Harbour.Document.Quoted
