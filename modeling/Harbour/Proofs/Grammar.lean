import Harbour.Proofs.Spelling

namespace Harbour.Document

namespace Quoted

def Hex (n : Nat) (digits : List Char) : Prop :=
  n < 0x10000 ∧ digits.map Char.toLower = (Positional.write 16 4 n).map Nat.digitChar

def shortEscapes : List (Char × Char) :=
  [('"','"'),('\\','\\'),('/','/'),('b','\x08'),('f','\x0c'),('n','\n'),('r','\r'),('t','\t')]

-- What may stand behind an opening quote, up to and with the closing one, unit
-- by unit. Any character may be written by its code.
inductive Units : List Piece → List Char → Prop where
  | close : Units [] ['"']
  | plain {c : Char} (quote : c ≠ '"') (slash : c ≠ '\\') (printed : 32 ≤ c.toNat) (rest : Units ps cs) :
      Units (.plain c :: ps) (c :: cs)
  | short {e c : Char} (listed : (e,c) ∈ shortEscapes) (rest : Units ps cs) : Units (.plain c :: ps) ('\\' :: e :: cs)
  | code (hex : Hex n digits) (rest : Units ps cs) : Units (.code n :: ps) ('\\' :: 'u' :: (digits ++ cs))

-- The text that the units make up. A character beyond the first 65536 takes two
-- codes, which are the halves of a pair.
inductive Means : List Piece → List Char → Prop where
  | nil : Means [] []
  | plain (c : Char) (rest : Means ps s) : Means (.plain c :: ps) (c :: s)
  | code (c : Char) (rest : Means ps s) : Means (.code c.toNat :: ps) (c :: s)
  | pair (c : Char) (wide : 0x10000 ≤ c.toNat) (rest : Means ps s) :
      Means (.code (0xD800 + (c.toNat - 0x10000) / 0x400) :: .code (0xDC00 + (c.toNat - 0x10000) % 0x400) :: ps)
        (c :: s)

def Literal (s : String) (body : List Char) : Prop := ∃ ps, Units ps body ∧ Means ps s.toList

theorem toLower_fixed_or (c : Char) : c.toLower = c ∨ ∃ n < 128, Char.ofNat n = c := by
  by_cases narrow : c.toNat < 128
  · exact .inr ⟨c.toNat,narrow,Char.ofNat_toNat c⟩
  · refine .inl (dif_neg ?_)
    rintro ⟨_,high⟩
    exact narrow (Nat.lt_of_le_of_lt (UInt32.le_iff_toNat_le.mp high) (by decide))

theorem hexValue_lowered : ∀ n < 128, hexValue (Char.ofNat n).toLower = hexValue (Char.ofNat n) := by decide

theorem hexValue_toLower (c : Char) : hexValue c.toLower = hexValue c := by
  rcases toLower_fixed_or c with same | ⟨n,narrow,rfl⟩
  · rw [same]
  · exact hexValue_lowered n narrow

theorem hexCode_toLower (a b c d : Char) : hexCode a.toLower b.toLower c.toLower d.toLower = hexCode a b c d := by
  simp only [hexCode,hexValue_toLower]

theorem Hex.code (hex : Hex n digits) : ∃ a b c d, digits = [a,b,c,d] ∧ hexCode a b c d = some n := by
  obtain ⟨small,lowered⟩ := hex
  have length := congrArg List.length lowered
  simp only [List.length_map,Positional.write_length] at length
  obtain ⟨a,b,c,d,rfl⟩ := List.length_eq_four.mp length
  refine ⟨a,b,c,d,rfl,?_⟩
  have code := hexCode_write small rfl
  rw [← hexCode_toLower]
  simp only [List.map_cons,List.map_nil,Positional.write,List.nil_append,List.cons_append,List.cons.injEq] at lowered
  obtain ⟨first,second,third,fourth,_⟩ := lowered
  rw [first,second,third,fourth]
  exact code

theorem shortEscapes_read : ∀ p ∈ shortEscapes, shortEscape p.1 = some p.2 := by decide

theorem Units.read (units : Units ps cs) (rest : List Char) : pieces (cs ++ rest) = some (ps,rest) := by
  induction units with
  | close => rfl
  | plain quote slash printed _ ih =>
      have allowed := not_or.mpr ⟨slash,Nat.not_lt.mpr printed⟩
      rw [List.cons_append,pieces,if_neg allowed,ih]
      · rfl
      · exact quote
      · exact fun _ _ _ _ _ same _ => slash same
      · exact fun _ _ same _ => slash same
  | short listed _ ih =>
      rw [List.cons_append,List.cons_append,pieces_short (shortEscapes_read _ listed),ih]
      rfl
  | @code n digits ps cs hex _ ih =>
      obtain ⟨a,b,c,d,rfl,code⟩ := hex.code
      change pieces ('\\' :: 'u' :: a :: b :: c :: d :: (cs ++ rest)) = _
      rw [pieces,code,ih]
      rfl

theorem isHigh_iff (n : Nat) : isHigh n = true ↔ 0xD800 ≤ n ∧ n < 0xDC00 := decide_eq_true_iff

theorem isLow_iff (n : Nat) : isLow n = true ↔ 0xDC00 ≤ n ∧ n < 0xE000 := decide_eq_true_iff

theorem assemble_single (high : ¬ isHigh n = true) (low : ¬ isLow n = true) (found : List Piece) :
    assemble (.code n :: found) = (assemble found).map (Char.ofNat n :: ·) := by
  have neither := not_or.mpr ⟨high,low⟩
  cases found with
  | nil => exact if_neg neither
  | cons p rest =>
      cases p with
      | plain c => exact if_neg neither
      | code l => rw [assemble,if_neg high,if_neg low]

theorem toNat_valid (c : Char) : c.toNat < 0xD800 ∨ 0xDFFF < c.toNat ∧ c.toNat < 0x110000 := c.valid

theorem Means.assembled (means : Means ps s) : assemble ps = some s := by
  induction means with
  | nil => rfl
  | plain c _ ih => rw [assemble,ih]; rfl
  | code c _ ih =>
      have valid := toNat_valid c
      have high : ¬ isHigh c.toNat = true := by rw [isHigh_iff]; omega
      have low : ¬ isLow c.toNat = true := by rw [isLow_iff]; omega
      rw [assemble_single high low,ih,Char.ofNat_toNat]
      rfl
  | pair c wide _ ih =>
      have valid := toNat_valid c
      have high : isHigh (0xD800 + (c.toNat - 0x10000) / 0x400) = true := by rw [isHigh_iff]; omega
      have low : isLow (0xDC00 + (c.toNat - 0x10000) % 0x400) = true := by rw [isLow_iff]; omega
      have joined : 0x10000 + (0xD800 + (c.toNat - 0x10000) / 0x400 - 0xD800) * 0x400 +
          (0xDC00 + (c.toNat - 0x10000) % 0x400 - 0xDC00) = c.toNat := by omega
      rw [assemble,if_pos high,if_pos low,joined,ih,Char.ofNat_toNat]
      rfl

theorem Units.spells (units : Units ps body) : Spells ((assemble ps).map String.ofList) body := by
  intro rest
  rw [Quoted.read,units.read rest]
  rfl

theorem Literal.spells (literal : Literal s body) : Spells (some s) body := by
  obtain ⟨ps,units,means⟩ := literal
  have spelled := units.spells
  rwa [means.assembled,Option.map_some,String.ofList_toList] at spelled

def ordinary? (c : Char) : Bool := c ≠ '"' ∧ c ≠ '\\' ∧ 32 ≤ c.toNat

theorem literal_ordinary (s : String) (ordinary : s.toList.all ordinary? = true) : Literal s (s.toList ++ ['"']) := by
  rw [List.all_eq_true] at ordinary
  unfold Literal
  generalize s.toList = cs at ordinary
  refine ⟨cs.map Piece.plain,?_,?_⟩
  · induction cs with
    | nil => exact .close
    | cons c rest ih =>
        obtain ⟨first,later⟩ := List.forall_mem_cons.mp ordinary
        obtain ⟨quote,slash,printed⟩ := of_decide_eq_true first
        exact .plain quote slash printed (ih later)
  · clear ordinary
    induction cs with
    | nil => exact .nil
    | cons c rest ih => exact .plain c ih

end Quoted

namespace Numeral

def Digits (ds : List Char) : Prop := ds ≠ [] ∧ ∀ c ∈ ds, c.isDigit = true

inductive Fraction : List Char → Prop where
  | none : Fraction []
  | point (digits : Digits ds) : Fraction ('.' :: ds)

inductive Exponent : List Char → Prop where
  | none : Exponent []
  | power {e : Char} {sign : List Char} (mark : e = 'e' ∨ e = 'E') (signed : sign = [] ∨ sign = ['+'] ∨ sign = ['-'])
      (digits : Digits ds) : Exponent (e :: (sign ++ ds))

inductive Formed : List Char → Prop where
  | parts {sign front behind power : List Char} (signed : sign = [] ∨ sign = ['-']) (digits : Digits front)
      (unpadded : front.head? = some '0' → front = ['0']) (fraction : Fraction behind) (exponent : Exponent power) :
      Formed (sign ++ (front ++ (behind ++ power)))

variable {front behind power rest : List Char}

theorem readWhole_digits (digits : Digits front) (unpadded : front.head? = some '0' → front = ['0'])
    (stops : Text.Stops Char.isDigit rest) : readWhole (front ++ rest) = some (decimal front,rest) := by
  obtain ⟨held,all⟩ := digits
  unfold readWhole
  rw [Text.takeWhile_run all stops,Text.dropWhile_run all stops]
  split
  · exact absurd rfl held
  · cases unpadded rfl
  · rfl

theorem readFraction_formed (fraction : Fraction behind) (stops : Text.Stops fractional rest) :
    readFraction (behind ++ rest) = some (behind.tail,rest) := by
  cases fraction with
  | none => exact readFraction_text (List.forall_mem_nil _) stops
  | point digits =>
      obtain ⟨c,more,rfl⟩ := List.exists_cons_of_ne_nil digits.1
      exact readFraction_text digits.2 stops

theorem readPower_digits (negative : Bool) (digits : Digits ds) (stops : Text.Stops Char.isDigit rest) :
    readPower negative (ds ++ rest) = some (some (if negative then -(decimal ds : Int) else decimal ds),rest) := by
  obtain ⟨held,all⟩ := digits
  unfold readPower
  rw [Text.takeWhile_run all stops,Text.dropWhile_run all stops]
  split
  · exact absurd rfl held
  · rfl

theorem readExponent_formed (exponent : Exponent power) :
    ∃ e, ∀ rest, Text.Stops extends? rest → readExponent (power ++ rest) = some (e,rest) := by
  cases exponent with
  | none => exact ⟨none,fun _ => readExponent_text none⟩
  | @power ds e sign mark signed digits =>
      have ends : ∀ rest, Text.Stops extends? rest → Text.Stops Char.isDigit rest :=
        fun _ stops => (stops.narrow fractional_extends).narrow digit_fractional
      rcases signed with rfl | rfl | rfl
      · obtain ⟨c,more,rfl⟩ := List.exists_cons_of_ne_nil digits.1
        have digit := digits.2 c List.mem_cons_self
        refine ⟨some (decimal (c :: more)),fun rest stops => ?_⟩
        rw [List.nil_append,List.cons_append,readExponent,if_pos mark]
        · exact readPower_digits false digits (ends rest stops)
        · rintro _ same; cases same; cases digit
        · rintro _ same; cases same; cases digit
      · refine ⟨some (decimal ds),fun rest stops => ?_⟩
        change readExponent (e :: '+' :: (ds ++ rest)) = _
        rw [readExponent,if_pos mark]
        exact readPower_digits false digits (ends rest stops)
      · refine ⟨some (-(decimal ds : Int)),fun rest stops => ?_⟩
        change readExponent (e :: '-' :: (ds ++ rest)) = _
        rw [readExponent,if_pos mark]
        exact readPower_digits true digits (ends rest stops)

theorem stops_behind (fraction : Fraction behind) (stops : Text.Stops fractional rest) :
    Text.Stops Char.isDigit (behind ++ rest) := by
  cases fraction with
  | none => exact stops.narrow digit_fractional
  | point digits => exact (Text.stops_cons _ _ _).mpr rfl

theorem stops_power (exponent : Exponent power) (stops : Text.Stops extends? rest) :
    Text.Stops fractional (power ++ rest) := by
  cases exponent with
  | none => exact stops.narrow fractional_extends
  | power mark => rcases mark with rfl | rfl <;> exact (Text.stops_cons _ _ _).mpr rfl

theorem readUnsigned_formed (negative : Bool) (digits : Digits front)
    (unpadded : front.head? = some '0' → front = ['0']) (fraction : Fraction behind) (exponent : Exponent power) :
    ∃ n, ∀ rest, Text.Stops extends? rest →
      readUnsigned negative (front ++ (behind ++ (power ++ rest))) = some (n,rest) := by
  obtain ⟨e,read⟩ := readExponent_formed exponent
  refine ⟨⟨negative,decimal front,behind.tail,e⟩,fun rest stops => ?_⟩
  have afterFraction := stops_power exponent stops
  have afterWhole := stops_behind fraction afterFraction
  simp only [readUnsigned,readWhole_digits digits unpadded afterWhole,readFraction_formed fraction afterFraction,
    read rest stops,Option.bind_eq_bind,Option.bind_some]
  rfl

theorem Formed.spells (formed : Formed cs) : ∃ n : Numeral, n.Spells cs := by
  obtain ⟨signed,digits,unpadded,fraction,exponent⟩ := formed
  rcases signed with rfl | rfl
  · obtain ⟨n,found⟩ := readUnsigned_formed false digits unpadded fraction exponent
    obtain ⟨c,more,rfl⟩ := List.exists_cons_of_ne_nil digits.1
    have digit := digits.2 c List.mem_cons_self
    refine ⟨n,fun rest stops => ?_⟩
    simp only [List.nil_append,List.append_assoc,List.cons_append] at found ⊢
    rw [read]
    · exact found rest stops
    · rintro _ same; cases same; cases digit
  · obtain ⟨n,found⟩ := readUnsigned_formed true digits unpadded fraction exponent
    refine ⟨n,fun rest stops => ?_⟩
    simp only [List.append_assoc] at found ⊢
    exact found rest stops

theorem ofNat_spells (n : Nat) : Numeral.Spells (ofNat n) (Nat.toDigits 10 n) := by
  intro rest stops
  have read := read_text (ofNat_sound n) stops
  simpa only [text,ofNat,signText,fractionText,exponentText,Bool.false_eq_true,if_false,List.nil_append,
    List.append_nil] using read

end Numeral

def Padded (text cs : List Char) : Prop := ∃ before after, Gaps before ∧ Gaps after ∧ cs = before ++ (text ++ after)

def Paired (name text cs : List Char) : Prop := ∃ before colon gap after, Gaps before ∧ Gaps colon ∧ Gaps gap ∧
  Gaps after ∧ cs = before ++ '"' :: (name ++ (colon ++ ':' :: (gap ++ (text ++ after))))

-- The texts of all values, of any depth. Names may repeat, and neither a name
-- nor a text need have a meaning: halves of pairs pass.
mutual
inductive Formed : List Char → Prop where
  | null : Formed nullText
  | flag (b : Bool) : Formed (flagText b)
  | number (number : Numeral.Formed cs) : Formed cs
  | text (units : Quoted.Units ps body) : Formed ('"' :: body)
  | emptyList (gaps : Gaps gap) : Formed ('[' :: (gap ++ [']']))
  | list (items : FormedItems body) : Formed ('[' :: body)
  | emptyObject (gaps : Gaps gap) : Formed ('\x7b' :: (gap ++ ['\x7d']))
  | object (members : FormedMembers body) : Formed ('\x7b' :: body)

inductive FormedItems : List Char → Prop where
  | last (value : Formed text) (padded : Padded text cs) : FormedItems (cs ++ [']'])
  | more (value : Formed text) (padded : Padded text cs) (rest : FormedItems later) :
      FormedItems (cs ++ ',' :: later)

inductive FormedMembers : List Char → Prop where
  | last (units : Quoted.Units ps name) (value : Formed text) (paired : Paired name text cs) :
      FormedMembers (cs ++ ['\x7d'])
  | more (units : Quoted.Units ps name) (value : Formed text) (paired : Paired name text cs)
      (rest : FormedMembers later) : FormedMembers (cs ++ ',' :: later)
end

variable {v : Value} {items : Items} {members : Members} {key : Option String} {name text cs later : List Char}

theorem Items.spells_last (value : v.Spells text) (padded : Padded text cs) :
    (Items.more v .done).Spells (cs ++ [']']) := by
  obtain ⟨before,after,lead,trail,rfl⟩ := padded
  rw [Items.Spells]
  exact ⟨before,text,after,[']'],lead,value,trail,by simp,rfl⟩

theorem Items.spells_more (value : v.Spells text) (padded : Padded text cs) (rest : items.Spells later)
    (held : items ≠ .done) : (Items.more v items).Spells (cs ++ ',' :: later) := by
  obtain ⟨before,after,lead,trail,rfl⟩ := padded
  rw [Items.Spells]
  refine ⟨before,text,after,',' :: later,lead,value,trail,by simp,?_⟩
  cases items with
  | done => exact absurd rfl held
  | broken => exact rest.elim
  | more w items => exact ⟨later,rfl,rest⟩

theorem Members.spells_last (quoted : Quoted.Spells key name) (value : v.Spells text) (paired : Paired name text cs) :
    (Members.more key v .done).Spells (cs ++ ['\x7d']) := by
  obtain ⟨before,colon,gap,after,lead,behind,front,trail,rfl⟩ := paired
  rw [Members.Spells]
  exact ⟨before,name,colon,gap,text,after,['\x7d'],lead,quoted,behind,front,value,trail,by simp,rfl⟩

theorem Members.spells_more (quoted : Quoted.Spells key name) (value : v.Spells text) (paired : Paired name text cs)
    (rest : members.Spells later) (held : members ≠ .done) :
    (Members.more key v members).Spells (cs ++ ',' :: later) := by
  obtain ⟨before,colon,gap,after,lead,behind,front,trail,rfl⟩ := paired
  rw [Members.Spells]
  refine ⟨before,name,colon,gap,text,after,',' :: later,lead,quoted,behind,front,value,trail,by simp,?_⟩
  cases members with
  | done => exact absurd rfl held
  | broken => exact rest.elim
  | more next w members => exact ⟨later,rfl,rest⟩

mutual
theorem Formed.value {cs : List Char} : Formed cs → ∃ v : Value, v.intact = true ∧ v.Spells cs
  | .null => ⟨.null,rfl,rfl⟩
  | .flag b => ⟨.flag b,rfl,rfl⟩
  | .number number => by
      obtain ⟨n,spelled⟩ := number.spells
      exact ⟨.number n,rfl,spelled⟩
  | .text units => ⟨.text _,rfl,_,rfl,units.spells⟩
  | .emptyList gaps => ⟨.list .done,rfl,_,rfl,_,gaps,rfl⟩
  | .list items => by
      obtain ⟨v,items,intact,spelled⟩ := FormedItems.items items
      exact ⟨.list (.more v items),intact,_,rfl,spelled⟩
  | .emptyObject gaps => ⟨.object .done,rfl,_,rfl,_,gaps,rfl⟩
  | .object members => by
      obtain ⟨key,v,members,intact,spelled⟩ := FormedMembers.members members
      exact ⟨.object (.more key v members),intact,_,rfl,spelled⟩

theorem FormedItems.items {cs : List Char} : FormedItems cs →
    ∃ v items, (Items.more v items).intact = true ∧ (Items.more v items).Spells cs
  | .last value padded => by
      obtain ⟨v,intact,spelled⟩ := Formed.value value
      exact ⟨v,.done,by simp [Items.intact,intact],Items.spells_last spelled padded⟩
  | .more value padded rest => by
      obtain ⟨v,intact,spelled⟩ := Formed.value value
      obtain ⟨w,items,whole,later⟩ := FormedItems.items rest
      exact ⟨v,.more w items,by rw [Items.intact,intact,whole]; rfl,Items.spells_more spelled padded later nofun⟩

theorem FormedMembers.members {cs : List Char} : FormedMembers cs →
    ∃ key v members, (Members.more key v members).intact = true ∧ (Members.more key v members).Spells cs
  | .last units value paired => by
      obtain ⟨v,intact,spelled⟩ := Formed.value value
      exact ⟨_,v,.done,by simp [Members.intact,intact],Members.spells_last units.spells spelled paired⟩
  | .more units value paired rest => by
      obtain ⟨v,intact,spelled⟩ := Formed.value value
      obtain ⟨next,w,members,whole,later⟩ := FormedMembers.members rest
      exact ⟨_,v,.more next w members,by rw [Members.intact,intact,whole]; rfl,
        Members.spells_more units.spells spelled paired later nofun⟩
end

end Harbour.Document
