import Harbour.Notice
import Harbour.Proofs.Codecs
import Harbour.Proofs.Grammar

namespace Harbour.MessageId

open Document

variable {ds : List Char}

theorem hexValues_digits {digits : List Nat} (small : ∀ d ∈ digits, d < 16) :
    (digits.map Nat.digitChar).mapM Quoted.hexValue = some digits := by
  induction digits with
  | nil => rfl
  | cons d rest ih =>
      have first := Quoted.hexValue_digitChar d (small d List.mem_cons_self)
      have later := ih fun e present => small e (List.mem_cons_of_mem _ present)
      rw [List.map_cons,List.mapM_cons,first,later]
      rfl

theorem digits_length (m : MessageId) : m.digits.length = 32 := by simp [digits]

theorem ofDigits_digits (m : MessageId) : ofDigits? m.digits = some m := by
  have small : m.value.toNat < Nat.pow 16 32 := m.value.isLt
  rw [ofDigits?,if_pos m.digits_length,digits,hexValues_digits (Positional.write_below (by decide) 32 _),
    Option.map_some,Positional.read_write,Nat.mod_eq_of_lt small,BitVec.ofNat_toNat,BitVec.setWidth_eq]

theorem blocks_joined (ds : List Char) :
    ds.take 8 ++ ((ds.drop 8).take 4 ++ ((ds.drop 12).take 4 ++ ((ds.drop 16).take 4 ++ ds.drop 20))) = ds := by
  have from16 := (ds.drop 16).take_append_drop 4
  have from12 := (ds.drop 12).take_append_drop 4
  have from8 := (ds.drop 8).take_append_drop 4
  rw [List.drop_drop] at from16 from12 from8
  rw [from16,from12,from8,List.take_append_drop]

theorem hyphens_out (whole : ds.length = 32) :
    (hyphenate ds).take 8 ++ ((hyphenate ds).drop 9).take 4 ++ ((hyphenate ds).drop 14).take 4 ++
      ((hyphenate ds).drop 19).take 4 ++ (hyphenate ds).drop 24 = ds := by
  simpa [hyphenate,List.take_append,List.drop_append,List.drop_take,whole] using blocks_joined ds

theorem ofHyphenated_digits (m : MessageId) : ofHyphenated? (hyphenate m.digits) = some m := by
  simp only [ofHyphenated?,hyphens_out m.digits_length,if_pos,ofDigits_digits]

theorem hyphenate_length (whole : ds.length = 32) : (hyphenate ds).length = 36 := by
  simp [hyphenate,whole]

theorem digitChar_leads : ∀ n < 16, Nat.digitChar n ≠ '\x7b' ∧ (Nat.digitChar n).toLower ≠ 'u' := by decide

theorem digits_head (m : MessageId) : ∃ n ds, n < 16 ∧ m.digits = n.digitChar :: ds := by
  obtain ⟨n,rest,values⟩ := List.exists_cons_of_length_eq_add_one (Positional.write_length 16 32 m.value.toNat)
  have small : n < 16 := Positional.write_below (by decide) 32 m.value.toNat n (values ▸ List.mem_cons_self)
  exact ⟨n,_,small,congrArg (List.map Nat.digitChar) values⟩

theorem digits_lead (m : MessageId) : ∃ n ds, n < 16 ∧ hyphenate m.digits = n.digitChar :: ds := by
  obtain ⟨n,rest,small,lead⟩ := m.digits_head
  exact ⟨n,_,small,congrArg hyphenate lead⟩

theorem parse_text (m : MessageId) : parse m.text = some m := by
  obtain ⟨n,ds,small,lead⟩ := m.digits_lead
  have whole := hyphenate_length m.digits_length
  have back := m.ofHyphenated_digits
  rw [lead] at whole back
  obtain ⟨unbraced,other⟩ := digitChar_leads n small
  have unnamed : ((n.digitChar :: ds).take 9).map Char.toLower ≠ urn := by
    intro same
    rw [List.take_succ_cons,List.map_cons] at same
    exact other (List.cons.inj same).1
  have hyphenated : ofDigits? (n.digitChar :: ds) = none := if_neg (by rw [whole]; decide)
  rw [parse,text,lead,String.toList_ofList]
  split
  · rename_i brace; exact absurd (List.cons.inj brace).1 unbraced
  · rw [if_neg unnamed,hyphenated,back,Option.none_or]

theorem codec_keeps (m : MessageId) : codec.Keeps m := Codec.keeps_spelled m.parse_text

-- Letters stand in either case, those of the URN's own name too.
def Spelled (m : MessageId) (s : String) : Prop :=
  s.toList.map Char.toLower ∈ [m.digits,hyphenate m.digits,'\x7b' :: (hyphenate m.digits ++ ['\x7d']),
    urn ++ hyphenate m.digits]

theorem marks_lowered : ∀ n < 128, (Char.ofNat n).toLower ∈ ['-','\x7b','\x7d'] →
    (Char.ofNat n).toLower = Char.ofNat n := by decide

theorem toLower_mark (mark : d ∈ ['-','\x7b','\x7d']) (lowered : Char.toLower c = d) : c = d := by
  rcases Quoted.toLower_fixed_or c with same | ⟨n,narrow,rfl⟩
  · exact same.symm.trans lowered
  · exact (marks_lowered n narrow (lowered ▸ mark)).symm.trans lowered

theorem ofDigits_lowered (es : List Char) : ofDigits? (es.map Char.toLower) = ofDigits? es := by
  have values : (es.map Char.toLower).mapM Quoted.hexValue = es.mapM Quoted.hexValue := by
    induction es with
    | nil => rfl
    | cons e rest ih => rw [List.map_cons,List.mapM_cons,List.mapM_cons,ih,Quoted.hexValue_toLower]
  rw [ofDigits?,ofDigits?,List.length_map,values]

theorem lowered_cut (lowered : cs.map Char.toLower = front ++ '-' :: back) :
    ∃ es fs, cs = es ++ '-' :: fs ∧ es.map Char.toLower = front ∧ fs.map Char.toLower = back := by
  obtain ⟨es,rest,rfl,before,behind⟩ := List.map_eq_append_iff.mp lowered
  obtain ⟨c,fs,rfl,hyphen,after⟩ := List.map_eq_cons_iff.mp behind
  exact ⟨es,fs,by rw [toLower_mark (by decide) hyphen],before,after⟩

theorem hyphenate_blocks {first second third fourth : List Char} (fifth : List Char) (one : first.length = 8)
    (two : second.length = 4) (three : third.length = 4) (four : fourth.length = 4) :
    hyphenate (first ++ (second ++ (third ++ (fourth ++ fifth)))) =
      first ++ '-' :: second ++ '-' :: third ++ '-' :: fourth ++ '-' :: fifth := by
  simp [hyphenate,List.drop_append,List.drop_of_length_le,one,two,three,four]

theorem hyphenate_lowered (whole : ds.length = 32) (lowered : cs.map Char.toLower = hyphenate ds) :
    ∃ es, cs = hyphenate es ∧ es.map Char.toLower = ds := by
  obtain ⟨cs,fifth,rfl,lowered,last⟩ := lowered_cut lowered
  obtain ⟨cs,fourth,rfl,lowered,next⟩ := lowered_cut lowered
  obtain ⟨cs,third,rfl,lowered,middle⟩ := lowered_cut lowered
  obtain ⟨first,second,rfl,lead,early⟩ := lowered_cut lowered
  have size : ∀ {es : List Char} {n : Nat}, es.map Char.toLower = (ds.drop n).take 4 → n ≤ 16 → es.length = 4 := by
    intro es n same low
    rw [← List.length_map (f := Char.toLower),same,List.length_take,List.length_drop,whole]
    omega
  have leads : first.length = 8 := by
    rw [← List.length_map (f := Char.toLower),lead,List.length_take,whole]
    decide
  refine ⟨first ++ (second ++ (third ++ (fourth ++ fifth))),?_,?_⟩
  · rw [hyphenate_blocks fifth leads (size early (by decide)) (size middle (by decide)) (size next (by decide))]
  · simp only [List.map_append,lead,early,middle,next,last]
    exact blocks_joined ds

theorem ofHyphenated_lowered (m : MessageId) (lowered : cs.map Char.toLower = hyphenate m.digits) :
    ofHyphenated? cs = some m := by
  obtain ⟨es,rfl,same⟩ := hyphenate_lowered m.digits_length lowered
  have whole : es.length = 32 := by rw [← m.digits_length,← same,List.length_map]
  simp only [ofHyphenated?,hyphens_out whole,if_pos]
  rw [← ofDigits_lowered,same,ofDigits_digits]

theorem digitChar_unnamed : ∀ n < 16, Nat.digitChar n ≠ 'u' := by decide

-- What starts with a digit is neither in braces nor a URN, and both other ways of
-- reading it are tried.
theorem parse_digital {s : String} {n : Nat} (small : n < 16)
    (lowered : s.toList.map Char.toLower = n.digitChar :: rest) :
    parse s = (ofDigits? s.toList).or (ofHyphenated? s.toList) := by
  obtain ⟨c,more,lead,digit,_⟩ := List.map_eq_cons_iff.mp lowered
  have unnamed : ((c :: more).take 9).map Char.toLower ≠ urn := by
    intro same
    rw [List.take_succ_cons,List.map_cons,digit] at same
    exact digitChar_unnamed n small (List.cons.inj same).1
  rw [parse,lead]
  split
  · rename_i brace
    rw [(List.cons.inj brace).1] at digit
    exact absurd digit.symm (digitChar_leads n small).1
  · rw [if_neg unnamed]

theorem parse_plain (plain : s.toList.map Char.toLower = m.digits) : parse s = some m := by
  obtain ⟨n,ds,small,lead⟩ := m.digits_head
  rw [parse_digital small (plain.trans lead),← ofDigits_lowered,plain,ofDigits_digits,Option.some_or]

theorem parse_hyphenated (hyphenated : s.toList.map Char.toLower = hyphenate m.digits) : parse s = some m := by
  obtain ⟨n,ds,small,lead⟩ := m.digits_lead
  have length := congrArg List.length hyphenated
  rw [List.length_map,hyphenate_length m.digits_length] at length
  have undigital : ofDigits? s.toList = none := if_neg (by rw [length]; decide)
  rw [parse_digital small (hyphenated.trans lead),undigital,Option.none_or,ofHyphenated_lowered m hyphenated]

theorem parse_braced (braced : s.toList.map Char.toLower = '\x7b' :: (hyphenate m.digits ++ ['\x7d'])) :
    parse s = some m := by
  obtain ⟨c,rest,lead,opens,behind⟩ := List.map_eq_cons_iff.mp braced
  obtain ⟨inner,last,rfl,lowered,closing⟩ := List.map_eq_append_iff.mp behind
  obtain ⟨d,none,rfl,closes,ends⟩ := List.map_eq_cons_iff.mp closing
  rw [List.map_eq_nil_iff] at ends
  rw [toLower_mark (by decide) opens,toLower_mark (by decide) closes,ends] at lead
  simp only [parse,lead,List.reverse_append,List.reverse_cons,List.reverse_nil,List.nil_append,List.cons_append,
    List.reverse_reverse]
  exact ofHyphenated_lowered m lowered

theorem parse_named (named : s.toList.map Char.toLower = urn ++ hyphenate m.digits) : parse s = some m := by
  obtain ⟨name,rest,whole,named,lowered⟩ := List.map_eq_append_iff.mp named
  have nine : name.length = 9 := by rw [← List.length_map (f := Char.toLower),named]; rfl
  have front : (s.toList.take 9).map Char.toLower = urn := by rw [whole,List.take_left' nine,named]
  have back : s.toList.drop 9 = rest := by rw [whole,List.drop_left' nine]
  unfold parse
  split
  · rename_i brace
    rw [brace] at front
    cases front
  · rw [if_pos front,back]
    exact ofHyphenated_lowered m lowered

theorem parse_spelled (spelled : m.Spelled s) : parse s = some m := by
  simp only [Spelled,List.mem_cons,List.not_mem_nil,or_false] at spelled
  rcases spelled with plain | hyphenated | braced | named
  · exact parse_plain plain
  · exact parse_hyphenated hyphenated
  · exact parse_braced braced
  · exact parse_named named

end Harbour.MessageId
