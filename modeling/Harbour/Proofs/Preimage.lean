import Harbour.Log

namespace Harbour

namespace Octets

structure Denotes (octets : List UInt8) (n : Nat) : Prop where
  width : octets.length = 8
  value : Positional.read 256 (octets.map UInt8.toNat) = n

theorem ofWord_denotes (w : UInt64) : Denotes (ofWord w) w.toNat where
  width := ofWord_length w
  value := by
    rw [ofWord_digits,Positional.read_write]
    exact Nat.mod_eq_of_lt (word_below w)

theorem ofTime_denotes (t : Int64) : Denotes (ofTime t) (t.toInt % 0x10000000000000000).toNat := by
  have signed : t.toInt = (t.toUInt64.toNat : Int).bmod 0x10000000000000000 :=
    BitVec.toInt_eq_toNat_bmod t.toBitVec
  have small := t.toUInt64.toNat_lt
  have kept : t.toInt % 0x10000000000000000 = t.toUInt64.toNat % 0x10000000000000000 := by
    rw [signed]
    exact Int.bmod_emod
  have same : (t.toInt % 0x10000000000000000).toNat = t.toUInt64.toNat := by omega
  rw [same]
  exact ofWord_denotes t.toUInt64

theorem ofText_length (s : String) : (ofText s).length = s.utf8ByteSize := by
  simp [ofText]

theorem size_denotes {s : String} (short : s.utf8ByteSize < 0x10000000000000000) :
    Denotes (ofWord (UInt64.ofNat (ofText s).length)) s.utf8ByteSize := by
  have denoted := ofWord_denotes (UInt64.ofNat (ofText s).length)
  rwa [UInt64.toNat_ofNat',ofText_length,Nat.mod_eq_of_lt short] at denoted

theorem counted_length (s : String) : (counted s).length = 8 + s.utf8ByteSize := by
  simp [counted,ofText_length]

theorem counted_size {s t : String} {rest other : List UInt8} (same : counted s ++ rest = counted t ++ other) :
    s.utf8ByteSize % 0x10000000000000000 = t.utf8ByteSize % 0x10000000000000000 := by
  simp only [counted,List.append_assoc] at same
  have words := congrArg UInt64.toNat (ofWord_injective (List.append_inj same (by simp)).1)
  rwa [UInt64.toNat_ofNat',UInt64.toNat_ofNat',ofText_length,ofText_length] at words

-- A counted text says where it ends, so what follows it is known too.
theorem counted_injective {s t : String} {rest other : List UInt8}
    (shortLeft : s.utf8ByteSize < 0x10000000000000000) (shortRight : t.utf8ByteSize < 0x10000000000000000)
    (same : counted s ++ rest = counted t ++ other) : s = t ∧ rest = other := by
  have sizes := counted_size same
  rw [Nat.mod_eq_of_lt shortLeft,Nat.mod_eq_of_lt shortRight] at sizes
  simp only [counted,List.append_assoc] at same
  obtain ⟨_,texts⟩ := List.append_inj same (by simp)
  obtain ⟨text,rests⟩ := List.append_inj texts (by rwa [ofText_length,ofText_length])
  exact ⟨ofText_injective text,rests⟩

theorem digitChar_injective : ∀ a < 16, ∀ b < 16, Nat.digitChar a = Nat.digitChar b → a = b := by decide

theorem hexDigits_injective {a b : UInt8}
    (same : (Positional.write 16 2 a.toNat).map Nat.digitChar =
      (Positional.write 16 2 b.toNat).map Nat.digitChar) : a = b := by
  have small : ∀ o : UInt8, o.toNat < Nat.pow 16 2 := fun o => o.toNat_lt
  simp only [Positional.write,List.nil_append,List.cons_append,List.map_cons,List.map_nil,
    List.cons.injEq,and_true] at same
  have left := small a
  have right := small b
  have high := digitChar_injective _ (Nat.mod_lt _ (by decide)) _ (Nat.mod_lt _ (by decide)) same.1
  have low := digitChar_injective _ (Nat.mod_lt _ (by decide)) _ (Nat.mod_lt _ (by decide)) same.2
  apply UInt8.toNat_inj.mp
  change a.toNat < 256 at left
  change b.toNat < 256 at right
  omega

theorem hex_injective {left right : List UInt8} (same : hex left = hex right) : left = right := by
  have texts := String.ofList_injective same
  induction left generalizing right with
  | nil =>
      cases right with
      | nil => rfl
      | cons b rest => simp [Positional.write] at texts
  | cons a rest ih =>
      cases right with
      | nil => simp [Positional.write] at texts
      | cons b others =>
          rw [List.flatMap_cons,List.flatMap_cons] at texts
          obtain ⟨first,later⟩ := List.append_inj texts (by simp)
          have heads := hexDigits_injective first
          have tails := ih (congrArg String.ofList later) later
          rw [heads,tails]

end Octets

theorem Event.digestText_injective {a b : Hash.Digest} (same : digestText a = digestText b) : a = b :=
  Vector.toList_inj.mp (Octets.hex_injective same)

theorem Kind.tag_injective {a b : Kind} (same : a.tag = b.tag) : a = b := by
  cases a <;> cases b <;> simp_all [Kind.tag]

-- The texts of an entry are short enough for their lengths to be written down.
def Entry.Short (e : Entry) : Prop :=
  e.callReference.utf8ByteSize < 0x10000000000000000 ∧ e.portCode.utf8ByteSize < 0x10000000000000000

-- Fixed widths up to the first text, a counted text, a counted text, and fixed
-- widths again: the octets come apart in one way only.
theorem preimage_injective {p q : Hash.Digest} {i j : EventId} {e f : Entry} (left : e.Short) (right : f.Short)
    (same : preimage p i e = preimage q j f) : p = q ∧ i = j ∧ e = f := by
  obtain ⟨voyage,call,code,kind,time⟩ := e
  obtain ⟨voyage',call',code',kind',time'⟩ := f
  simp only [preimage,List.append_assoc] at same
  obtain ⟨digests,same⟩ := List.append_inj same (by simp)
  obtain ⟨ids,same⟩ := List.append_inj same (by simp)
  obtain ⟨voyages,same⟩ := List.append_inj same (by simp)
  obtain ⟨calls,same⟩ := Octets.counted_injective left.1 right.1 same
  obtain ⟨codes,same⟩ := Octets.counted_injective left.2 right.2 same
  obtain ⟨tags,times⟩ := List.cons.inj same
  have id : i.value = j.value := Octets.ofWord_injective ids
  have notice : voyage.value = voyage'.value := Octets.ofWord_injective voyages
  cases i; cases j; cases voyage; cases voyage'
  cases id; cases notice; cases calls; cases codes
  cases Kind.tag_injective tags
  cases Octets.ofTime_injective times
  exact ⟨Vector.toList_inj.mp digests,rfl,rfl⟩

-- The octets of short texts are those of no long ones: what a first text has too
-- many, by a multiple that its eight octets do not show, the second cannot lack.
theorem preimage_short {p q : Hash.Digest} {i j : EventId} {e f : Entry} (short : e.Short)
    (same : preimage p i e = preimage q j f) : f.Short := by
  have total := congrArg List.length same
  simp only [preimage,List.append_assoc] at same
  obtain ⟨_,same⟩ := List.append_inj same (by simp)
  obtain ⟨_,same⟩ := List.append_inj same (by simp)
  obtain ⟨_,same⟩ := List.append_inj same (by simp)
  have call := Octets.counted_size same
  simp only [preimage,List.length_append,List.length_cons,Octets.counted_length,Octets.ofWord_length,
    Octets.ofTime_length,Vector.length_toList] at total
  unfold Entry.Short at short ⊢
  omega

-- A number is known by what its octets read as, and nothing here says how they
-- were written.
inductive Laid (previous : Hash.Digest) (id : EventId) (e : Entry) : List UInt8 → Prop where
  | parts {number voyage callSize portSize time : List UInt8} (numbered : Octets.Denotes number id.value.toNat)
      (sailed : Octets.Denotes voyage e.voyage.value.toNat)
      (called : Octets.Denotes callSize e.callReference.utf8ByteSize)
      (landed : Octets.Denotes portSize e.portCode.utf8ByteSize)
      (timed : Octets.Denotes time (e.committedAt.toInt % 0x10000000000000000).toNat) :
      Laid previous id e (previous.toList ++ number ++ voyage ++
        (callSize ++ Octets.ofText e.callReference) ++ (portSize ++ Octets.ofText e.portCode) ++
        e.kind.tag :: time)

theorem preimage_laid (p : Hash.Digest) (i : EventId) {e : Entry} (short : e.Short) : Laid p i e (preimage p i e) :=
  .parts (Octets.ofWord_denotes _) (Octets.ofWord_denotes _) (Octets.size_denotes short.1)
    (Octets.size_denotes short.2) (Octets.ofTime_denotes _)

-- Of two events that share their octets it is enough that one has short texts.
theorem preimage_unambiguous {p q : Hash.Digest} {i j : EventId} {e f : Entry} (short : e.Short) :
    digest p i e = Hash.sha256 (preimage p i e) ∧ Laid p i e (preimage p i e) ∧
      (preimage p i e = preimage q j f → p = q ∧ i = j ∧ e.voyage = f.voyage ∧
        e.callReference = f.callReference ∧ e.portCode = f.portCode ∧ e.kind = f.kind ∧
        e.committedAt = f.committedAt) := by
  refine ⟨rfl,preimage_laid p i short,?_⟩
  intro same
  obtain ⟨digests,ids,entries⟩ := preimage_injective short (preimage_short short same) same
  subst entries
  exact ⟨digests,ids,rfl,rfl,rfl,rfl,rfl⟩

theorem preimage_unambiguous_moved :
    let e : Entry := ⟨⟨7⟩,"AB","C",.created,-1⟩
    let f : Entry := ⟨⟨7⟩,"A","BC",.created,-1⟩
    e.Short ∧ Laid genesis .first e (preimage genesis .first e) ∧
      preimage genesis .first e ≠ preimage genesis .first f := by
  intro e f
  have short : e.Short := by unfold Entry.Short; decide
  refine ⟨short,(preimage_unambiguous (q := genesis) (j := .first) (f := f) short).2.1,?_⟩
  intro same
  have calls := ((preimage_unambiguous short).2.2 same).2.2.2.1
  exact absurd calls (by decide)

end Harbour
