import Harbour.Document.Codec
import Harbour.Proofs.Layouts

namespace Harbour.Document

namespace Codec
variable {α β : Type} {c : Codec α} {a : α}

-- What it means that a value survives its codec. A codec need not keep every
-- value of its type, so this is said of one value at a time.
structure Keeps (c : Codec α) (a : α) : Prop where
  sound : (c.write a).Sound
  back : c.read (c.write a) = .ok a

theorem decode_written {layout : Layout} (blank : layout.Blank) (keeps : c.Keeps a) :
    c.decode (String.ofList ((c.write a).write layout 0)) = .ok a := by
  simp only [decode,read_write blank keeps.sound,keeps.back]
  rfl

theorem decode_encode (keeps : c.Keeps a) : c.decode (c.encode a) = .ok a := decode_written compact_blank keeps

theorem decode_encodePretty (keeps : c.Keeps a) : c.decode (c.encodePretty a) = .ok a :=
  decode_written pretty_blank keeps

theorem keeps_map {into : α → β} {back : β → α} {b : β} (keeps : c.Keeps (back b)) (same : into (back b) = b) :
    (c.map into back).Keeps b where
  sound := keeps.sound
  back := by
    change (c.read (c.write (back b))).map into = .ok b
    rw [keeps.back,Except.map,same]

theorem keeps_text (s : String) : text.Keeps s := ⟨rfl,rfl⟩

theorem keeps_flag (b : Bool) : flag.Keeps b := ⟨trivial,rfl⟩

theorem readInteger_accepted {accept : Int → Option α} {i : Int} (integral : n.integer? = some i)
    (accepted : accept i = some a) : readInteger accept (.number n) = .ok a := by
  simp only [readInteger,integral,accepted]

theorem keeps_count (n : UInt64) : count.Keeps n where
  sound := Numeral.ofNat_sound _
  back := by
    have small := n.toNat_lt
    refine readInteger_accepted (Numeral.integer_ofNat small) ?_
    rw [if_pos (by omega),Int.toNat_natCast,UInt64.ofNat_toNat]

theorem keeps_time (t : Int64) : time.Keeps t where
  sound := Numeral.ofInt_sound _
  back := by
    have low := t.le_toInt
    have high := t.toInt_lt
    refine readInteger_accepted (Numeral.integer_ofInt low (by omega)) ?_
    rw [if_pos ⟨low,high⟩,Int64.ofInt_toInt]

theorem spelled_read {spell : α → String} {parse : String → Option α} {fault : Fault} {s : String}
    (parsed : parse s = some a) : (spelled spell parse fault).read (.string s) = .ok a := by
  have shown : text.read (.string s) = .ok s := rfl
  simp only [spelled,shown,bind,Except.bind,parsed]

theorem keeps_spelled {spell : α → String} {parse : String → Option α} {fault : Fault}
    (back : parse (spell a) = some a) : (spelled spell parse fault).Keeps a :=
  ⟨rfl,spelled_read back⟩

theorem nullable_read {v : Value} (shown : v ≠ .null) : c.nullable.read v = (c.read v).map some := by
  cases v with
  | null => exact absurd rfl shown
  | _ => rfl

-- A value that is written as nothing could not be told from its absence.
theorem keeps_nullable (keeps : c.Keeps a) (shown : c.write a ≠ .null) : c.nullable.Keeps (some a) where
  sound := keeps.sound
  back := by
    change c.nullable.read (c.write a) = _
    rw [nullable_read shown,keeps.back]
    rfl

theorem keeps_null (c : Codec α) : c.nullable.Keeps none := ⟨trivial,rfl⟩

theorem sound_ofList {values : List Value} (all : ∀ v ∈ values, v.Sound) : (Items.ofList values).Sound := by
  induction values with
  | nil => trivial
  | cons v rest ih =>
      exact ⟨all v List.mem_cons_self,ih fun w present => all w (List.mem_cons_of_mem _ present)⟩

theorem readAll_write (as : List α) (all : ∀ a ∈ as, c.Keeps a) :
    c.readAll (.ofList (as.map c.write)) = .ok as := by
  induction as with
  | nil => rfl
  | cons a rest ih =>
      have first := (all a List.mem_cons_self).back
      have later := ih fun b present => all b (List.mem_cons_of_mem _ present)
      rw [List.map_cons,Items.ofList,readAll,first,later]
      rfl

theorem keeps_list {as : List α} (all : ∀ a ∈ as, c.Keeps a) : c.list.Keeps as where
  sound := by
    refine sound_ofList ?_
    intro v present
    obtain ⟨a,held,rfl⟩ := List.mem_map.mp present
    exact (all a held).sound
  back := readAll_write as all

theorem keeps_bare {variants : List (Variant α)} {written : α → Written} {v : Variant α}
    (shape : written a = ⟨name,none⟩) (found : variants.find? (fun v => v.name = name) = some v)
    (back : v.bare = .ok a) : (choice variants written).Keeps a where
  sound := by simp only [choice,shape]; rfl
  back := by simp only [choice,shape,Value.string,found,back]

theorem keeps_carrying {variants : List (Variant α)} {written : α → Written} {inner : Codec β} {into : β → α}
    {b : β} (shape : written (into b) = ⟨name,some (inner.write b)⟩)
    (found : variants.find? (fun v => v.name = name) = some (.carrying name inner into)) (keeps : inner.Keeps b) :
    (choice variants written).Keeps (into b) where
  sound := by simp only [choice,shape]; exact ⟨rfl,keeps.sound,trivial⟩
  back := by
    simp only [choice,shape,Members.ofList,found,Variant.carrying,keeps.back]
    rfl

end Codec

namespace Fields
variable {α : Type}

def names : {α : Type} → Fields α → List String
  | _,.done => []
  | _,.field name _ _ rest => name :: rest.names

def Keeps : {α : Type} → Fields α → α → Prop
  | _,.done,_ => True
  | _,.field name item absence rest,(a,b) => name ∉ rest.names ∧
      (if absence.hidden a then absence.unnamed = some a else item.Keeps a) ∧ rest.Keeps b

def filled : {α : Type} → (f : Fields α) → α → f.Slots
  | _,.done,_ => ()
  | _,.field (α := α) _ _ absence rest,(a,b) =>
      ((if absence.hidden a then none else some a : Option α),rest.filled b)

theorem members_named (f : Fields α) (a : α) : ∀ m ∈ f.members a, m.1 ∈ f.names := by
  induction f with
  | done => intro m present; cases present
  | field name item absence rest ih =>
      obtain ⟨a,b⟩ := a
      intro m present
      unfold members at present
      split at present
      · exact List.mem_cons_of_mem _ (ih b m present)
      · rcases List.mem_cons.mp present with rfl | later
        · exact List.mem_cons_self
        · exact List.mem_cons_of_mem _ (ih b m later)

theorem members_sound (f : Fields α) (a : α) (keeps : f.Keeps a) : ∀ m ∈ f.members a, m.2.Sound := by
  induction f with
  | done => intro m present; cases present
  | field name item absence rest ih =>
      obtain ⟨a,b⟩ := a
      obtain ⟨_,own,others⟩ := keeps
      intro m present
      unfold members at present
      split at present
      · exact ih b others m present
      · rename_i shown
        rw [if_neg shown] at own
        rcases List.mem_cons.mp present with rfl | later
        · exact own.sound
        · exact ih b others m later

theorem gather_others {β : Type} (name : String) (item : Codec α) (absence : Absence α) (rest : Fields β)
    (own : Option α) (others : rest.Slots) (members : List (String × Value)) (apart : ∀ m ∈ members, m.1 ≠ name) :
    (Fields.field name item absence rest).gather (own,others) (.ofList members) =
      (rest.gather others (.ofList members)).map (own,·) := by
  induction members generalizing others with
  | nil => rfl
  | cons m later ih =>
      obtain ⟨key,v⟩ := m
      have other : key ≠ name := apart _ List.mem_cons_self
      have passed : (Fields.field name item absence rest).fill (own,others) key v =
          (rest.fill others key v).map (own,·) := if_neg other
      simp only [Members.ofList,gather,passed]
      cases rest.fill others key v with
      | error fault => rfl
      | ok next => exact ih next fun m present => apart m (List.mem_cons_of_mem _ present)

theorem gather_members (f : Fields α) (a : α) (keeps : f.Keeps a) :
    f.gather f.vacant (.ofList (f.members a)) = .ok (f.filled a) := by
  induction f with
  | done => rfl
  | field name item absence rest ih =>
      obtain ⟨a,b⟩ := a
      obtain ⟨fresh,own,others⟩ := keeps
      have later := ih b others
      have apart : ∀ m ∈ rest.members b, m.1 ≠ name := by
        intro m present same
        exact fresh (same ▸ members_named rest b m present)
      by_cases hidden : absence.hidden a
      · simp only [members,filled,if_pos hidden]
        exact (gather_others name item absence rest none rest.vacant _ apart).trans (by rw [later]; rfl)
      · rw [if_neg hidden] at own
        have taken : (Fields.field name item absence rest).fill (none,rest.vacant) name (item.write a) =
            .ok (some a,rest.vacant) := by
          change (if name = name then (item.read (item.write a)).map _ else _) = _
          rw [if_pos rfl,own.back]
          rfl
        simp only [members,filled,if_neg hidden,Members.ofList,gather,vacant,taken]
        exact (gather_others name item absence rest (some a) rest.vacant _ apart).trans (by rw [later]; rfl)

theorem close_filled (f : Fields α) (a : α) (keeps : f.Keeps a) : f.close (f.filled a) = .ok a := by
  induction f with
  | done => rfl
  | field name item absence rest ih =>
      obtain ⟨a,b⟩ := a
      obtain ⟨_,own,others⟩ := keeps
      have later := ih b others
      by_cases hidden : absence.hidden a
      · rw [if_pos hidden] at own
        simp only [filled,if_pos hidden,close,Option.none_or,own,later]
        rfl
      · simp only [filled,if_neg hidden,close,Option.some_or,later]
        rfl

theorem sound_members {members : List (String × Value)} (all : ∀ m ∈ members, m.2.Sound) :
    (Members.ofList members).Sound := by
  induction members with
  | nil => trivial
  | cons m rest ih =>
      exact ⟨rfl,all m List.mem_cons_self,ih fun m present => all m (List.mem_cons_of_mem _ present)⟩

theorem keeps_record {f : Fields α} {a : α} (keeps : f.Keeps a) : f.record.Keeps a where
  sound := sound_members (members_sound f a keeps)
  back := by
    change (do
      let slots ← f.gather f.vacant (.ofList (f.members a))
      f.close slots) = Except.ok a
    rw [gather_members f a keeps]
    exact close_filled f a keeps

end Fields

end Harbour.Document
