import Harbour.Proofs.Spelling

namespace Harbour.Document

structure Layout.Blank (layout : Layout) : Prop where
  line : ∀ depth, Gaps (layout.line depth)
  gap : Gaps layout.gap

theorem compact_blank : Layout.compact.Blank where
  line _ := by simp [Layout.compact,Gaps]
  gap := by simp [Layout.compact,Gaps]

theorem pretty_blank : Layout.pretty.Blank where
  line depth := by
    intro c present
    rcases List.mem_cons.mp present with rfl | indent
    · rfl
    · rw [(List.mem_replicate.mp indent).2]; rfl
  gap := by
    intro c present
    rw [List.mem_singleton.mp present]; rfl

-- A value that can be written out: nothing in it is cut short, every text has
-- its content, and the digits of a fraction are digits.
mutual
def Value.Sound : Value → Prop
  | .number n => n.Sound
  | .text content => content.isSome = true
  | .list items => items.Sound
  | .object members => members.Sound
  | .broken => False
  | _ => True

def Items.Sound : Items → Prop
  | .done => True
  | .broken => False
  | .more v rest => v.Sound ∧ rest.Sound

def Members.Sound : Members → Prop
  | .done => True
  | .broken => False
  | .more key v rest => key.isSome = true ∧ v.Sound ∧ rest.Sound
end

variable {layout : Layout}

theorem quoted_spells (content : Option String) (present : content.isSome = true) :
    Quoted.Spells content ((content.getD "").toList.flatMap Quoted.escape ++ ['"']) := by
  obtain ⟨s,rfl⟩ := Option.isSome_iff_exists.mp present
  intro rest
  rw [List.append_assoc,List.singleton_append,Option.getD_some,Quoted.read_write,String.ofList_toList]

mutual
theorem Value.write_spells (blank : layout.Blank) (depth : Nat) (v : Value) (sound : v.Sound) :
    v.Spells (v.write layout depth) := by
  cases v with
  | null => rfl
  | flag b => rfl
  | number n =>
      intro rest stops
      exact Numeral.read_text sound stops
  | text content => exact ⟨_,rfl,quoted_spells content sound⟩
  | list items =>
      cases items with
      | done => exact ⟨[']'],rfl,[],by simp [Gaps],rfl⟩
      | broken => exact sound.elim
      | more w rest =>
          refine ⟨_,?_,Items.write_spells blank depth (.more w rest) sound nofun⟩
          simp [Value.write]
  | object members =>
      cases members with
      | done => exact ⟨['\x7d'],rfl,[],by simp [Gaps],rfl⟩
      | broken => exact sound.elim
      | more key w rest =>
          refine ⟨_,?_,Members.write_spells blank depth (.more key w rest) sound nofun⟩
          simp [Value.write]
  | broken => exact sound.elim

theorem Items.write_spells (blank : layout.Blank) (depth : Nat) (items : Items) (sound : items.Sound)
    (held : items ≠ .done) :
    items.Spells (items.write layout (depth + 1) ++ (layout.line depth ++ [']'])) := by
  cases items with
  | done => exact absurd rfl held
  | broken => exact sound.elim
  | more v rest =>
      have valued := Value.write_spells blank (depth + 1) v sound.1
      rw [Items.Spells]
      cases rest with
      | done =>
          refine ⟨_,_,layout.line depth,[']'],blank.line (depth + 1),valued,blank.line depth,?_,rfl⟩
          simp [Items.write]
      | broken => exact sound.2.elim
      | more w more =>
          have later := Items.write_spells blank depth (.more w more) sound.2 nofun
          refine ⟨_,_,[],_,blank.line (depth + 1),valued,by simp [Gaps],?_,_,rfl,later⟩
          simp [Items.write]

theorem Members.write_spells (blank : layout.Blank) (depth : Nat) (members : Members) (sound : members.Sound)
    (held : members ≠ .done) :
    members.Spells (members.write layout (depth + 1) ++ (layout.line depth ++ ['\x7d'])) := by
  cases members with
  | done => exact absurd rfl held
  | broken => exact sound.elim
  | more key v rest =>
      have quoted := quoted_spells key sound.1
      have valued := Value.write_spells blank (depth + 1) v sound.2.1
      rw [Members.Spells]
      cases rest with
      | done =>
          refine ⟨_,_,[],layout.gap,_,layout.line depth,['\x7d'],blank.line (depth + 1),quoted,by simp [Gaps],
            blank.gap,valued,blank.line depth,?_,rfl⟩
          simp [Members.write,Quoted.write]
      | broken => exact sound.2.2.elim
      | more next w more =>
          have later := Members.write_spells blank depth (.more next w more) sound.2.2 nofun
          refine ⟨_,_,[],layout.gap,_,[],_,blank.line (depth + 1),quoted,by simp [Gaps],blank.gap,valued,
            by simp [Gaps],?_,_,rfl,later⟩
          simp [Members.write,Quoted.write]
end

theorem read_write (blank : layout.Blank) (sound : v.Sound) :
    read (String.ofList (v.write layout 0)) = (v,true) := read_spelled (v.write_spells blank 0 sound)

end Harbour.Document
