import Mathlib.Data.List.DropRight
import Harbour.Document.Reader
import Harbour.Proofs.Numeral
import Harbour.Proofs.Quoted

namespace Harbour.Document

def Gaps (cs : List Char) : Prop := ∀ c ∈ cs, isGap c = true

def Numeral.Spells (n : Numeral) (cs : List Char) : Prop :=
  ∀ rest, Text.Stops Numeral.extends? rest → Numeral.read (cs ++ rest) = some (n,rest)

def Quoted.Spells (content : Option String) (body : List Char) : Prop :=
  ∀ rest, Quoted.read (body ++ rest) = some (content,rest)

-- Blanks may stand anywhere between two signs. What belongs to a list or an
-- object runs up to its closing bracket.
mutual
def Value.Spells : Value → List Char → Prop
  | .null,cs => cs = nullText
  | .flag b,cs => cs = flagText b
  | .number n,cs => n.Spells cs
  | .text content,cs => ∃ body, cs = '"' :: body ∧ Quoted.Spells content body
  | .list items,cs => ∃ inner, cs = '[' :: inner ∧ items.Spells inner
  | .object members,cs => ∃ inner, cs = '\x7b' :: inner ∧ members.Spells inner
  | .broken,_ => False

def Items.Spells : Items → List Char → Prop
  | .done,cs => ∃ before, Gaps before ∧ cs = before ++ [']']
  | .broken,_ => False
  | .more v rest,cs => ∃ before text after tail, Gaps before ∧ v.Spells text ∧ Gaps after ∧
      cs = before ++ (text ++ (after ++ tail)) ∧
      match rest with
      | .done => tail = [']']
      | rest => ∃ later, tail = ',' :: later ∧ rest.Spells later

def Members.Spells : Members → List Char → Prop
  | .done,cs => ∃ before, Gaps before ∧ cs = before ++ ['\x7d']
  | .broken,_ => False
  | .more key v rest,cs => ∃ before body colon gap text after tail, Gaps before ∧ Quoted.Spells key body ∧
      Gaps colon ∧ Gaps gap ∧ v.Spells text ∧ Gaps after ∧
      cs = before ++ '"' :: (body ++ (colon ++ ':' :: (gap ++ (text ++ (after ++ tail))))) ∧
      match rest with
      | .done => tail = ['\x7d']
      | rest => ∃ later, tail = ',' :: later ∧ rest.Spells later
end

variable {n : Numeral} {v : Value} {before after tail inner text cs rest : List Char}

theorem skipGaps_run (gaps : Gaps before) (cs : List Char) : skipGaps (before ++ cs) = skipGaps cs :=
  List.dropWhile_append_of_pos gaps

theorem skipGaps_cons (solid : isGap c = false) (cs : List Char) : skipGaps (c :: cs) = c :: cs :=
  Text.dropWhile_stops ((Text.stops_cons isGap c cs).mpr solid)

theorem skipGaps_twice (cs : List Char) : skipGaps (skipGaps cs) = skipGaps cs :=
  List.dropWhile_idempotent _ _

theorem stops_gaps (gaps : Gaps after) (stops : Text.Stops Numeral.extends? tail) :
    Text.Stops Numeral.extends? (after ++ tail) := by
  cases after with
  | nil => exact stops
  | cons c more =>
      have gap := gaps c List.mem_cons_self
      simp only [isGap,decide_eq_true_eq] at gap
      rw [List.cons_append,Text.stops_cons]
      rcases gap with rfl | rfl | rfl | rfl <;> rfl

-- The first sign of a value is no blank and no closing bracket, so that a list
-- which has an item is never taken for an empty one.
theorem number_solid (starts : c = '-' ∨ c.isDigit = true) :
    isGap c = false ∧ c ≠ ']' ∧ c ≠ 'n' ∧ c ≠ 't' ∧ c ≠ 'f' ∧ c ≠ '"' ∧ c ≠ '[' ∧ c ≠ '\x7b' := by
  rcases starts with rfl | digit
  · decide
  · have apart : isGap c = false := by
      simp only [isGap,decide_eq_false_iff_not]
      rintro (rfl | rfl | rfl | rfl) <;> cases digit
    refine ⟨apart,?_,?_,?_,?_,?_,?_,?_⟩ <;> (rintro rfl; cases digit)

theorem Numeral.Spells.head (spelled : n.Spells text) :
    ∃ c more, text = c :: more ∧ (c = '-' ∨ c.isDigit = true) := by
  have found := spelled [] (Text.stops_nil _)
  rw [List.append_nil] at found
  exact Numeral.read_head found

theorem Value.Spells.head (spelled : v.Spells text) :
    ∃ c more, text = c :: more ∧ isGap c = false ∧ c ≠ ']' := by
  cases v with
  | null => exact ⟨_,_,spelled,by decide,by decide⟩
  | flag b => cases b <;> exact ⟨_,_,spelled,by decide,by decide⟩
  | number n =>
      obtain ⟨c,more,first,starts⟩ := Numeral.Spells.head spelled
      exact ⟨c,more,first,(number_solid starts).1,(number_solid starts).2.1⟩
  | text content =>
      obtain ⟨body,first,_⟩ := spelled
      exact ⟨_,_,first,by decide,by decide⟩
  | list items =>
      obtain ⟨inner,first,_⟩ := spelled
      exact ⟨_,_,first,by decide,by decide⟩
  | object members =>
      obtain ⟨inner,first,_⟩ := spelled
      exact ⟨_,_,first,by decide,by decide⟩
  | broken => exact spelled.elim

theorem Value.Spells.skip (spelled : v.Spells text) (rest : List Char) :
    skipGaps (text ++ rest) = text ++ rest := by
  obtain ⟨c,more,rfl,solid,_⟩ := spelled.head
  exact skipGaps_cons solid _

theorem readValue_number (starts : c = '-' ∨ c.isDigit = true) (fuel : Nat) (first : skipGaps cs = c :: more)
    (found : Numeral.read (c :: more) = some (n,rest)) : readValue (fuel + 1) cs = (.number n,some rest) := by
  obtain ⟨_,_,n',t',f',quote,bracket,brace⟩ := number_solid starts
  rw [readValue,first]
  split <;> simp_all

-- Blanks in front do not count, and so it does not matter which of two readers
-- passes over them.
def ReadsValues (fuel : Nat) : Prop := ∀ (v : Value) (text cs rest : List Char),
  v.Spells text → skipGaps cs = text ++ rest → Text.Stops Numeral.extends? rest → 2 * text.length + 1 ≤ fuel →
    readValue fuel cs = (v,some rest)

def ReadsItems (fuel : Nat) : Prop := ∀ (v : Value) (items : Items) (text cs rest : List Char),
  (Items.more v items).Spells text → skipGaps cs = skipGaps (text ++ rest) → 2 * text.length + 2 ≤ fuel →
    readItems fuel cs = (.more v items,some rest)

def ReadsMembers (fuel : Nat) : Prop := ∀ (key : Option String) (v : Value) (members : Members)
    (text cs rest : List Char),
  (Members.more key v members).Spells text → skipGaps cs = skipGaps (text ++ rest) → 2 * text.length + 2 ≤ fuel →
    readMembers fuel cs = (.more key v members,some rest)

theorem readValue_items (fuel : Nat) (first : skipGaps cs = '[' :: inner) (lead : skipGaps inner = c :: more)
    (held : c ≠ ']') (found : readItems fuel (c :: more) = (items,some rest)) :
    readValue (fuel + 1) cs = (.list items,some rest) := by
  rw [readValue,first]
  simp only [lead]
  split
  · rename_i same
    exact absurd (List.cons.inj same).1 held
  · rw [found]

theorem readValue_members (fuel : Nat) (first : skipGaps cs = '\x7b' :: inner)
    (lead : skipGaps inner = c :: more) (held : c ≠ '\x7d')
    (found : readMembers fuel (c :: more) = (members,some rest)) :
    readValue (fuel + 1) cs = (.object members,some rest) := by
  rw [readValue,first]
  simp only [lead]
  split
  · rename_i same
    exact absurd (List.cons.inj same).1 held
  · rw [found]

theorem skipGaps_closed (gaps : Gaps before) (solid : isGap c = false) (rest : List Char) :
    skipGaps (before ++ [c] ++ rest) = c :: rest := by
  rw [List.append_assoc,skipGaps_run gaps]
  exact skipGaps_cons solid rest

theorem reads_list (later : ReadsItems fuel) (items : Items) (spelled : items.Spells inner)
    (first : skipGaps cs = '[' :: (inner ++ rest)) (enough : 2 * inner.length + 2 ≤ fuel) :
    readValue (fuel + 1) cs = (.list items,some rest) := by
  cases items with
  | done =>
      obtain ⟨before,gaps,rfl⟩ := spelled
      rw [readValue,first]
      simp only [skipGaps_closed gaps (show isGap ']' = false by decide)]
  | broken => exact spelled.elim
  | more v items =>
      have found := later v items inner (skipGaps (inner ++ rest)) rest spelled (skipGaps_twice _) enough
      rw [Items.Spells] at spelled
      obtain ⟨before,text,after,tail,gaps,valued,_,whole,_⟩ := spelled
      obtain ⟨c,more,lead,solid,held⟩ := valued.head
      have shown : skipGaps (inner ++ rest) = c :: (more ++ (after ++ tail) ++ rest) := by
        rw [whole,lead,List.append_assoc,skipGaps_run gaps]
        exact skipGaps_cons solid _
      rw [shown] at found
      exact readValue_items fuel first shown held found

theorem reads_object (later : ReadsMembers fuel) (members : Members) (spelled : members.Spells inner)
    (first : skipGaps cs = '\x7b' :: (inner ++ rest)) (enough : 2 * inner.length + 2 ≤ fuel) :
    readValue (fuel + 1) cs = (.object members,some rest) := by
  cases members with
  | done =>
      obtain ⟨before,gaps,rfl⟩ := spelled
      rw [readValue,first]
      simp only [skipGaps_closed gaps (show isGap '\x7d' = false by decide)]
  | broken => exact spelled.elim
  | more key v members =>
      have found := later key v members inner (skipGaps (inner ++ rest)) rest spelled (skipGaps_twice _) enough
      rw [Members.Spells] at spelled
      obtain ⟨before,body,colon,gap,text,after,tail,gaps,_,_,_,_,_,whole,_⟩ := spelled
      have shown : skipGaps (inner ++ rest) =
          '"' :: (body ++ (colon ++ ':' :: (gap ++ (text ++ (after ++ tail)))) ++ rest) := by
        rw [whole,List.append_assoc,skipGaps_run gaps]
        exact skipGaps_cons (by decide) _
      rw [shown] at found
      exact readValue_members fuel first shown (by decide) found

theorem reads_values (items : ReadsItems fuel) (members : ReadsMembers fuel) : ReadsValues (fuel + 1) := by
  intro v text cs rest spelled first stops enough
  cases v with
  | null => rw [readValue,first,spelled]; rfl
  | flag b => cases b <;> rw [readValue,first,spelled] <;> rfl
  | number n =>
      obtain ⟨c,more,rfl,starts⟩ := Numeral.Spells.head spelled
      exact readValue_number starts fuel first (spelled rest stops)
  | text content =>
      obtain ⟨body,rfl,quoted⟩ := spelled
      rw [readValue,first]
      simp only [List.cons_append,quoted rest]
  | list inside =>
      obtain ⟨inner,rfl,spelled⟩ := spelled
      rw [List.length_cons] at enough
      exact reads_list items inside spelled first (by omega)
  | object inside =>
      obtain ⟨inner,rfl,spelled⟩ := spelled
      rw [List.length_cons] at enough
      exact reads_object members inside spelled first (by omega)
  | broken => exact spelled.elim

theorem reads_items (values : ReadsValues fuel) (later : ReadsItems fuel) : ReadsItems (fuel + 1) := by
  intro v items inner cs rest spelled first enough
  rw [Items.Spells] at spelled
  obtain ⟨before,text,after,tail,lead,valued,gaps,rfl,ends⟩ := spelled
  simp only [List.length_append] at enough
  have shown : skipGaps cs = text ++ (after ++ (tail ++ rest)) := by
    rw [first]
    simp only [List.append_assoc]
    rw [skipGaps_run lead,valued.skip]
  cases items with
  | done =>
      subst ends
      have stops : Text.Stops Numeral.extends? (after ++ ([']'] ++ rest)) :=
        stops_gaps gaps ((Text.stops_cons _ _ _).mpr rfl)
      rw [readItems,values v text cs _ valued shown stops (by omega)]
      simp only [skipGaps_run gaps]
      rfl
  | broken =>
      obtain ⟨_,_,none⟩ := ends
      exact none.elim
  | more w items =>
      obtain ⟨more,rfl,spelled⟩ := ends
      rw [List.length_cons] at enough
      have stops : Text.Stops Numeral.extends? (after ++ (',' :: more ++ rest)) :=
        stops_gaps gaps ((Text.stops_cons _ _ _).mpr rfl)
      rw [readItems,values v text cs _ valued shown stops (by omega)]
      simp only [skipGaps_run gaps,List.cons_append,skipGaps_cons (show isGap ',' = false by decide)]
      rw [later w items more (more ++ rest) rest spelled rfl (by omega)]

theorem reads_members (values : ReadsValues fuel) (later : ReadsMembers fuel) : ReadsMembers (fuel + 1) := by
  intro key v members inner cs rest spelled first enough
  rw [Members.Spells] at spelled
  obtain ⟨before,body,colon,gap,text,after,tail,lead,quoted,gapsColon,gapsValue,valued,gaps,rfl,ends⟩ := spelled
  simp only [List.length_append,List.length_cons] at enough
  have shown : skipGaps cs = '"' :: (body ++ (colon ++ ':' :: (gap ++ (text ++ (after ++ (tail ++ rest)))))) := by
    rw [first]
    simp only [List.append_assoc,List.cons_append]
    rw [skipGaps_run lead]
    exact skipGaps_cons (by decide) _
  have behind : skipGaps (gap ++ (text ++ (after ++ (tail ++ rest)))) = text ++ (after ++ (tail ++ rest)) := by
    rw [skipGaps_run gapsValue,valued.skip]
  cases members with
  | done =>
      subst ends
      have stops : Text.Stops Numeral.extends? (after ++ (['\x7d'] ++ rest)) :=
        stops_gaps gaps ((Text.stops_cons _ _ _).mpr rfl)
      rw [readMembers,shown]
      simp only [quoted _,skipGaps_run gapsColon,skipGaps_cons (show isGap ':' = false by decide)]
      rw [values v text _ _ valued behind stops (by omega)]
      simp only [skipGaps_run gaps]
      rfl
  | broken =>
      obtain ⟨_,_,none⟩ := ends
      exact none.elim
  | more next w members =>
      obtain ⟨more,rfl,spelled⟩ := ends
      rw [List.length_cons] at enough
      have stops : Text.Stops Numeral.extends? (after ++ (',' :: more ++ rest)) :=
        stops_gaps gaps ((Text.stops_cons _ _ _).mpr rfl)
      rw [readMembers,shown]
      simp only [quoted _,skipGaps_run gapsColon,skipGaps_cons (show isGap ':' = false by decide)]
      rw [values v text _ _ valued behind stops (by omega)]
      simp only [skipGaps_run gaps,List.cons_append,skipGaps_cons (show isGap ',' = false by decide)]
      rw [later next w members more (more ++ rest) rest spelled rfl (by omega)]

theorem readers (fuel : Nat) : ReadsValues fuel ∧ ReadsItems fuel ∧ ReadsMembers fuel := by
  induction fuel with
  | zero =>
      refine ⟨?_,?_,?_⟩
      · intro v text cs rest _ _ _ enough; omega
      · intro v items text cs rest _ _ enough; omega
      · intro key v members text cs rest _ _ enough; omega
  | succ fuel ih =>
      obtain ⟨values,items,members⟩ := ih
      exact ⟨reads_values items members,reads_items values items,reads_members values members⟩

theorem read_spelled (spelled : v.Spells text) : read (String.ofList text) = (v,true) := by
  have skipped := spelled.skip []
  rw [List.append_nil] at skipped
  have found := (readers (2 * text.length + 2)).1 v text text [] spelled (by rw [skipped,List.append_nil])
    (Text.stops_nil _) (by omega)
  simp only [read,String.toList_ofList,found]
  rfl

end Harbour.Document
