import Harbour.Proofs.Codecs
import Harbour.Proofs.Grammar

namespace Harbour.Document

inductive Laid : List (String × List Char) → List Char → Prop where
  | last (named : Quoted.Literal key name) (paired : Paired name text cs) : Laid [(key,text)] (cs ++ ['\x7d'])
  | more (named : Quoted.Literal key name) (paired : Paired name text cs) (rest : Laid texts later) :
      Laid ((key,text) :: texts) (cs ++ ',' :: later)

def Object (texts : List (String × List Char)) (payload : String) : Prop :=
  ∃ before body after, Gaps before ∧ Gaps after ∧ Laid texts body ∧
    payload.toList = before ++ ('\x7b' :: body ++ after)

theorem read_padded {payload : String} (spelled : v.Spells text) (lead : Gaps before) (trail : Gaps after)
    (whole : payload.toList = before ++ (text ++ after)) : read payload = (v,true) := by
  have shown : skipGaps payload.toList = text ++ after := by rw [whole,skipGaps_run lead,spelled.skip]
  have stops : Text.Stops Numeral.extends? after := by
    have ends := stops_gaps trail (Text.stops_nil _)
    rwa [List.append_nil] at ends
  have enough : 2 * text.length + 1 ≤ 2 * payload.toList.length + 2 := by
    rw [whole,List.length_append,List.length_append]
    omega
  have found := (readers (2 * payload.toList.length + 2)).1 v text _ after spelled shown stops enough
  have blank := skipGaps_run trail []
  rw [List.append_nil] at blank
  simp only [read,found,blank]
  rfl

theorem Value.spells_string (literal : Quoted.Literal s body) : (string s).Spells ('"' :: body) :=
  ⟨body,rfl,literal.spells⟩

def Valued (members : List (String × Value)) (texts : List (String × List Char)) : Prop :=
  List.Forall₂ (fun m t => m.1 = t.1 ∧ m.2.Spells t.2) members texts

theorem Laid.spells (laid : Laid texts body) (valued : Valued members texts) :
    (Members.ofList members).Spells body := by
  induction laid generalizing members with
  | last named paired =>
      cases valued with
      | cons first rest =>
          cases rest
          obtain ⟨rfl,spelled⟩ := first
          exact Members.spells_last named.spells spelled paired
  | more named paired laid ih =>
      cases valued with
      | cons first rest =>
          obtain ⟨rfl,spelled⟩ := first
          refine Members.spells_more named.spells spelled paired (ih rest) ?_
          cases laid <;> cases rest <;> exact nofun

theorem Valued.keys (valued : Valued members texts) : members.map Prod.fst = texts.map Prod.fst := by
  induction valued with
  | nil => rfl
  | cons first _ ih => rw [List.map_cons,List.map_cons,first.1,ih]

theorem valued_each {P : String → Value → Prop} {texts : List (String × List Char)}
    (each : ∀ t ∈ texts, ∃ v : Value, v.Spells t.2 ∧ P t.1 v) :
    ∃ members, Valued members texts ∧ ∀ m ∈ members, P m.1 m.2 := by
  induction texts with
  | nil => exact ⟨[],.nil,nofun⟩
  | cons t rest ih =>
      obtain ⟨v,spelled,held⟩ := each t List.mem_cons_self
      obtain ⟨members,valued,all⟩ := ih fun u present => each u (List.mem_cons_of_mem _ present)
      exact ⟨(t.1,v) :: members,.cons ⟨rfl,spelled⟩ valued,List.forall_mem_cons.mpr ⟨held,all⟩⟩

namespace Fields

-- What a member may be while a record is read as this one: its value where it
-- has the name of a field, and any whole value under another name.
def Fits : {α : Type} → Fields α → α → String → Value → Prop
  | _,.done,_,_,v => v.intact = true
  | _,.field name item _ rest,(a,b),key,v => if key = name then item.read v = .ok a else rest.Fits b key v

-- Each field is named once, or not at all where its absence stands for its
-- value. Other names may stand among these as they like.
def Covered : {α : Type} → Fields α → α → List String → Prop
  | _,.done,_,_ => True
  | _,.field name _ absence rest,(a,b),keys =>
      (keys.count name = 1 ∨ keys.count name = 0 ∧ absence.unnamed = some a) ∧ rest.Covered b keys

def holding : {α : Type} → (f : Fields α) → α → List String → f.Slots
  | _,.done,_,_ => ()
  | _,.field (α := α) name _ _ rest,(a,b),keys =>
      ((if name ∈ keys then some a else none : Option α),rest.holding b keys)

variable {α : Type}

theorem fits_own {β : Type} {item : Codec α} {absence : Absence α} {rest : Fields β} {a : α} {b : β}
    (read : item.read v = .ok a) : (Fields.field name item absence rest).Fits (a,b) name v := by
  rwa [Fits,if_pos rfl]

theorem fits_later {β : Type} {item : Codec α} {absence : Absence α} {rest : Fields β} {a : α} {b : β}
    (apart : key ≠ name) (fits : rest.Fits b key v) : (Fields.field name item absence rest).Fits (a,b) key v := by
  rwa [Fits,if_neg apart]

theorem fits_other (f : Fields α) (a : α) (other : key ∉ f.names) (intact : v.intact = true) : f.Fits a key v := by
  induction f with
  | done => exact intact
  | field name item absence rest ih =>
      obtain ⟨a,b⟩ := a
      rw [names,List.mem_cons,not_or] at other
      exact fits_later other.1 (ih b other.2)

theorem holding_nil (f : Fields α) (a : α) : f.holding a [] = f.vacant := by
  induction f with
  | done => rfl
  | field name item absence rest ih =>
      obtain ⟨a,b⟩ := a
      rw [holding,vacant,ih b,if_neg List.not_mem_nil]

theorem holding_other (f : Fields α) (a : α) (keys : List String) (other : key ∉ f.names) :
    f.holding a (keys ++ [key]) = f.holding a keys := by
  induction f with
  | done => rfl
  | field name item absence rest ih =>
      obtain ⟨a,b⟩ := a
      rw [names,List.mem_cons,not_or] at other
      obtain ⟨apart,others⟩ := other
      have same : name ∈ keys ++ [key] ↔ name ∈ keys := by simp [Ne.symm apart]
      simp only [holding,ih b others]
      exact congrArg (·,rest.holding b keys) (if_congr same rfl rfl)

theorem fill_holding (f : Fields α) (a : α) {keys : List String} (distinct : f.names.Nodup) (fits : f.Fits a key v)
    (fresh : key ∈ f.names → key ∉ keys) :
    f.fill (f.holding a keys) key v = .ok (f.holding a (keys ++ [key])) := by
  induction f with
  | done =>
      have intact : v.intact = true := fits
      simp only [fill,Value.skip,intact,if_true]
      rfl
  | field name item absence rest ih =>
      obtain ⟨a,b⟩ := a
      obtain ⟨once,distinct⟩ := List.nodup_cons.mp distinct
      by_cases own : key = name
      · subst own
        have read : item.read v = .ok a := by rwa [Fits,if_pos rfl] at fits
        have empty := fresh List.mem_cons_self
        have found : key ∈ keys ++ [key] := List.mem_append_right _ List.mem_cons_self
        simp only [fill,holding,if_pos,if_neg empty,if_pos found,read,rest.holding_other b keys once]
        rfl
      · rw [Fits,if_neg own] at fits
        have later := ih b distinct fits fun named => fresh (List.mem_cons_of_mem _ named)
        have same : name ∈ keys ++ [key] ↔ name ∈ keys := by simp [Ne.symm own]
        simp only [fill,holding,if_neg own,later]
        exact congrArg (fun found => Except.ok (found,rest.holding b (keys ++ [key]))) (if_congr same.symm rfl rfl)

theorem gather_holding (f : Fields α) (a : α) (distinct : f.names.Nodup) {members : List (String × Value)}
    {keys : List String} (fits : ∀ m ∈ members, f.Fits a m.1 m.2)
    (once : ∀ name ∈ f.names, (keys ++ members.map Prod.fst).count name ≤ 1) :
    f.gather (f.holding a keys) (.ofList members) = .ok (f.holding a (keys ++ members.map Prod.fst)) := by
  induction members generalizing keys with
  | nil => rw [List.map_nil,List.append_nil]; rfl
  | cons m rest ih =>
      obtain ⟨key,v⟩ := m
      obtain ⟨first,later⟩ := List.forall_mem_cons.mp fits
      rw [List.map_cons,List.append_cons] at once ⊢
      have fresh : key ∈ f.names → key ∉ keys := by
        intro named before
        have one := once key named
        rw [List.count_append,List.count_append,List.count_cons_self] at one
        have some_before := List.count_pos_iff.mpr before
        omega
      simp only [Members.ofList,gather,f.fill_holding a distinct first fresh]
      exact ih later once

theorem close_holding (f : Fields α) (a : α) {keys : List String} (covered : f.Covered a keys) :
    f.close (f.holding a keys) = .ok a := by
  induction f with
  | done => rfl
  | field name item absence rest ih =>
      obtain ⟨a,b⟩ := a
      obtain ⟨named,covered⟩ := covered
      have own : (if name ∈ keys then some a else none).or absence.unnamed = some a := by
        rcases named with one | ⟨none,absent⟩
        · rw [if_pos (List.count_pos_iff.mp (by omega)),Option.some_or]
        · rw [if_neg (List.count_eq_zero.mp none),Option.none_or,absent]
      simp only [holding,close,own,ih b covered]
      rfl

theorem covered_once (f : Fields α) (a : α) {keys : List String} (covered : f.Covered a keys) :
    ∀ name ∈ f.names, keys.count name ≤ 1 := by
  induction f with
  | done => intro name present; cases present
  | field name item absence rest ih =>
      obtain ⟨a,b⟩ := a
      obtain ⟨named,covered⟩ := covered
      refine List.forall_mem_cons.mpr ⟨?_,ih b covered⟩
      rcases named with one | ⟨none,_⟩ <;> omega

theorem read_object {f : Fields α} {a : α} {members : List (String × Value)} (distinct : f.names.Nodup)
    (fits : ∀ m ∈ members, f.Fits a m.1 m.2) (covered : f.Covered a (members.map Prod.fst)) :
    f.record.read (.object (.ofList members)) = .ok a := by
  have gathered : f.gather (f.holding a []) (.ofList members) = .ok (f.holding a ([] ++ members.map Prod.fst)) :=
    f.gather_holding a distinct fits (f.covered_once a covered)
  change (do
    let slots ← f.gather f.vacant (.ofList members)
    f.close slots) = Except.ok a
  rw [← f.holding_nil a,gathered]
  exact f.close_holding a covered

theorem decode_object {f : Fields α} {a : α} {texts : List (String × List Char)} {payload : String}
    (object : Object texts payload) (distinct : f.names.Nodup)
    (fits : ∀ name text, (name,text) ∈ texts → ∃ v : Value, v.Spells text ∧ f.Fits a name v)
    (covered : f.Covered a (texts.map Prod.fst)) :
    f.record.decode payload = .ok a := by
  obtain ⟨before,body,after,lead,trail,laid,whole⟩ := object
  obtain ⟨members,valued,fits⟩ := valued_each fun t => fits t.1 t.2
  rw [← valued.keys] at covered
  have spelled : (Value.object (.ofList members)).Spells ('\x7b' :: body) := ⟨body,rfl,laid.spells valued⟩
  simp only [Codec.decode,read_padded spelled lead trail whole,read_object distinct fits covered]
  rfl

end Fields

theorem Codec.decode_map {α β : Type} {c : Codec α} {into : α → β} {back : β → α} {payload : String} {a : α}
    (decoded : c.decode payload = .ok a) : (c.map into back).decode payload = .ok (into a) := by
  simp only [decode,map] at decoded ⊢
  cases read : c.read (Document.read payload).1 with
  | error fault => rw [read] at decoded; cases decoded
  | ok b =>
      rw [read] at decoded
      cases ended : (Document.read payload).2 with
      | false => rw [ended] at decoded; cases decoded
      | true => rw [ended] at decoded; cases decoded; rfl

end Harbour.Document
