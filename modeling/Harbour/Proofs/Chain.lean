import Mathlib.Data.List.Induction
import Harbour.Log

namespace Harbour

theorem bind_ok {ε α β : Type} {x : Except ε α} {f : α → Except ε β} {b : β} :
    (x >>= f) = .ok b ↔ ∃ a, x = .ok a ∧ f a = .ok b := by
  cases x with
  | error why => simp [bind,Except.bind]
  | ok a => simp [bind,Except.bind]

namespace Log

theorem stage_entry {log : Log} {e : Entry} {event : Event} (staged : log.stage e = .ok event) :
    event.entry = e := by
  unfold stage at staged
  obtain ⟨id,_,same⟩ := bind_ok.mp staged
  cases same; rfl

theorem nextId_refusal {log : Log} {refusal : Refusal} (refused : log.nextId = .error refusal) :
    refusal = .exhausted log.limit := by
  unfold nextId at refused
  split at refused
  · cases refused; rfl
  · split at refused
    · cases refused
    · split at refused
      · cases refused
      · cases refused; rfl

theorem stage_refusal {log : Log} {e : Entry} {refusal : Refusal} (staged : log.stage e = .error refusal) :
    refusal = .exhausted log.limit := by
  unfold stage at staged
  cases numbered : log.nextId with
  | ok id => rw [numbered] at staged; cases staged
  | error why =>
      rw [numbered] at staged
      cases staged
      exact nextId_refusal numbered

def link (events : List Event) (e : Entry) : Event :=
  ⟨idAt events.length,e,digest (headOf events) (idAt events.length) e⟩

-- Built from the entries alone; nothing here asks how a registry came by them.
def chain (entries : List Entry) : List Event :=
  entries.foldl (fun events e => events ++ [link events e]) []

@[simp] theorem chain_nil : chain [] = [] := rfl

theorem chain_snoc (entries : List Entry) (e : Entry) :
    chain (entries ++ [e]) = chain entries ++ [link (chain entries) e] := by
  simp only [chain,List.foldl_append,List.foldl_cons,List.foldl_nil]

@[simp] theorem chain_length (entries : List Entry) : (chain entries).length = entries.length := by
  induction entries using List.reverseRecOn with
  | nil => rfl
  | append_singleton earlier e ih => simp [chain_snoc,ih]

theorem chain_faces (entries : List Entry) :
    (chain entries).map (fun e => (e.id,e.entry)) =
      entries.zipIdx.map fun (e,position) => (idAt position,e) := by
  induction entries using List.reverseRecOn with
  | nil => rfl
  | append_singleton earlier e ih =>
      simp [chain_snoc,ih,link,List.zipIdx_append]

theorem chain_ids (entries : List Entry) :
    (chain entries).map Event.id = (List.range entries.length).map idAt := by
  have faces := congrArg (List.map Prod.fst) (chain_faces entries)
  rw [List.map_map,List.map_map] at faces
  rw [List.range_eq_range',← List.zipIdx_map_snd 0 entries,List.map_map]
  exact faces

@[simp] theorem headOf_nil : headOf [] = genesis := rfl

@[simp] theorem headOf_snoc (events : List Event) (e : Event) : headOf (events ++ [e]) = e.digest := by
  simp [headOf]

theorem idAt_value {position : Nat} (small : position + 1 < 0x10000000000000000) :
    (idAt position).value.toNat = position + 1 := by
  simp only [idAt,UInt64.toNat_ofNat']
  exact Nat.mod_eq_of_lt small

theorem get?_idAt (log : Log) {position : Nat} (small : position + 1 < 0x10000000000000000) :
    log.get? (idAt position) = log.events[position]? := by
  have value := idAt_value small
  have positive : (idAt position).value ≠ 0 := by
    intro zero
    rw [zero] at value
    cases value
  rw [get?,if_neg positive,value,Nat.add_sub_cancel]

theorem chain_id_at {entries : List Entry} {position : Nat} {e : Event}
    (present : (chain entries)[position]? = some e) : e.id = idAt position := by
  have numbers := congrArg (·[position]?) (chain_ids entries)
  have inside := (List.getElem?_eq_some_iff.mp present).1
  rw [chain_length] at inside
  simp only [List.getElem?_map,present,List.getElem?_range inside] at numbers
  exact Option.some.inj numbers

theorem get?_chain (limit : UInt64) {entries : List Entry} (short : entries.length < 0x10000000000000000)
    {e : Event} (present : e ∈ chain entries) : (Log.mk limit (chain entries)).get? e.id = some e := by
  obtain ⟨position,atPosition⟩ := List.mem_iff_getElem?.mp present
  have inside := (List.getElem?_eq_some_iff.mp atPosition).1
  rw [chain_length] at inside
  rw [chain_id_at atPosition,get?_idAt _ (by omega)]
  exact atPosition

theorem chain_ascends {entries : List Entry} (short : entries.length < 0x10000000000000000) :
    ((chain entries).map Event.id).Pairwise fun a b => a.value < b.value := by
  rw [chain_ids,List.pairwise_map]
  refine List.pairwise_lt_range.imp_of_mem ?_
  intro a b first second before
  have inside := List.mem_range.mp second
  apply UInt64.lt_iff_toNat_lt.mpr
  rw [idAt_value (by omega),idAt_value (by omega)]
  omega

theorem idAt_next {position : Nat} (room : position + 2 < 0x10000000000000000) :
    (idAt position).next? = some (idAt (position + 1)) := by
  have value := idAt_value (show position + 1 < 0x10000000000000000 by omega)
  rw [EventId.next?,if_pos (by omega)]
  have same : (idAt position).value + 1 = (idAt (position + 1)).value := by
    apply UInt64.toNat_inj.mp
    rw [UInt64.toNat_add,value,idAt_value (by omega)]
    exact Nat.mod_eq_of_lt (by simpa using room)
  rw [same]

-- The last identifier is the limit itself: the store of identifiers never runs
-- dry before that.
theorem nextId_chain (limit : UInt64) (entries : List Entry) :
    (Log.mk limit (chain entries)).nextId =
      if limit.toNat ≤ entries.length then .error (.exhausted limit) else .ok (idAt entries.length) := by
  unfold nextId
  simp only [count,chain_length]
  by_cases full : limit.toNat ≤ entries.length
  · simp [full]
  · have bound := limit.toNat_lt
    rw [if_neg full,if_neg full]
    cases entries using List.reverseRecOn with
    | nil => rfl
    | append_singleton earlier e =>
        rw [chain_snoc,List.getLast?_append,List.getLast?_singleton]
        have room : earlier.length + 2 < 0x10000000000000000 := by
          rw [List.length_append,List.length_singleton] at full
          omega
        simp [link,idAt_next room]

theorem stage_chain (limit : UInt64) (entries : List Entry) (e : Entry) :
    (Log.mk limit (chain entries)).stage e =
      if limit.toNat ≤ entries.length then .error (.exhausted limit) else .ok (link (chain entries) e) := by
  unfold stage
  rw [nextId_chain]
  by_cases full : limit.toNat ≤ entries.length
  · rw [if_pos full,if_pos full]; rfl
  · rw [if_neg full,if_neg full]
    simp only [link,chain_length]
    rfl

end Log

end Harbour
