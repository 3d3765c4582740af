import Harbour.Proofs.Ledger

namespace Harbour

inductive Query where
  | record (id : VoyageId)
  | known (id : VoyageId)
  | recordCount
  | eventCount
  | event (id : EventId)
  | shipEvents (callReference : String)
  | portEvents (portCode : String)

-- An event is answered without its digest, which is a matter of the chain.
inductive Answer where
  | reply (reply : Reply)
  | record (found : Except Refusal Record)
  | known (yes : Bool)
  | count (number : Nat)
  | event (found : Option (EventId × Entry))
  | events (ids : List EventId)

inductive Request where
  | act (s : Step)
  | read (query : Query)

def Registry.answer (r : Registry) : Query → Answer
  | .record id => .record (r.get id)
  | .known id => .known (r.holds id)
  | .recordCount => .count r.recordCount
  | .eventCount => .count r.eventCount
  | .event id => .event ((r.event? id).map fun e => (e.id,e.entry))
  | .shipEvents callReference => .events (r.shipEvents callReference)
  | .portEvents portCode => .events (r.portEvents portCode)

def Registry.serve (r : Registry) : List Request → List Answer × Registry
  | [] => ([],r)
  | .act s :: rest => (.reply (r.step s).1 :: ((r.step s).2.serve rest).1,((r.step s).2.serve rest).2)
  | .read query :: rest => (r.answer query :: (r.serve rest).1,(r.serve rest).2)

def History.under (h : History) (keyOf : Details → String) (key : String) : List EventId :=
  (h.zipIdx.filter fun (w,_) => keyOf w.details = key).map fun (_,position) => Log.idAt position

def Ledger.answer (l : Ledger) : Query → Answer
  | .record id => .record (l.writes.fetch id)
  | .known id => .known (id ∈ l.writes.ids)
  | .recordCount => .count l.writes.ids.dedup.length
  | .eventCount => .count l.writes.length
  | .event id => .event <|
      if inside : 1 ≤ id.value.toNat ∧ id.value.toNat ≤ l.writes.length then
        some (id,History.entry (l.writes.take (id.value.toNat - 1)) l.writes[id.value.toNat - 1])
      else none
  | .shipEvents callReference => .events (l.writes.under Details.callReference callReference)
  | .portEvents portCode => .events (l.writes.under Details.portCode portCode)

def Ledger.serve (l : Ledger) : List Request → List Answer × Ledger
  | [] => ([],l)
  | .act s :: rest => (.reply (l.step s).1 :: ((l.step s).2.serve rest).1,((l.step s).2.serve rest).2)
  | .read query :: rest => (l.answer query :: (l.serve rest).1,(l.serve rest).2)

namespace History

theorem events_faces (h : History) :
    h.events.map (fun e => (e.id,e.entry)) =
      h.zipIdx.map fun (w,position) => (Log.idAt position,entry (h.take position) w) := by
  rw [events,Log.chain_faces]
  apply List.ext_getElem?
  intro position
  simp only [entries,List.getElem?_map,List.getElem?_zipIdx]
  cases h[position]? <;> simp

theorem lookup_ofEvents (keyOf : Entry → String) (events : List Event) (key : String) :
    (Index.ofEvents keyOf events).lookup key = (events.filter fun e => keyOf e.entry = key).map Event.id := by
  induction events using List.reverseRecOn with
  | nil => rfl
  | append_singleton earlier e ih =>
      rw [Index.ofEvents_snoc,Index.lookup_append,List.filter_append,List.map_append]
      by_cases same : key = keyOf e.entry
      · subst same; simp [ih]
      · have other : ¬ keyOf e.entry = key := fun equal => same equal.symm
        simp [same,other,ih]

theorem lookup_under (h : History) (keyOf : Entry → String) (detailOf : Details → String) (key : String)
    (follows : ∀ (earlier : History) (w : Record), keyOf (earlier.entry w) = detailOf w.details) :
    (Index.ofEvents keyOf h.events).lookup key = h.under detailOf key := by
  have faces : (h.events.filter fun e => keyOf e.entry = key).map Event.id =
      ((h.events.map fun e => (e.id,e.entry)).filter fun f => keyOf f.2 = key).map Prod.fst := by
    rw [List.filter_map,List.map_map]
    rfl
  rw [lookup_ofEvents,faces,events_faces,List.filter_map,List.map_map,under]
  congr 1
  apply List.filter_congr
  intro p _
  simp [follows]

theorem event_get (limit : UInt64) (h : History) (id : EventId) :
    ((Log.mk limit h.events).get? id).map (fun e => (e.id,e.entry)) =
      if inside : 1 ≤ id.value.toNat ∧ id.value.toNat ≤ h.length then
        some (id,entry (h.take (id.value.toNat - 1)) h[id.value.toNat - 1])
      else none := by
  have face : ∀ position : Nat, (h.events[position]?).map (fun e => (e.id,e.entry)) =
      (h[position]?).map fun w => (Log.idAt position,entry (h.take position) w) := by
    intro position
    have faces := congrArg (·[position]?) h.events_faces
    simpa [List.getElem?_zipIdx,Function.comp_def] using faces
  unfold Log.get?
  by_cases zero : id.value = 0
  · simp [zero]
  · have positive : 1 ≤ id.value.toNat := by
      have apart : id.value.toNat ≠ 0 := fun equal => zero (UInt64.toNat_inj.mp equal)
      omega
    rw [if_neg zero,face]
    by_cases inside : id.value.toNat ≤ h.length
    · have same : Log.idAt (id.value.toNat - 1) = id := by
        rw [Log.idAt,Nat.sub_add_cancel positive,UInt64.ofNat_toNat]
      rw [dif_pos ⟨positive,inside⟩,List.getElem?_eq_getElem (by omega),Option.map_some,same]
    · rw [dif_neg (fun both => inside both.2),List.getElem?_eq_none (by omega)]
      rfl

end History

namespace Ledger

variable {l : Ledger}

theorem answer_registry (l : Ledger) (query : Query) : l.registry.answer query = l.answer query := by
  cases query with
  | record id => simp only [Registry.answer,answer,registry,Registry.get_after]
  | known id => simp only [Registry.answer,answer,registry,Registry.holds_after]
  | recordCount =>
      have counted := Table.size_eq_dedup l.writes.table l.writes.ids l.writes.mem_table_keys
      exact congrArg Answer.count counted
  | eventCount => exact congrArg Answer.count l.writes.events_length
  | event id => exact congrArg Answer.event (History.event_get l.limit l.writes id)
  | shipEvents key =>
      exact congrArg Answer.events
        (l.writes.lookup_under Entry.callReference Details.callReference key fun _ _ => rfl)
  | portEvents key =>
      exact congrArg Answer.events
        (l.writes.lookup_under Entry.portCode Details.portCode key fun _ _ => rfl)

theorem serve_registry (sound : l.Sound) (requests : List Request) :
    l.registry.serve requests = ((l.serve requests).1,(l.serve requests).2.registry) := by
  induction requests generalizing l with
  | nil => rfl
  | cons request rest ih =>
      cases request with
      | act s => simp only [Registry.serve,serve,step_registry sound,ih (step_sound sound s)]
      | read query => simp only [Registry.serve,serve,answer_registry,ih sound]

theorem serve_sound (sound : l.Sound) (requests : List Request) : (l.serve requests).2.Sound := by
  induction requests generalizing l with
  | nil => exact sound
  | cons request rest ih =>
      cases request with
      | act s => exact ih (step_sound sound s)
      | read query => exact ih sound

theorem serve_limit (l : Ledger) (requests : List Request) : (l.serve requests).2.limit = l.limit := by
  induction requests generalizing l with
  | nil => rfl
  | cons request rest ih =>
      cases request with
      | act s => exact (ih (l.step s).2).trans (step_frame l s).2
      | read query => exact ih l

end Ledger

-- The writes stay within the limit, so no identifier ever wraps.
theorem registry_refines_ledger (c : Config) (requests : List Request) :
    ((Registry.deploy c).serve requests).1 = ((Ledger.opened c).serve requests).1 ∧
      (∀ query, ((Registry.deploy c).serve requests).2.answer query =
        ((Ledger.opened c).serve requests).2.answer query) ∧
      ((Ledger.opened c).serve requests).2.writes.length ≤ c.maxEvents.toNat := by
  have sound := Ledger.serve_sound (Ledger.opened_sound c) requests
  have limit := Ledger.serve_limit (Ledger.opened c) requests
  rw [← Ledger.opened_registry,Ledger.serve_registry (Ledger.opened_sound c)]
  refine ⟨rfl,Ledger.answer_registry _,?_⟩
  have room := sound.room
  rwa [limit] at room

end Harbour
