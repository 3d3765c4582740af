import Harbour.Proofs.Chain
import Harbour.Proofs.Table
import Harbour.Registry

namespace Harbour

-- Who asked for a write, and by which entry point, is gone.
abbrev History := List Record

namespace History

def ids (h : History) : List VoyageId := h.map Record.id

def latest (h : History) (id : VoyageId) : Option Record := h.reverse.find? fun w => w.id = id

def fetch (h : History) (id : VoyageId) : Except Refusal Record :=
  match h.latest id with
  | some w => .ok w
  | none => .error (.notFound id)

def entry (earlier : History) (w : Record) : Entry :=
  ⟨w.id,w.details.callReference,w.details.portCode,
    if w.id ∈ earlier.ids then .updated else .created,w.recordedAt⟩

def entries (h : History) : List Entry :=
  h.zipIdx.map fun (w,position) => entry (h.take position) w

def events (h : History) : List Event := Log.chain h.entries

def table (h : History) : Store := h.foldl (fun table w => table.put w.id w) .empty

def notices (h : History) : List Notification :=
  (h.zip h.events).flatMap fun (w,e) => [.arrivalRecorded w,.eventRecorded e.receipt]

theorem entries_snoc (h : History) (w : Record) : entries (h ++ [w]) = h.entries ++ [h.entry w] := by
  have earlier : ∀ p ∈ h.zipIdx, entry ((h ++ [w]).take p.2) p.1 = entry (h.take p.2) p.1 := by
    intro p present
    have bound := List.snd_lt_of_mem_zipIdx present
    rw [List.take_append_of_le_length (by omega)]
  simp only [entries,List.zipIdx_append,List.map_append,List.map_congr_left earlier]
  simp

@[simp] theorem entries_length (h : History) : h.entries.length = h.length := by simp [entries]

@[simp] theorem events_length (h : History) : h.events.length = h.length := by simp [events]

theorem events_snoc (h : History) (w : Record) :
    events (h ++ [w]) = h.events ++ [Log.link h.events (h.entry w)] := by
  rw [events,entries_snoc,Log.chain_snoc]; rfl

theorem entries_events (h : History) : h.events.map Event.entry = h.entries := by
  have faces := congrArg (List.map Prod.snd) (Log.chain_faces h.entries)
  rw [List.map_map,List.map_map] at faces
  exact faces.trans (List.zipIdx_map_fst 0 h.entries)

theorem events_take (h : History) (count : Nat) : events (h.take count) = h.events.take count := by
  induction h using List.reverseRecOn with
  | nil => rw [List.take_nil]; exact List.take_nil.symm
  | append_singleton earlier w ih =>
      by_cases inside : count ≤ earlier.length
      · rw [List.take_append_of_le_length inside,ih,events_snoc,
          List.take_append_of_le_length (by rw [events_length]; exact inside)]
      · have whole : (earlier ++ [w]).length ≤ count := by
          rw [List.length_append,List.length_singleton]; omega
        rw [List.take_of_length_le whole,List.take_of_length_le (by rw [events_length]; exact whole)]

theorem words_events (wordOf : Entry → κ) (ownWord : Record → κ)
    (follows : ∀ earlier w, wordOf (entry earlier w) = ownWord w) (h : History) :
    h.events.map (fun e => wordOf e.entry) = h.map ownWord := by
  induction h using List.reverseRecOn with
  | nil => rfl
  | append_singleton earlier w ih =>
      rw [events_snoc,List.map_append,ih,List.map_append,List.map_singleton,List.map_singleton,
        ← follows earlier w]
      rfl

theorem event_at (h : History) (w : Record) (later : History) :
    (events (h ++ w :: later))[h.length]? = some (Log.link h.events (h.entry w)) := by
  have kept := events_take (h ++ w :: later) (h ++ [w]).length
  have front : (h ++ w :: later).take (h ++ [w]).length = h ++ [w] := by
    rw [List.append_cons h w later]; exact List.take_left
  rw [front,events_snoc] at kept
  have inside : h.length < (h ++ [w]).length := by simp
  rw [← List.getElem?_take_of_lt inside,← kept,← h.events_length]
  exact List.getElem?_concat_length

theorem table_snoc (h : History) (w : Record) : table (h ++ [w]) = h.table.put w.id w := by
  simp [table]

theorem notices_snoc (h : History) (w : Record) :
    notices (h ++ [w]) = h.notices ++
      [.arrivalRecorded w,.eventRecorded (Log.link h.events (h.entry w)).receipt] := by
  rw [notices,events_snoc,List.zip_append (by simp),List.flatMap_append]
  rfl

@[simp] theorem notices_length (h : History) : h.notices.length = 2 * h.length := by
  induction h using List.reverseRecOn with
  | nil => rfl
  | append_singleton earlier w ih =>
      rw [notices_snoc,List.length_append,ih]
      simp only [List.length_cons,List.length_nil,List.length_append]
      omega

theorem latest_snoc (h : History) (w : Record) (id : VoyageId) :
    latest (h ++ [w]) id = if id = w.id then some w else h.latest id := by
  simp only [latest,List.reverse_append,List.reverse_singleton,List.singleton_append,List.find?_cons]
  by_cases same : w.id = id
  · simp [same]
  · have other : ¬ id = w.id := fun equal => same equal.symm
    simp [same,other]

theorem latest_id {h : History} {id : VoyageId} {w : Record} (found : h.latest id = some w) : w.id = id := by
  rw [latest] at found
  simpa using List.find?_some found

theorem table_get (h : History) (id : VoyageId) : h.table.get? id = h.latest id :=
  (Table.get?_filled Record.id (fun w => w) h id).trans Option.map_id'

theorem mem_table_keys (h : History) (id : VoyageId) : id ∈ h.table.keys ↔ id ∈ h.ids :=
  Table.mem_keys_filled Record.id _ (fun t w key => Table.mem_keys_put t w.id key w) h id

theorem table_holds (h : History) (id : VoyageId) : h.table.holds id = decide (id ∈ h.ids) := by
  rw [Bool.eq_iff_iff,decide_eq_true_iff]
  exact (Table.contains_exact h.table id).trans (mem_table_keys h id)

end History

def Index.ofEvents (keyOf : Entry → String) (events : List Event) : Index :=
  events.foldl (fun index e => index.append (keyOf e.entry) e.id) .empty

theorem Index.ofEvents_snoc (keyOf : Entry → String) (events : List Event) (e : Event) :
    ofEvents keyOf (events ++ [e]) = (ofEvents keyOf events).append (keyOf e.entry) e.id := by
  simp [ofEvents]

namespace Registry

-- The three checks in the order in which they are made, for any registry.
theorem commit_exact (r : Registry) (call : Call) :
    r.commit call =
      if call.caller ≠ r.owner then .error (.unauthorized call.caller)
      else if call.mode = .update ∧ r.holds call.id = false then .error (.notFound call.id)
      else (r.log.stage (call.entry (r.kindOf call.id))).map
        fun event => (event.id,r.install event call.record) := by
  unfold commit Access.authorize Access.isOwner owner
  by_cases stranger : call.caller = r.access.owner
  · have owned : decide (r.access.owner = call.caller) = true := by simp [stranger]
    rw [owned,if_pos rfl,if_neg (not_not_intro stranger)]
    by_cases missing : call.mode = .update ∧ r.holds call.id = false
    · rw [if_pos missing]
      simp [missing,bind,Except.bind]
    · rw [if_neg missing]
      simp only [Bool.not_eq_true,missing,if_false]
      cases r.log.stage (call.entry (r.kindOf call.id)) <;> rfl
  · have owned : decide (r.access.owner = call.caller) = false := by
      simpa using fun equal => stranger equal.symm
    rw [owned,if_neg Bool.false_ne_true,if_pos stranger]
    rfl

-- Only the notifications that still wait are not a function of the history.
def after (owner : String) (limit : UInt64) (h : History) (pending : List Notification) : Registry where
  access := ⟨owner⟩
  records := h.table
  log := ⟨limit,h.events⟩
  ships := .ofEvents Entry.callReference h.events
  ports := .ofEvents Entry.portCode h.events
  pending := pending

variable (owner : String) (limit : UInt64) (h : History) (pending : List Notification)

theorem holds_after (id : VoyageId) : (after owner limit h pending).holds id = decide (id ∈ h.ids) :=
  h.table_holds id

theorem get_after (id : VoyageId) : (after owner limit h pending).get id = h.fetch id := by
  simp only [get,Store.fetch,after,History.table_get]
  rfl

theorem kindOf_after (id : VoyageId) :
    (after owner limit h pending).kindOf id = if id ∈ h.ids then .updated else .created := by
  simp only [kindOf,holds_after,decide_eq_true_iff]

theorem install_after (w : Record) :
    (after owner limit h pending).install (Log.link h.events (h.entry w)) w =
      after owner limit (h ++ [w])
        (pending ++ [.arrivalRecorded w,.eventRecorded (Log.link h.events (h.entry w)).receipt]) := by
  simp only [install,after,Log.commit,History.table_snoc,History.events_snoc,Index.ofEvents_snoc]

-- The whole of what a call can do, said on the history. Every other law of the
-- registry comes from this one.
theorem commit_after (call : Call) :
    (after owner limit h pending).commit call =
      if call.caller ≠ owner then .error (.unauthorized call.caller)
      else if call.mode = .update ∧ call.id ∉ h.ids then .error (.notFound call.id)
      else if limit.toNat ≤ h.length then .error (.exhausted limit)
      else .ok (Log.idAt h.length,after owner limit (h ++ [call.record])
        (pending ++ [.arrivalRecorded call.record,
          .eventRecorded (Log.link h.events (h.entry call.record)).receipt])) := by
  have entered : call.entry ((after owner limit h pending).kindOf call.id) = h.entry call.record := by
    rw [kindOf_after]; rfl
  have staged : (after owner limit h pending).log.stage (h.entry call.record) =
      if limit.toNat ≤ h.length then .error (.exhausted limit)
      else .ok (Log.link h.events (h.entry call.record)) := by
    rw [← h.entries_length]
    exact Log.stage_chain limit h.entries _
  have numbered : (Log.link h.events (h.entry call.record)).id = Log.idAt h.length := by
    rw [← h.events_length]; rfl
  rw [commit_exact,entered,staged]
  change (if call.caller ≠ owner then _ else _) = _
  simp only [holds_after,decide_eq_false_iff_not]
  by_cases full : limit.toNat ≤ h.length
  · simp only [if_pos full,Except.map]
  · simp only [if_neg full,Except.map,install_after,numbered]

theorem drain_after : (after owner limit h pending).drain = (pending,after owner limit h []) := rfl

end Registry

end Harbour
