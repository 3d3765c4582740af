import Harbour.Consistency
import Harbour.Proofs.Integrity
import Harbour.Proofs.Snapshot
import Harbour.Proofs.Usage

namespace Harbour

namespace Consistency

theorem lastEvents_get (events : List Event) (id : VoyageId) :
    (lastEvents events).get? id = events.reverse.find? fun e => e.entry.voyage = id :=
  (Table.get?_filled (fun e : Event => e.entry.voyage) (fun e => e) events id).trans Option.map_id'

theorem mem_lastEvents_keys (events : List Event) (id : VoyageId) :
    id ∈ (lastEvents events).keys ↔ id ∈ events.map fun e => e.entry.voyage :=
  Table.mem_keys_filled _ _ (fun t e key => Table.mem_keys_put t e.entry.voyage key e) events id

variable {l : Ledger}

theorem ids_checked (l : Ledger) : checkIds l.registry = [] := by
  rw [checkIds,List.filterMap_eq_nil_iff]
  rintro ⟨e,position⟩ present
  have atPosition : l.writes.events[position]? = some e := List.mem_zipIdx_iff_getElem?.mp present
  exact if_pos (Log.chain_id_at atPosition)

theorem chain_checked (l : Ledger) : checkChain l.registry = [] := by
  have valid : l.registry.log.firstInvalid = none := Log.firstInvalid_chain l.limit l.writes.entries
  rw [checkChain,valid]

theorem no_stray (sound : l.Sound) (keyOf : Entry → String) {key : String} {id : EventId}
    (present : id ∈ (Index.ofEvents keyOf l.writes.events).lookup key) :
    isStray l.registry keyOf key id = false := by
  rw [History.lookup_ofEvents] at present
  obtain ⟨e,member,rfl⟩ := List.mem_map.mp present
  obtain ⟨member,keyed⟩ := List.mem_filter.mp member
  have found : l.registry.event? e.id = some e :=
    Log.get?_chain l.limit (l.writes.entries_length ▸ sound.short) member
  have same : keyOf e.entry = key := of_decide_eq_true keyed
  simp only [isStray,found,same]
  simp

theorem index_checked (sound : l.Sound) (name : String) (keyOf : Entry → String) :
    checkIndex l.registry name (.ofEvents keyOf l.writes.events) keyOf = [] := by
  have grouped := Index.ofEvents_groups keyOf (l.ids_ascend sound)
  rw [checkIndex,List.append_eq_nil_iff,List.flatMap_eq_nil_iff,List.filterMap_eq_nil_iff]
  refine ⟨?_,?_⟩
  · rintro ⟨key,held⟩ present
    have listed := Index.lookup_of_mem present
    change checkList l.registry name keyOf key held = []
    rw [checkList,if_pos (grouped.ascends present),List.nil_append,List.map_eq_nil_iff,
      List.filter_eq_nil_iff]
    intro id member
    rw [no_stray sound keyOf (listed ▸ member)]
    exact Bool.false_ne_true
  · intro e present
    have once : ((Index.ofEvents keyOf l.writes.events).lookup (keyOf e.entry)).count e.id = 1 := by
      have distinct := Index.distinct_of_ascends (grouped.ordered (keyOf e.entry))
      exact List.count_eq_one_of_mem distinct ((grouped.under e present _).mpr rfl)
    exact if_pos once

theorem record_checked (h : History) {id : VoyageId} {w : Record} (held : h.table.get? id = some w) :
    checkRecord (lastEvents h.events) w = none := by
  rw [History.table_get] at held
  have own := History.latest_id held
  have told := h.latest_events id
  rw [held,Option.map_some] at told
  obtain ⟨e,last,same⟩ := Option.map_eq_some_iff.mp told.symm
  simp only [Prod.mk.injEq] at same
  rw [checkRecord,own,lastEvents_get,last]
  exact if_pos same

theorem none_orphaned (l : Ledger) {id : VoyageId} (present : id ∈ (lastEvents l.writes.events).keys) :
    l.registry.holds id = true := by
  rw [mem_lastEvents_keys,← History.ids_events] at present
  rw [Ledger.registry,Registry.holds_after,decide_eq_true_eq]
  exact present

theorem records_checked (l : Ledger) : checkRecords l.registry = [] := by
  rw [checkRecords]
  have orphaned : (lastEvents l.registry.log.events).keys.filter (fun id => ¬ l.registry.holds id) = [] := by
    rw [List.filter_eq_nil_iff]
    intro id present
    simp [none_orphaned l present]
  rw [orphaned,List.mergeSort_nil,List.map_nil,List.append_nil,List.filterMap_eq_nil_iff]
  rintro ⟨id,w⟩ present
  exact record_checked l.writes (Table.get?_of_mem _ present)

theorem check_registry (sound : l.Sound) : check l.registry = [] := by
  have ships := index_checked sound "ship" Entry.callReference
  have ports := index_checked sound "port" Entry.portCode
  simp only [check,List.append_eq_nil_iff]
  exact ⟨⟨⟨⟨ids_checked l,chain_checked l⟩,ships⟩,ports⟩,records_checked l⟩

end Consistency

theorem checks_never_alarm (path : Registry.Used c r) :
    r.verify = true ∧ r.log.firstInvalid = none ∧ Consistency.check r = [] := by
  obtain ⟨l,sound,_,_,rfl⟩ := Ledger.reached_ledger (Registry.used_reached path)
  exact ⟨Ledger.verify_registry sound,Log.firstInvalid_chain l.limit l.writes.entries,
    Consistency.check_registry sound⟩

theorem checks_never_alarm_shared :
    let landed : Details := ⟨"ESC001","Casablanca","CASA","Atlas","waiting"⟩
    let moved : Details := ⟨"ESC002","Tanger","TNG","Atlas","berthed"⟩
    let c : Config := ⟨"harbour",9,10⟩
    let first : Step := .call ⟨"harbour",.record,⟨7⟩,landed,10⟩
    let called := ((Registry.deploy c).run [first,.drain]).2
    let load : Scenario.Load := { Scenario.Load.usual with owner := "harbour" }
    let ops : List Operation :=
      [⟨.owner,.update,⟨7⟩,moved⟩,⟨.intruder,.record,⟨8⟩,landed⟩,⟨.owner,.update,⟨9⟩,landed⟩]
    ∃ last, load.apply called ops = .ok last ∧
      let r := ((Intake.new last.registry "harbour" 1).run
        [.deliver (.fresh ⟨1⟩ ⟨7⟩ landed) 50,.payload "no notice" 60,
          .registry (.call ⟨"quay",.update,⟨7⟩,moved,70⟩),.deliver (.fresh ⟨1⟩ ⟨7⟩ moved) 80]).2.registry
      Registry.Used c r ∧ r.verify = true ∧ r.log.firstInvalid = none ∧ Consistency.check r = [] := by
  intro landed moved c first called load ops
  have path : Registry.Used c called := .step .drain (.step first .deploy)
  have done : (load.apply called ops).isOk = true := by decide +kernel
  cases ran : load.apply called ops with
  | error why => simp [ran,Except.isOk,Except.toBool] at done
  | ok last =>
      refine ⟨last,rfl,?_⟩
      intro r
      have used : Registry.Used c r := .intake _ _ _ (.load load path ran)
      exact ⟨used,checks_never_alarm used⟩

end Harbour
