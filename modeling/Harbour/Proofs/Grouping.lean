import Harbour.Proofs.Refinement

namespace Harbour

namespace Index

def ids (index : Index) : List EventId := index.entries.flatMap Prod.snd

theorem place_ids (key : String) (id : EventId) (entries : List (String × List EventId)) :
    ((Table.place key ((entries.lookup key).getD [] ++ [id]) entries).flatMap Prod.snd).Perm
      (entries.flatMap Prod.snd ++ [id]) := by
  induction entries with
  | nil => exact .refl _
  | cons entry rest ih =>
      obtain ⟨k,held⟩ := entry
      by_cases here : k = key
      · subst here
        simp only [Table.place,if_pos,List.lookup_cons_self,Option.getD_some,List.flatMap_cons,
          List.append_assoc]
        exact List.Perm.append_left held List.perm_append_comm
      · have apart : (key == k) = false := by simpa using fun same : key = k => here same.symm
        simp only [Table.place,if_neg here,List.lookup_cons,apart,List.flatMap_cons,List.append_assoc]
        exact List.Perm.append_left held ih

theorem ids_append (index : Index) (key : String) (id : EventId) :
    (index.append key id).ids.Perm (index.ids ++ [id]) := place_ids key id index.entries

theorem ids_ofEvents (keyOf : Entry → String) (events : List Event) :
    (ofEvents keyOf events).ids.Perm (events.map Event.id) := by
  induction events using List.reverseRecOn with
  | nil => exact .refl _
  | append_singleton earlier e ih =>
      rw [ofEvents_snoc,List.map_append]
      exact (ids_append _ _ _).trans (ih.append_right _)

theorem mem_keys_ofEvents (keyOf : Entry → String) (events : List Event) (key : String) :
    key ∈ (ofEvents keyOf events).keys ↔ key ∈ events.map fun e => keyOf e.entry := by
  refine Table.mem_keys_filled _ (fun index e => append index (keyOf e.entry) e.id) ?_ events key
  intro index e key
  exact Table.mem_keys_put index (keyOf e.entry) key _

structure Groups (index : Index) (keyOf : Entry → String) (events : List Event) : Prop where
  once : ∀ e ∈ events, index.ids.count e.id = 1
  under : ∀ e ∈ events, ∀ key, e.id ∈ index.lookup key ↔ keyOf e.entry = key
  ordered : ∀ key, (index.lookup key).Pairwise fun a b => a.value < b.value
  keys : index.keyCount = (events.map fun e => keyOf e.entry).dedup.length
  entries : index.entryCount = events.length

theorem distinct_of_ascends {ids : List EventId}
    (ascends : ids.Pairwise fun a b => a.value < b.value) : ids.Nodup := by
  refine ascends.imp ?_
  intro a b before same
  rw [same] at before
  exact UInt64.lt_irrefl b.value before

theorem ofEvents_groups (keyOf : Entry → String) {events : List Event}
    (ascends : (events.map Event.id).Pairwise fun a b => a.value < b.value) :
    (ofEvents keyOf events).Groups keyOf events := by
  have distinct := distinct_of_ascends ascends
  refine ⟨?_,?_,?_,?_,?_⟩
  · intro e present
    rw [(ids_ofEvents keyOf events).count_eq]
    exact List.count_eq_one_of_mem distinct (List.mem_map_of_mem present)
  · intro e present key
    rw [History.lookup_ofEvents]
    simp only [List.mem_map,List.mem_filter,decide_eq_true_eq]
    constructor
    · rintro ⟨other,⟨member,keyed⟩,same⟩
      rw [← List.inj_on_of_nodup_map distinct member present same]
      exact keyed
    · intro keyed
      exact ⟨e,⟨present,keyed⟩,rfl⟩
  · intro key
    rw [History.lookup_ofEvents]
    exact ascends.sublist (List.filter_sublist.map Event.id)
  · exact Table.size_eq_dedup _ _ (mem_keys_ofEvents keyOf events)
  · have lengths := (ids_ofEvents keyOf events).length_eq
    rwa [List.length_map] at lengths

end Index

theorem Ledger.ids_ascend (l : Ledger) (sound : l.Sound) :
    (l.writes.events.map Event.id).Pairwise fun a b => a.value < b.value :=
  Log.chain_ascends (l.writes.entries_length ▸ sound.short)

theorem indices_group_log (path : Registry.Reached c r) :
    (∀ key, r.shipEvents key = (r.log.events.filter fun e => e.entry.callReference = key).map Event.id) ∧
    (∀ key, r.portEvents key = (r.log.events.filter fun e => e.entry.portCode = key).map Event.id) ∧
    r.ships.Groups Entry.callReference r.log.events ∧
    r.ports.Groups Entry.portCode r.log.events := by
  obtain ⟨l,sound,_,_,rfl⟩ := Ledger.reached_ledger path
  have ascends := l.ids_ascend sound
  exact ⟨History.lookup_ofEvents _ _,History.lookup_ofEvents _ _,
    Index.ofEvents_groups _ ascends,Index.ofEvents_groups _ ascends⟩

theorem indices_group_log_returned :
    let here : Details := ⟨"ESC001","Casablanca","CASA","Atlas","waiting"⟩
    let there : Details := ⟨"ESC002","Tanger","TNG","Atlas","berthed"⟩
    let r := ((Registry.deploy ⟨"harbour",9,10⟩).run
      [.call ⟨"harbour",.record,⟨7⟩,here,10⟩,.call ⟨"harbour",.update,⟨7⟩,there,20⟩,
        .drain,.call ⟨"harbour",.update,⟨7⟩,here,30⟩]).2
    Registry.Reached ⟨"harbour",9,10⟩ r ∧
      r.shipEvents "ESC001" = [⟨1⟩,⟨3⟩] ∧ r.portEvents "TNG" = [⟨2⟩] ∧
      (∀ key, r.shipEvents key = (r.log.events.filter fun e => e.entry.callReference = key).map Event.id) ∧
      (∀ key, r.portEvents key = (r.log.events.filter fun e => e.entry.portCode = key).map Event.id) ∧
      r.ships.Groups Entry.callReference r.log.events ∧
      r.ports.Groups Entry.portCode r.log.events := by
  intro here there r
  have path : Registry.Reached ⟨"harbour",9,10⟩ r := Registry.reached_run .deploy _
  exact ⟨path,rfl,rfl,indices_group_log path⟩

end Harbour
