import Mathlib.Data.List.Perm.Subperm
import Harbour.Consistency
import Harbour.Proofs.Integrity

namespace Harbour

-- A fault of the log or of an index. The other faults are those of records, for
-- which the registry does not look when it checks itself.
def Violation.structural : Violation → Bool
  | .nonContiguousId _ _ => true
  | .brokenChain _ => true
  | .indexCount _ _ _ _ => true
  | .strayEntry _ _ _ => true
  | .unordered _ _ => true
  | .recordMismatch _ => false
  | .recordWithoutEvent _ => false
  | .missingRecord _ => false

namespace Log

variable {log : Log} {id : EventId} {e : Event}

theorem get?_valid (valid : log.firstInvalid = none) (short : log.events.length < 0x10000000000000000) :
    log.get? id = some e ↔ e ∈ log.events ∧ e.id = id := by
  have chained := valid_chain valid
  have whole : log = ⟨log.limit,chain (log.events.map Event.entry)⟩ := by rw [← chained]
  constructor
  · intro found
    unfold get? at found
    split at found
    · cases found
    · rename_i numbered
      refine ⟨List.mem_of_getElem? found,?_⟩
      rw [chained] at found
      have positive : 1 ≤ id.value.toNat := by
        have apart : id.value.toNat ≠ 0 := fun equal => numbered (UInt64.toNat_inj.mp equal)
        omega
      rw [chain_id_at found,idAt,Nat.sub_add_cancel positive,UInt64.ofNat_toNat]
  · rintro ⟨member,rfl⟩
    rw [whole]
    rw [chained] at member
    exact get?_chain log.limit (by rw [List.length_map]; exact short) member

end Log

namespace Index

def pairs (index : Index) : List (String × EventId) :=
  index.entries.flatMap fun (key,held) => held.map fun id => (key,id)

def pairsOf (keyOf : Entry → String) (events : List Event) : List (String × EventId) :=
  events.map fun e => (keyOf e.entry,e.id)

variable {index : Index} {key : String} {id : EventId}

theorem pairs_length (index : Index) : index.pairs.length = index.entryCount := by
  simp only [pairs,entryCount,List.length_flatMap,List.length_map]

theorem lookup_listed (present : id ∈ index.lookup key) : (key,index.lookup key) ∈ index.entries := by
  unfold lookup at present ⊢
  cases found : index.get? key with
  | none => rw [found] at present; cases present
  | some held =>
      obtain ⟨before,after,split,_⟩ := List.lookup_eq_some_iff.mp found
      rw [split,Option.getD_some]
      exact List.mem_append_right _ List.mem_cons_self

theorem mem_pairs (index : Index) (key : String) (id : EventId) :
    (key,id) ∈ index.pairs ↔ id ∈ index.lookup key := by
  constructor
  · intro present
    obtain ⟨⟨k,held⟩,listed,member⟩ := List.mem_flatMap.mp present
    obtain ⟨x,inside,same⟩ := List.mem_map.mp member
    cases same
    rw [lookup_of_mem listed]
    exact inside
  · intro present
    exact List.mem_flatMap.mpr ⟨_,lookup_listed present,List.mem_map_of_mem present⟩

theorem pairs_within (index : Index) (known : List (String × EventId)) :
    index.pairs ⊆ known ↔ ∀ entry ∈ index.entries, ∀ id ∈ entry.2, (entry.1,id) ∈ known := by
  constructor
  · intro within entry listed id inside
    exact within (List.mem_flatMap.mpr ⟨entry,listed,List.mem_map_of_mem inside⟩)
  · intro within pair present
    obtain ⟨entry,listed,member⟩ := List.mem_flatMap.mp present
    obtain ⟨id,inside,rfl⟩ := List.mem_map.mp member
    exact within entry listed id inside

def Ordered (index : Index) : Prop := ∀ entry ∈ index.entries, ascending entry.2 = true

theorem Ordered.lookup (ordered : index.Ordered) (key : String) :
    (index.lookup key).Pairwise fun a b => a.value < b.value := by
  cases shape : index.lookup key with
  | nil => exact List.Pairwise.nil
  | cons first rest =>
      have present : first ∈ index.lookup key := shape ▸ List.mem_cons_self
      rw [← shape,← ascending_iff]
      exact ordered _ (lookup_listed present)

theorem Ordered.distinct (ordered : index.Ordered) : index.pairs.Nodup := by
  rw [pairs,List.nodup_flatMap]
  constructor
  · rintro ⟨key,held⟩ present
    have once := distinct_of_ascends ((ascending_iff held).mp (ordered _ present))
    exact once.map fun a b same => (Prod.mk.inj same).2
  · refine (List.pairwise_map.mp index.distinct).imp ?_
    rintro ⟨k,held⟩ ⟨l,others⟩ apart pair left right
    obtain ⟨a,_,rfl⟩ := List.mem_map.mp left
    obtain ⟨b,_,same⟩ := List.mem_map.mp right
    exact apart (Prod.mk.inj same).1.symm

theorem pairsOf_distinct (keyOf : Entry → String) {events : List Event} (distinct : (events.map Event.id).Nodup) :
    (pairsOf keyOf events).Nodup := by
  refine List.Nodup.of_map Prod.snd ?_
  rw [pairsOf,List.map_map]
  exact distinct

end Index

-- Counting is enough once everything that is looked for has been found: what
-- would be stray needs a place of its own.
theorem none_stray_iff_counted {α : Type} {wanted held : List α} (distinct : wanted.Nodup) (once : held.Nodup)
    (found : wanted ⊆ held) : held ⊆ wanted ↔ held.length = wanted.length := by
  constructor
  · intro known
    have perm := (List.perm_ext_iff_of_nodup once distinct).mpr fun x => ⟨@known x,@found x⟩
    exact perm.length_eq
  · intro counted
    have perm := (List.subperm_of_subset distinct found).perm_of_length_le (Nat.le_of_eq counted)
    exact perm.symm.subset

namespace Consistency

variable {r : Registry} {index : Index}

theorem stray_exact (valid : r.log.firstInvalid = none) (short : r.log.events.length < 0x10000000000000000)
    (keyOf : Entry → String) (key : String) (id : EventId) :
    isStray r keyOf key id = false ↔ (key,id) ∈ Index.pairsOf keyOf r.log.events := by
  unfold isStray Registry.event? Index.pairsOf
  rw [List.mem_map]
  cases found : r.log.get? id with
  | none =>
      constructor
      · intro known; cases known
      · rintro ⟨e,member,same⟩
        have present := (Log.get?_valid valid short).mpr ⟨member,(Prod.mk.inj same).2⟩
        rw [found] at present
        cases present
  | some e =>
      obtain ⟨member,own⟩ := (Log.get?_valid valid short).mp found
      dsimp only
      rw [decide_eq_false_iff_not,not_not]
      constructor
      · intro keyed
        exact ⟨e,member,by rw [keyed,own]⟩
      · rintro ⟨other,inside,same⟩
        have present := (Log.get?_valid valid short).mpr ⟨inside,(Prod.mk.inj same).2⟩
        rw [found] at present
        cases present
        exact (Prod.mk.inj same).1

theorem list_checked_iff (valid : r.log.firstInvalid = none) (short : r.log.events.length < 0x10000000000000000)
    (name : String) (keyOf : Entry → String) (key : String) (held : List EventId) :
    checkList r name keyOf key held = [] ↔
      Index.ascending held = true ∧ ∀ id ∈ held, (key,id) ∈ Index.pairsOf keyOf r.log.events := by
  rw [checkList,List.append_eq_nil_iff,List.map_eq_nil_iff,List.filter_eq_nil_iff]
  simp only [Bool.not_eq_true,stray_exact valid short]
  refine and_congr_left' ?_
  cases Index.ascending held <;> simp

theorem index_checked_iff (valid : r.log.firstInvalid = none) (short : r.log.events.length < 0x10000000000000000)
    (name : String) (index : Index) (keyOf : Entry → String) :
    checkIndex r name index keyOf = [] ↔
      index.Ordered ∧ index.pairs ⊆ Index.pairsOf keyOf r.log.events ∧
        ∀ e ∈ r.log.events, (index.lookup (keyOf e.entry)).count e.id = 1 := by
  rw [checkIndex,List.append_eq_nil_iff,List.flatMap_eq_nil_iff,List.filterMap_eq_nil_iff,
    Index.pairs_within,← and_assoc]
  refine and_congr ?_ ?_
  · simp only [list_checked_iff valid short]
    exact forall₂_and
  · refine forall₂_congr fun e _ => ?_
    dsimp only
    split <;> simp [*]

theorem index_agrees (valid : r.log.firstInvalid = none) (short : r.log.events.length < 0x10000000000000000)
    (name : String) (index : Index) (keyOf : Entry → String) :
    checkIndex r name index keyOf = [] ↔
      index.entryCount = r.eventCount ∧ index.Ordered ∧
        ∀ e ∈ r.log.events, Index.search e.id (index.lookup (keyOf e.entry)) = true := by
  have chained := Log.valid_chain valid
  have ascends : (r.log.events.map Event.id).Pairwise fun a b => a.value < b.value := by
    rw [chained]
    exact Log.chain_ascends (by rw [List.length_map]; exact short)
  have distinct := Index.pairsOf_distinct keyOf (Index.distinct_of_ascends ascends)
  rw [index_checked_iff valid short,and_left_comm (b := index.Ordered)]
  refine and_congr_right fun ordered => ?_
  have once : ∀ e : Event, (index.lookup (keyOf e.entry)).count e.id = 1 ↔
      Index.search e.id (index.lookup (keyOf e.entry)) = true := by
    intro e
    rw [Index.search_exact _ _ (ordered.lookup _)]
    constructor
    · intro counted
      exact List.count_pos_iff.mp (by omega)
    · exact List.count_eq_one_of_mem (Index.distinct_of_ascends (ordered.lookup _))
  simp only [once]
  refine and_congr_left fun found => ?_
  -- Every pair has been found, and only now does counting show that none is stray.
  have within : Index.pairsOf keyOf r.log.events ⊆ index.pairs := by
    intro pair present
    obtain ⟨e,member,rfl⟩ := List.mem_map.mp present
    exact (Index.mem_pairs _ _ _).mpr ((Index.search_exact _ _ (ordered.lookup _)).mp (found e member))
  rw [none_stray_iff_counted distinct ordered.distinct within,Index.pairs_length,Index.pairsOf,List.length_map]
  rfl

-- The numbers are part of the chain, so that only a broken chain has wrong ones.
theorem ids_follow (valid : r.log.firstInvalid = none) : checkIds r = [] := by
  rw [checkIds,List.filterMap_eq_nil_iff]
  rintro ⟨e,position⟩ present
  have atPosition : r.log.events[position]? = some e := List.mem_zipIdx_iff_getElem?.mp present
  rw [Log.valid_chain valid] at atPosition
  exact if_pos (Log.chain_id_at atPosition)

theorem ids_structural (r : Registry) : ∀ v ∈ checkIds r, v.structural = true := by
  intro v present
  obtain ⟨⟨e,position⟩,_,found⟩ := List.mem_filterMap.mp present
  dsimp only at found
  split at found
  · cases found
  · cases found; rfl

theorem chain_structural (r : Registry) : ∀ v ∈ checkChain r, v.structural = true := by
  intro v present
  unfold checkChain at present
  split at present
  · cases List.mem_singleton.mp present; rfl
  · cases present

theorem index_structural (r : Registry) (name : String) (index : Index) (keyOf : Entry → String) :
    ∀ v ∈ checkIndex r name index keyOf, v.structural = true := by
  intro v present
  rw [checkIndex,List.mem_append,List.mem_flatMap,List.mem_filterMap] at present
  rcases present with ⟨⟨key,held⟩,_,found⟩ | ⟨e,_,found⟩
  · change v ∈ checkList r name keyOf key held at found
    rw [checkList,List.mem_append,List.mem_map] at found
    rcases found with found | ⟨id,_,rfl⟩
    · split at found
      · cases found
      · cases List.mem_singleton.mp found; rfl
    · rfl
  · dsimp only at found
    split at found
    · cases found
    · cases found; rfl

theorem records_unstructural (r : Registry) : ∀ v ∈ checkRecords r, v.structural = false := by
  intro v present
  rw [checkRecords,List.mem_append,List.mem_filterMap,List.mem_map] at present
  rcases present with ⟨entry,_,found⟩ | ⟨id,_,rfl⟩
  · unfold checkRecord at found
    split at found
    · split at found
      · cases found
      · cases found; rfl
    · cases found; rfl
  · rfl

theorem none_of_kind {faults : List Violation} (all : ∀ v ∈ faults, v.structural = true) :
    (∀ v ∈ faults, v.structural = false) ↔ faults = [] := by
  constructor
  · intro none
    refine List.eq_nil_iff_forall_not_mem.mpr fun v present => ?_
    exact Bool.false_ne_true ((none v present).symm.trans (all v present))
  · rintro rfl v present
    cases present

theorem structural_iff (r : Registry) :
    (∀ v ∈ check r, v.structural = false) ↔
      checkIds r = [] ∧ checkChain r = [] ∧ checkIndex r "ship" r.ships Entry.callReference = [] ∧
        checkIndex r "port" r.ports Entry.portCode = [] := by
  simp only [check,List.forall_mem_append,none_of_kind (ids_structural r),none_of_kind (chain_structural r),
    none_of_kind (index_structural r _ _ _),and_assoc]
  simp only [iff_true_intro (records_unstructural r),and_true]

theorem chain_checked_iff (r : Registry) : checkChain r = [] ↔ r.log.firstInvalid = none := by
  unfold checkChain
  cases r.log.firstInvalid <;> simp

end Consistency

theorem Registry.verify_iff (r : Registry) :
    r.verify = true ↔ r.log.firstInvalid = none ∧
      (r.ships.entryCount = r.eventCount ∧ r.ships.Ordered ∧
        ∀ e ∈ r.log.events, Index.search e.id (r.ships.lookup e.entry.callReference) = true) ∧
      (r.ports.entryCount = r.eventCount ∧ r.ports.Ordered ∧
        ∀ e ∈ r.log.events, Index.search e.id (r.ports.lookup e.entry.portCode) = true) := by
  simp only [verify,Bool.and_eq_true,beq_iff_eq,List.all_eq_true,Log.chained,Option.isNone_iff_eq_none,
    Index.Ordered]
  constructor
  · rintro ⟨⟨⟨⟨⟨valid,ships⟩,ports⟩,shipsAscend⟩,portsAscend⟩,found⟩
    exact ⟨valid,⟨ships,shipsAscend,fun e present => (found e present).1⟩,
      ports,portsAscend,fun e present => (found e present).2⟩
  · rintro ⟨valid,⟨ships,shipsAscend,aboard⟩,ports,portsAscend,ashore⟩
    exact ⟨⟨⟨⟨⟨valid,ships⟩,ports⟩,shipsAscend⟩,portsAscend⟩,
      fun e present => ⟨aboard e present,ashore e present⟩⟩

-- One counts and searches, the other looks at every entry. What they think of
-- records is another matter.
theorem verifiers_agree (r : Registry) (short : r.log.events.length < 0x10000000000000000) :
    r.verify = true ↔ ∀ v ∈ Consistency.check r, v.structural = false := by
  rw [Registry.verify_iff,Consistency.structural_iff,Consistency.chain_checked_iff]
  by_cases valid : r.log.firstInvalid = none
  · rw [← Consistency.index_agrees valid short "ship",← Consistency.index_agrees valid short "port"]
    simp only [Consistency.ids_follow valid,true_and]
  · simp only [valid,false_and,and_false]

theorem verifiers_agree_miscounted :
    let called : Entry := ⟨⟨7⟩,"ESC001","CASA",.created,10⟩
    let moved : Entry := ⟨⟨7⟩,"ESC002","CASA",.updated,20⟩
    let events := Log.chain [called,moved]
    let ships := (Index.append .empty "ESC001" ⟨1⟩).append "ESC002" ⟨1⟩
    let r : Registry := ⟨⟨"harbour"⟩,.empty,⟨9,events⟩,ships,.ofEvents Entry.portCode events,[]⟩
    r.log.events.length < 0x10000000000000000 ∧ r.ships.entryCount = r.eventCount ∧
      (r.verify = true ↔ ∀ v ∈ Consistency.check r, v.structural = false) ∧
      .strayEntry "ship" "ESC002" ⟨1⟩ ∈ Consistency.check r ∧ r.verify = false := by
  intro called moved events ships r
  have short : r.log.events.length < 0x10000000000000000 := by decide
  have law := verifiers_agree r short
  have stray : .strayEntry "ship" "ESC002" ⟨1⟩ ∈ Consistency.checkIndex r "ship" r.ships Entry.callReference := by
    decide
  have reported : .strayEntry "ship" "ESC002" ⟨1⟩ ∈ Consistency.check r :=
    List.mem_append_left _ (List.mem_append_left _ (List.mem_append_right _ stray))
  refine ⟨short,rfl,law,reported,Bool.eq_false_iff.mpr fun yes => ?_⟩
  cases law.mp yes _ reported

end Harbour
