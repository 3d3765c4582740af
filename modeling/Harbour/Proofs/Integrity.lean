import Harbour.Proofs.Grouping
import Harbour.Registry

namespace Harbour

namespace Log

def headFrom (previous : Hash.Digest) (events : List Event) : Hash.Digest :=
  events.foldl (fun _ e => e.digest) previous

theorem headFrom_genesis (events : List Event) : headFrom genesis events = headOf events := by
  induction events using List.reverseRecOn with
  | nil => rfl
  | append_singleton earlier e _ => rw [headOf_snoc,headFrom,List.foldl_append]; rfl

theorem firstInvalidFrom_append (previous : Hash.Digest) (position : Nat) (one two : List Event)
    (passed : firstInvalidFrom previous position one = none) :
    firstInvalidFrom previous position (one ++ two) =
      firstInvalidFrom (headFrom previous one) (position + one.length) two := by
  induction one generalizing previous position with
  | nil => rfl
  | cons e rest ih =>
      simp only [firstInvalidFrom] at passed
      rw [List.cons_append,firstInvalidFrom]
      split at passed
      · cases passed
      · rename_i valid
        rw [if_neg valid,ih e.digest (position + 1) passed,List.length_cons,
          Nat.add_assoc,Nat.add_comm 1]
        rfl

variable {previous : Hash.Digest} {position : Nat} {front rest : List Event} {e : Event}

theorem valid_front (passed : firstInvalidFrom previous position (front ++ rest) = none) :
    firstInvalidFrom previous position front = none := by
  induction front generalizing previous position with
  | nil => rfl
  | cons e later ih =>
      rw [List.cons_append,firstInvalidFrom] at passed
      rw [firstInvalidFrom]
      split at passed
      · cases passed
      · rename_i valid
        rw [if_neg valid]
        exact ih passed

theorem check_step (passed : firstInvalidFrom genesis 0 front = none) (f : Event) (rest : List Event) :
    firstInvalidFrom genesis 0 (front ++ f :: rest) =
      if f = link front f.entry then firstInvalidFrom f.digest (front.length + 1) rest
      else some (idAt front.length) := by
  rw [firstInvalidFrom_append genesis 0 front _ passed,headFrom_genesis,Nat.zero_add,firstInvalidFrom]
  obtain ⟨id,entry,stored⟩ := f
  by_cases numbered : id = idAt front.length
  · by_cases hashed : digest (headOf front) (idAt front.length) entry = stored
    · simp [link,numbered,hashed]
    · have other : ¬ stored = digest (headOf front) (idAt front.length) entry := fun same => hashed same.symm
      simp [link,numbered,hashed,other]
  · simp [link,numbered]

theorem linked (passed : firstInvalidFrom genesis 0 (front ++ e :: rest) = none) :
    e = link front e.entry ∧ firstInvalidFrom e.digest (front.length + 1) rest = none := by
  rw [check_step (valid_front passed)] at passed
  split at passed
  · rename_i own
    exact ⟨own,passed⟩
  · cases passed

theorem firstInvalid_chain (limit : UInt64) (entries : List Entry) :
    (Log.mk limit (chain entries)).firstInvalid = none := by
  change firstInvalidFrom genesis 0 (chain entries) = none
  induction entries using List.reverseRecOn with
  | nil => rfl
  | append_singleton earlier e ih =>
      rw [chain_snoc,firstInvalidFrom_append genesis 0 _ _ ih,headFrom_genesis,Nat.zero_add]
      simp [firstInvalidFrom,link]

-- There is no other way to pass it: a log that does is the one that its entries have.
theorem valid_chain {events : List Event} (passed : firstInvalidFrom genesis 0 events = none) :
    events = chain (events.map Event.entry) := by
  induction events using List.reverseRecOn with
  | nil => rfl
  | append_singleton front e ih =>
      have last := (linked passed).1
      rw [List.map_append,List.map_singleton,chain_snoc,← ih (valid_front passed)]
      exact congrArg (front ++ [·]) last

end Log

namespace Index

theorem ascending_iff (ids : List EventId) :
    ascending ids = true ↔ ids.Pairwise fun a b => a.value < b.value := by
  fun_induction ascending ids with
  | case1 a b rest ih =>
      rw [Bool.and_eq_true,ih,List.pairwise_cons (a := a),EventId.before,decide_eq_true_eq]
      constructor
      · rintro ⟨first,others⟩
        refine ⟨?_,others⟩
        intro x present
        rcases List.mem_cons.mp present with rfl | later
        · exact first
        · exact UInt64.lt_trans first ((List.pairwise_cons.mp others).1 x later)
      · rintro ⟨below,others⟩
        exact ⟨below b List.mem_cons_self,others⟩
  | case2 ids short =>
      match ids with
      | [] => simp
      | [a] => simp
      | a :: b :: rest => exact absurd rfl (short a b rest)

variable {ids upper : List EventId} {middle id : EventId} {half : Nat}

theorem mem_halves (whole : ids.drop half = middle :: upper) :
    id ∈ ids ↔ id ∈ ids.take half ∨ id = middle ∨ id ∈ upper := by
  have parts : id ∈ ids.take half ++ ids.drop half ↔ id ∈ ids.take half ∨ id = middle ∨ id ∈ upper := by
    rw [whole,List.mem_append,List.mem_cons]
  rwa [List.take_append_drop] at parts

theorem halves_ordered (whole : ids.drop half = middle :: upper)
    (ascends : ids.Pairwise fun a b => a.value < b.value) :
    (∀ a ∈ ids.take half, a.value < middle.value) ∧ ∀ b ∈ upper, middle.value < b.value := by
  have parts : (ids.take half ++ middle :: upper).Pairwise fun a b => a.value < b.value := by
    rwa [← whole,List.take_append_drop]
  obtain ⟨_,right,across⟩ := List.pairwise_append.mp parts
  exact ⟨fun a present => across a present middle List.mem_cons_self,(List.pairwise_cons.mp right).1⟩

theorem absent_below (whole : ids.drop half = middle :: upper)
    (ascends : ids.Pairwise fun a b => a.value < b.value) (before : id.before middle = true) :
    id ∈ ids ↔ id ∈ ids.take half := by
  have less : id.value < middle.value := by simpa [EventId.before] using before
  rw [mem_halves whole]
  constructor
  · rintro (left | same | right)
    · exact left
    · rw [same] at less
      exact absurd less (UInt64.lt_irrefl _)
    · exact absurd less (UInt64.lt_asymm ((halves_ordered whole ascends).2 id right))
  · exact Or.inl

theorem absent_above (whole : ids.drop half = middle :: upper)
    (ascends : ids.Pairwise fun a b => a.value < b.value) (other : id ≠ middle)
    (beyond : ¬ id.before middle = true) : id ∈ ids ↔ id ∈ upper := by
  have reached : ¬ id.value < middle.value := by simpa [EventId.before] using beyond
  rw [mem_halves whole]
  constructor
  · rintro (left | same | right)
    · exact absurd ((halves_ordered whole ascends).1 id left) reached
    · exact absurd same other
    · exact right
  · exact fun right => .inr (.inr right)

-- Halving an ascending list loses nothing: what is sought cannot be in the half
-- that is put aside.
theorem search_exact (id : EventId) (ids : List EventId)
    (ascends : ids.Pairwise fun a b => a.value < b.value) : search id ids = true ↔ id ∈ ids := by
  fun_induction search id ids with
  | case1 ids nothing =>
      have bound := List.drop_eq_nil_iff.mp nothing
      have empty : ids = [] := List.length_eq_zero_iff.mp (by omega)
      simp [empty]
  | case2 ids upper whole shorter =>
      rw [mem_halves whole]
      simp
  | case3 ids middle upper whole shorter other before halved ih =>
      rw [absent_below whole ascends before]
      exact ih (ascends.sublist (List.take_sublist _ _))
  | case4 ids middle upper whole shorter other before single =>
      have none : ids.length / 2 = 0 := by omega
      rw [absent_below whole ascends before,none]
      simp
  | case5 ids middle upper whole shorter other beyond ih =>
      rw [absent_above whole ascends other beyond]
      have kept : (middle :: upper).Pairwise fun a b => a.value < b.value :=
        whole ▸ ascends.sublist (List.drop_sublist _ _)
      exact ih (List.pairwise_cons.mp kept).2

variable {index : Index} {keyOf : Entry → String} {events : List Event}

theorem Groups.ascends (grouped : index.Groups keyOf events) {entry : String × List EventId}
    (present : entry ∈ index.entries) : ascending entry.2 = true := by
  rw [ascending_iff,← lookup_of_mem present]
  exact grouped.ordered entry.1

theorem Groups.found (grouped : index.Groups keyOf events) {e : Event} (present : e ∈ events) :
    search e.id (index.lookup (keyOf e.entry)) = true := by
  rw [search_exact _ _ (grouped.ordered _)]
  exact (grouped.under e present _).mpr rfl

end Index

theorem Ledger.verify_registry {l : Ledger} (sound : l.Sound) : l.registry.verify = true := by
  have ascends := l.ids_ascend sound
  have ships : l.registry.ships.Groups Entry.callReference l.registry.log.events :=
    Index.ofEvents_groups _ ascends
  have ports : l.registry.ports.Groups Entry.portCode l.registry.log.events :=
    Index.ofEvents_groups _ ascends
  have chained : l.registry.log.chained = true := by
    rw [Log.chained,Option.isNone_iff_eq_none]
    exact Log.firstInvalid_chain l.limit l.writes.entries
  simp only [Registry.verify,Bool.and_eq_true,beq_iff_eq,List.all_eq_true]
  exact ⟨⟨⟨⟨⟨chained,ships.entries⟩,ports.entries⟩,fun _ => ships.ascends⟩,fun _ => ports.ascends⟩,
    fun e present => ⟨ships.found present,ports.found present⟩⟩

end Harbour
