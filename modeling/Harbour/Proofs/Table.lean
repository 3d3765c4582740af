import Mathlib.Data.List.Dedup
import Mathlib.Data.List.Induction
import Harbour.Registry

namespace Harbour

-- A key is present exactly when something can be looked up under it, so the
-- keys of a table are known from its lookups up to order.
namespace Table
variable {κ ν : Type}

theorem mem_keys_filled {α : Type} (keyOf : α → κ) (fill : Table κ ν → α → Table κ ν)
    (adds : ∀ t x key, key ∈ (fill t x).keys ↔ key = keyOf x ∨ key ∈ t.keys) (items : List α) (key : κ) :
    key ∈ (items.foldl fill empty).keys ↔ key ∈ items.map keyOf := by
  induction items using List.reverseRecOn with
  | nil => simp [keys,empty]
  | append_singleton earlier x ih =>
      rw [List.foldl_append,List.foldl_cons,List.foldl_nil,adds,ih,List.map_append,List.mem_append,or_comm]
      simp

variable [DecidableEq κ]

theorem lookup_isSome (key : κ) (entries : List (κ × ν)) :
    (entries.lookup key).isSome = true ↔ key ∈ entries.map Prod.fst := by
  induction entries with
  | nil => simp
  | cons entry rest ih =>
      obtain ⟨k,v⟩ := entry
      by_cases same : key = k
      · subst same; simp
      · have apart : (key == k) = false := by simpa using same
        simp [List.lookup_cons,apart,same,ih]

theorem mem_keys (t : Table κ ν) (key : κ) : key ∈ t.keys ↔ (t.get? key).isSome = true :=
  (lookup_isSome key t.entries).symm

theorem contains_exact (t : Table κ ν) (key : κ) : t.contains key = true ↔ key ∈ t.keys :=
  (mem_keys t key).symm

theorem keys_put (t : Table κ ν) (key : κ) (value : ν) :
    (t.put key value).keys = if key ∈ t.keys then t.keys else t.keys ++ [key] :=
  place_keys key value t.entries

theorem mem_keys_put (t : Table κ ν) (key other : κ) (value : ν) :
    other ∈ (t.put key value).keys ↔ other = key ∨ other ∈ t.keys := by
  rw [keys_put]
  by_cases present : key ∈ t.keys
  · rw [if_pos present]
    refine ⟨Or.inr,?_⟩
    rintro (rfl | old)
    · exact present
    · exact old
  · simp [if_neg present,or_comm]

theorem get?_of_mem (t : Table κ ν) {key : κ} {value : ν} (present : (key,value) ∈ t.entries) :
    t.get? key = some value := by
  obtain ⟨entries,distinct⟩ := t
  change entries.lookup key = some value
  induction entries with
  | nil => cases present
  | cons entry rest ih =>
      rw [List.map_cons,List.nodup_cons] at distinct
      rcases List.mem_cons.mp present with rfl | later
      · simp
      · -- The key cannot stand before this place, for keys stand once.
        have other : key ≠ entry.1 := by
          intro same
          exact distinct.1 (same ▸ List.mem_map_of_mem (f := Prod.fst) later)
        have apart : (key == entry.1) = false := by simpa using other
        rw [List.lookup_cons,apart]
        exact ih distinct.2 later

theorem get?_filled {α : Type} (keyOf : α → κ) (valueOf : α → ν) (items : List α) (key : κ) :
    (items.foldl (fun (t : Table κ ν) x => t.put (keyOf x) (valueOf x)) empty).get? key =
      (items.reverse.find? fun x => keyOf x = key).map valueOf := by
  induction items using List.reverseRecOn with
  | nil => rfl
  | append_singleton earlier x ih =>
      rw [List.foldl_append,List.foldl_cons,List.foldl_nil,get?_put,ih,List.reverse_append,
        List.reverse_singleton,List.singleton_append,List.find?_cons]
      by_cases same : keyOf x = key
      · simp [same]
      · have other : ¬ key = keyOf x := fun equal => same equal.symm
        simp [same,other]

theorem size_eq_dedup (t : Table κ ν) (filled : List κ) (same : ∀ key, key ∈ t.keys ↔ key ∈ filled) :
    t.size = filled.dedup.length := by
  have perm : t.keys.Perm filled.dedup := by
    refine (List.perm_ext_iff_of_nodup t.distinct filled.nodup_dedup).mpr fun key => ?_
    exact (same key).trans List.mem_dedup.symm
  have lengths := perm.length_eq
  rwa [keys,List.length_map] at lengths

end Table

namespace Index

@[simp] theorem lookup_empty (key : String) : lookup .empty key = [] := rfl

theorem lookup_of_mem {index : Index} {key : String} {held : List EventId}
    (present : (key,held) ∈ index.entries) : index.lookup key = held := by
  rw [lookup,Table.get?_of_mem index present,Option.getD_some]

theorem lookup_append (index : Index) (key other : String) (id : EventId) :
    (index.append key id).lookup other =
      if other = key then index.lookup key ++ [id] else index.lookup other := by
  unfold append lookup
  rw [Table.get?_put]
  split <;> simp

end Index

end Harbour
