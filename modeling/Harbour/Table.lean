namespace Harbour

-- A second value for a key replaces the first in place, so the order of keys
-- never changes.
structure Table (κ ν : Type) where
  entries : List (κ × ν)
  distinct : (entries.map Prod.fst).Nodup

namespace Table
variable {κ ν : Type}

def empty : Table κ ν := ⟨[],List.nodup_nil⟩

def keys (t : Table κ ν) : List κ := t.entries.map Prod.fst
def size (t : Table κ ν) : Nat := t.entries.length

@[ext] theorem ext {s t : Table κ ν} (same : s.entries = t.entries) : s = t := by
  cases s; cases t; cases same; rfl

instance [DecidableEq κ] [DecidableEq ν] : DecidableEq (Table κ ν) := fun s t =>
  decidable_of_iff (s.entries = t.entries) ⟨ext,fun same => same ▸ rfl⟩

variable [DecidableEq κ]

def get? (t : Table κ ν) (key : κ) : Option ν := t.entries.lookup key

def contains (t : Table κ ν) (key : κ) : Bool := (t.get? key).isSome

def place (key : κ) (value : ν) : List (κ × ν) → List (κ × ν)
  | [] => [(key,value)]
  | (k,v) :: rest => if k = key then (key,value) :: rest else (k,v) :: place key value rest

theorem place_keys (key : κ) (value : ν) (entries : List (κ × ν)) :
    (place key value entries).map Prod.fst =
      if key ∈ entries.map Prod.fst then entries.map Prod.fst
      else entries.map Prod.fst ++ [key] := by
  induction entries with
  | nil => simp [place]
  | cons entry rest ih =>
      obtain ⟨k,v⟩ := entry
      by_cases here : k = key
      · subst here; simp [place]
      · have other : ¬ key = k := fun equal => here equal.symm
        by_cases later : key ∈ rest.map Prod.fst
        · simp only [place,here,if_false,List.map_cons,ih,if_pos later,List.mem_cons,other,false_or]
        · simp only [place,here,if_false,List.map_cons,ih,if_neg later,List.mem_cons,other,false_or,
            List.cons_append]

theorem place_distinct (key : κ) (value : ν) {entries : List (κ × ν)}
    (distinct : (entries.map Prod.fst).Nodup) :
    ((place key value entries).map Prod.fst).Nodup := by
  rw [place_keys]
  split
  · exact distinct
  · rename_i absent
    refine List.nodup_append.mpr ⟨distinct,by simp,?_⟩
    intro a present b last equal
    simp only [List.mem_singleton] at last
    subst last; subst equal
    exact absent present

def put (t : Table κ ν) (key : κ) (value : ν) : Table κ ν :=
  ⟨place key value t.entries,place_distinct key value t.distinct⟩

@[simp] theorem get?_empty (key : κ) : (empty : Table κ ν).get? key = none := rfl

theorem get?_put (t : Table κ ν) (key other : κ) (value : ν) :
    (t.put key value).get? other = if other = key then some value else t.get? other := by
  obtain ⟨entries,distinct⟩ := t
  simp only [get?,put]
  clear distinct
  induction entries with
  | nil =>
      by_cases same : other = key
      · subst same; simp [place]
      · simp [place,same]
  | cons entry rest ih =>
      obtain ⟨k,v⟩ := entry
      by_cases here : k = key
      · subst here
        by_cases same : other = k
        · subst same; simp [place]
        · have apart : (other == k) = false := by simpa using same
          simp [place,List.lookup_cons,apart,same]
      · simp only [place,here,if_false,List.lookup_cons]
        by_cases at_k : other = k
        · subst at_k; simp [here]
        · have : (other == k) = false := by simpa using at_k
          simp only [this,ih]

end Table

end Harbour
