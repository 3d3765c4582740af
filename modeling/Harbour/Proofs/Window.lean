import Mathlib.Data.List.DropRight
import Mathlib.Data.List.Nodup
import Harbour.Intake

namespace Harbour.Window

-- Without the distinctness the set would lose an identifier that is still in
-- the queue as soon as its older copy goes.
structure Tracks (w : Window) (width : Nat) (ids : List MessageId) : Prop where
  size : w.size = width
  recent : w.recent = ids.rtake width
  distinct : w.recent.Nodup
  seen : ∀ m, m ∈ w.seen ↔ m ∈ w.recent

def Spaced (width : Nat) (ids : List MessageId) : Prop :=
  ∀ before m after, ids = before ++ m :: after → m ∉ before.rtake width

theorem rtake_length (ids : List MessageId) (width : Nat) :
    (ids.rtake width).length = ids.length - (ids.length - width) := by
  rw [List.rtake,List.length_drop]

theorem rtake_all {ids : List MessageId} (short : ids.length ≤ width) : ids.rtake width = ids := by
  rw [List.rtake,Nat.sub_eq_zero_of_le short,List.drop_zero]

theorem rtake_pred {ids : List MessageId} (held : ids.rtake (width + 1) = oldest :: rest)
    (full : width + 1 ≤ ids.length) : ids.rtake width = rest := by
  have next : ids.length - width = ids.length - (width + 1) + 1 := by omega
  rw [List.rtake] at held
  rw [List.rtake,next,← List.drop_drop,held,List.drop_one,List.tail_cons]

theorem empty_tracks (width : Nat) : (empty width).Tracks width [] :=
  ⟨rfl,by rw [List.rtake_nil]; rfl,List.nodup_nil,by simp [empty]⟩

variable {w : Window} {width : Nat} {ids : List MessageId} {m : MessageId}

theorem contains_exact (held : w.Tracks width ids) (m : MessageId) :
    w.contains m ↔ m ∈ ids.rtake width := by
  rw [← held.recent,← held.seen,contains,Std.HashSet.contains_iff_mem]

theorem remember_none (held : w.Tracks 0 ids) (m : MessageId) :
    (w.remember m).Tracks 0 (ids ++ [m]) := by
  rw [remember,if_pos held.size]
  refine ⟨held.size,?_,held.distinct,held.seen⟩
  rw [held.recent,List.rtake_zero,List.rtake_zero]

theorem remember_room (held : w.Tracks (width + 1) ids) (fresh : m ∉ w.recent)
    (room : w.recent.length ≤ width) : (w.remember m).Tracks (width + 1) (ids ++ [m]) := by
  have short : ids.length ≤ width := by
    have counted := rtake_length ids (width + 1)
    rw [← held.recent] at counted
    omega
  have positive : w.size ≠ 0 := by rw [held.size]; exact Nat.succ_ne_zero width
  have below : ¬ w.size ≤ w.recent.length := by rw [held.size]; omega
  rw [remember,if_neg positive,if_neg below]
  refine ⟨held.size,?_,?_,?_⟩
  · change w.recent ++ [m] = (ids ++ [m]).rtake (width + 1)
    rw [List.rtake_concat_succ,rtake_all short,held.recent,rtake_all (Nat.le_succ_of_le short)]
  · rw [← List.concat_eq_append]
    exact List.Nodup.concat fresh held.distinct
  · intro x
    simp only [Std.HashSet.mem_insert,beq_iff_eq,held.seen,List.mem_append,List.mem_singleton]
    constructor
    · rintro (rfl | prior)
      · exact .inr rfl
      · exact .inl prior
    · rintro (prior | rfl)
      · exact .inr prior
      · exact .inl rfl

theorem remember_full (held : w.Tracks (width + 1) ids) (fresh : m ∉ w.recent)
    (full : width + 1 ≤ w.recent.length) : (w.remember m).Tracks (width + 1) (ids ++ [m]) := by
  have long : width + 1 ≤ ids.length := by
    have counted := rtake_length ids (width + 1)
    rw [← held.recent] at counted
    omega
  have positive : w.size ≠ 0 := by rw [held.size]; exact Nat.succ_ne_zero width
  have reached : w.size ≤ w.recent.length := by rw [held.size]; exact full
  have distinct := held.distinct
  rw [remember,if_neg positive,if_pos reached]
  cases shape : w.recent with
  | nil => rw [shape] at full; simp at full
  | cons oldest rest =>
      rw [shape] at distinct fresh
      obtain ⟨once,distinct⟩ := List.nodup_cons.mp distinct
      have absent : m ∉ rest := fun prior => fresh (List.mem_cons_of_mem _ prior)
      refine ⟨held.size,?_,?_,?_⟩
      · change rest ++ [m] = (ids ++ [m]).rtake (width + 1)
        rw [List.rtake_concat_succ,rtake_pred (held.recent.symm.trans shape) long]
      · change (rest ++ [m]).Nodup
        rw [← List.concat_eq_append]
        exact List.Nodup.concat absent distinct
      · -- The oldest is in the set but not in the rest of the queue.
        intro x
        simp only [Std.HashSet.mem_insert,Std.HashSet.mem_erase,beq_iff_eq,beq_eq_false_iff_ne,
          held.seen,shape,List.mem_append,List.mem_cons]
        constructor
        · rintro (rfl | ⟨other,rfl | prior⟩)
          · exact .inr (.inl rfl)
          · exact absurd rfl other
          · exact .inl prior
        · rintro (prior | rfl | none)
          · exact .inr ⟨fun same => once (same ▸ prior),.inr prior⟩
          · exact .inl rfl
          · exact absurd none List.not_mem_nil

theorem remember_tracks (held : w.Tracks width ids) (fresh : m ∉ w.recent) :
    (w.remember m).Tracks width (ids ++ [m]) := by
  cases width with
  | zero => exact remember_none held m
  | succ width =>
      by_cases room : w.recent.length ≤ width
      · exact remember_room held fresh room
      · exact remember_full held fresh (by omega)

theorem spaced_nil (width : Nat) : Spaced width [] := by
  intro before m after split
  simp at split

theorem spaced_snoc (spaced : Spaced width ids) (fresh : m ∉ ids.rtake width) : Spaced width (ids ++ [m]) := by
  intro before x after split
  rcases List.eq_nil_or_concat after with rfl | ⟨shorter,last,rfl⟩
  · obtain ⟨rfl,same⟩ := List.append_inj' split rfl
    cases same
    exact fresh
  · rw [List.concat_eq_append,← List.cons_append,← List.append_assoc] at split
    obtain ⟨equal,_⟩ := List.append_inj' split rfl
    exact spaced before x shorter equal

theorem mem_rtake (few : after.length < width) : m ∈ (before ++ m :: after).rtake width := by
  have reach : (before ++ m :: after).length - width ≤ before.length := by
    simp only [List.length_append,List.length_cons]; omega
  rw [List.rtake,List.drop_append_of_le_length reach]
  exact List.mem_append_right _ List.mem_cons_self

-- The last ones before the second place hold no copy, so they all lie after the first.
theorem spaced_between (spaced : Spaced width (before ++ m :: between ++ m :: after)) :
    width ≤ between.countP (· ≠ m) := by
  have absent := spaced (before ++ m :: between) m after (by simp)
  have inside : width ≤ between.length := Nat.le_of_not_lt fun few => absent (mem_rtake few)
  have start : (before ++ m :: between).rtake width = between.rtake width := by
    have split : (before ++ m :: between).length - width =
        (before ++ [m]).length + (between.length - width) := by
      simp only [List.length_append,List.length_cons,List.length_nil]; omega
    rw [List.rtake,split,List.append_cons before m between,List.drop_length_add_append]
    rfl
  rw [start] at absent
  have others : ∀ x ∈ between.rtake width, decide (x ≠ m) = true := by
    intro x present
    exact decide_eq_true fun same => absent (same ▸ present)
  calc width = (between.rtake width).length := by rw [rtake_length]; omega
    _ = (between.rtake width).countP (· ≠ m) := (List.countP_eq_length.mpr others).symm
    _ ≤ between.countP (· ≠ m) := (List.drop_sublist _ _).countP_le

end Harbour.Window
