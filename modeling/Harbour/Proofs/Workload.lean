import Harbour.Workload

namespace Harbour

namespace Random

def Probability (p : Float) : Prop := p == 1 ∨ 0 ≤ p ∧ p < 1

-- All that is asked of draws. Which values come up is left open.
structure Fair (σ : Type) [Dice σ] : Prop where
  chance : ∀ (p : Float) (s : σ), Probability p → ∃ yes next, Dice.chance p s = .ok (yes,next)
  upTo : ∀ (high : UInt64) (s : σ), high ≠ 0 →
    1 ≤ (Dice.upTo high s).1.toNat ∧ (Dice.upTo high s).1.toNat ≤ high.toNat
  choose : ∀ {α : Type} (first : α) (rest : List α) (s : σ), (Dice.choose first rest s).1 ∈ first :: rest

namespace Draw
variable {σ : Type}

theorem below_lt (take : σ → Nat × σ) (bits range fuel : Nat) (s : σ)
    (words : ∀ s, (take s).1 < Nat.pow 2 bits) (positive : 0 < range) :
    (below take bits range fuel s).1 < range := by
  induction fuel generalizing s with
  | zero => exact positive
  | succ fuel ih =>
      unfold below
      split
      rename_i w next drawn
      have word : w < Nat.pow 2 bits := by
        have bound := words s
        rwa [drawn] at bound
      dsimp only
      split
      · exact Nat.div_lt_of_lt_mul (Nat.mul_lt_mul_of_pos_right word positive)
      · exact ih next

variable [Source σ]

theorem chance_accepts (p : Float) (s : σ) (accepted : Probability p) :
    ∃ yes next, chance p s = .ok (yes,next) := by
  unfold chance
  by_cases certain : (p == 1) = true
  · rw [if_pos certain]
    exact ⟨true,s,rfl⟩
  · rw [if_neg certain,if_pos (accepted.resolve_left certain)]
    exact ⟨_,_,rfl⟩

theorem upTo_bounds (high : UInt64) (s : σ) (positive : high ≠ 0) :
    1 ≤ (upTo high s).1.toNat ∧ (upTo high s).1.toNat ≤ high.toNat := by
  have range : 0 < high.toNat := by
    refine Nat.pos_of_ne_zero ?_
    intro zero
    exact positive (UInt64.toNat_inj.mp zero)
  have below := below_lt wide 64 high.toNat period s (fun s => (word64 s).1.toNat_lt) range
  have bound := high.toNat_lt
  unfold upTo
  simp only [UInt64.toNat_ofNat']
  rw [Nat.mod_eq_of_lt (by omega)]
  omega

theorem choose_mem {α : Type} (first : α) (rest : List α) (s : σ) :
    (choose first rest s).1 ∈ first :: rest := by
  have inside := below_lt narrow 32 (first :: rest).length period s
    (fun s => (Source.next s).1.toNat_lt) (Nat.succ_pos _)
  change (first :: rest).getD (below narrow 32 (first :: rest).length period s).1 first ∈ first :: rest
  rw [List.getD_eq_getElem?_getD,List.getElem?_eq_getElem inside]
  exact List.getElem_mem inside

end Draw

theorem source_fair (σ : Type) [Source σ] : Fair σ :=
  ⟨Draw.chance_accepts,Draw.upTo_bounds,Draw.choose_mem⟩

end Random

namespace Workload

-- Above the pool there has to be room for as many numbers again.
structure Drawable (w : Workload) : Prop where
  intruder : Random.Probability w.intruderRatio
  update : Random.Probability w.updateRatio
  missing : Random.Probability w.missingRatio
  pool : w.pool.toNat < 0x8000000000000000

variable {σ : Type} [Random.Dice σ] {w : Workload}

theorem poolSize_positive (w : Workload) : w.poolSize ≠ 0 := by
  unfold poolSize
  split
  · decide
  · assumption

theorem drawId_total (fair : Random.Fair σ) (drawable : w.Drawable) (past : Bool) (s : σ) :
    ∃ id next, w.drawId past s = .ok (id,next) := by
  have size : w.poolSize.toNat < 0x8000000000000000 := by
    unfold poolSize
    split
    · decide
    · exact drawable.pool
  have bounds := fair.upTo w.poolSize s w.poolSize_positive
  cases past with
  | false => exact ⟨_,_,rfl⟩
  | true =>
      have fits : w.poolSize.toNat + (Random.Dice.upTo w.poolSize s).1.toNat < 0x10000000000000000 := by omega
      refine ⟨⟨w.poolSize + (Random.Dice.upTo w.poolSize s).1⟩,(Random.Dice.upTo w.poolSize s).2,?_⟩
      unfold drawId Checked.add
      simp only [if_pos fits]
      rfl

theorem next_total (fair : Random.Fair σ) (drawable : w.Drawable) (s : σ) :
    ∃ op next, w.next s = .ok (op,next) := by
  obtain ⟨intrudes,one,intruder⟩ := fair.chance w.intruderRatio s drawable.intruder
  obtain ⟨updates,two,update⟩ := fair.chance w.updateRatio one drawable.update
  unfold next
  cases updates with
  | false =>
      obtain ⟨id,three,drawn⟩ := drawId_total fair drawable false two
      simp only [intruder,update,drawn,bind,Except.bind]
      exact ⟨_,_,rfl⟩
  | true =>
      obtain ⟨past,three,missing⟩ := fair.chance w.missingRatio two drawable.missing
      obtain ⟨id,four,drawn⟩ := drawId_total fair drawable past three
      simp only [intruder,update,missing,drawn,bind,Except.bind]
      exact ⟨_,_,rfl⟩

theorem take_total (fair : Random.Fair σ) (drawable : w.Drawable) (count : Nat) (s : σ) :
    ∃ ops next, w.take count s = .ok (ops,next) ∧ ops.length = count := by
  induction count generalizing s with
  | zero => exact ⟨[],s,rfl,rfl⟩
  | succ count ih =>
      obtain ⟨op,one,drawn⟩ := next_total fair drawable s
      obtain ⟨rest,two,taken,length⟩ := ih one
      refine ⟨op :: rest,two,?_,by rw [List.length_cons,length]⟩
      simp only [take,drawn,taken,bind,Except.bind]
      rfl

end Workload

end Harbour
