import Harbour.Proofs.Tally

namespace Harbour

namespace Workload

def sized (w : Workload) (operations : UInt64) : Workload := { w with operations }

variable {σ : Type} [Random.Dice σ] {w : Workload} {s next : σ} {ops : List Operation}

theorem take_sized (w : Workload) (operations : UInt64) (count : Nat) (s : σ) :
    (w.sized operations).take count s = w.take count s := by
  induction count generalizing s with
  | zero => rfl
  | succ count ih =>
      simp only [take,ih]
      rfl

theorem take_length {count : Nat} (drawn : w.take count s = .ok (ops,next)) : ops.length = count := by
  induction count generalizing s ops with
  | zero => cases drawn; rfl
  | succ count ih =>
      obtain ⟨⟨op,middle⟩,_,drawn⟩ := bind_ok.mp drawn
      obtain ⟨⟨rest,last⟩,later,same⟩ := bind_ok.mp drawn
      cases same
      exact congrArg (· + 1) (ih later)

-- Calls of `next` made one by one, with what each gave. Nothing here knows how
-- many are wanted.
inductive Draws (w : Workload) : σ → List Operation → σ → Prop where
  | none {s : σ} : w.Draws s [] s
  | call {s middle last : σ} {op : Operation} {ops : List Operation} (drawn : w.next s = .ok (op,middle))
      (later : w.Draws middle ops last) : w.Draws s (op :: ops) last

theorem take_draws {count : Nat} (drawn : w.take count s = .ok (ops,next)) : w.Draws s ops next := by
  induction count generalizing s ops with
  | zero => cases drawn; exact .none
  | succ count ih =>
      obtain ⟨⟨op,middle⟩,first,drawn⟩ := bind_ok.mp drawn
      obtain ⟨⟨rest,last⟩,later,same⟩ := bind_ok.mp drawn
      cases same
      exact .call first (ih later)

theorem Draws.same {other : List Operation} {last : σ} (drawn : w.Draws s ops next) (again : w.Draws s other last)
    (length : other.length = ops.length) : other = ops ∧ last = next := by
  induction drawn generalizing other with
  | none =>
      cases again with
      | none => exact ⟨rfl,rfl⟩
      | call => cases length
  | call first _ ih =>
      cases again with
      | none => cases length
      | call once later =>
          cases first.symm.trans once
          obtain ⟨rfl,rfl⟩ := ih later (Nat.succ.inj length)
          exact ⟨rfl,rfl⟩

theorem take_add {count more : Nat} (drawn : w.take (count + more) s = .ok (ops,next)) :
    ∃ first middle rest, w.take count s = .ok (first,middle) ∧ w.take more middle = .ok (rest,next) ∧
      ops = first ++ rest := by
  induction count generalizing s ops with
  | zero =>
      simp only [Nat.zero_add] at drawn
      exact ⟨[],s,ops,rfl,drawn,rfl⟩
  | succ count ih =>
      simp only [Nat.add_right_comm count 1 more] at drawn
      obtain ⟨⟨op,one⟩,head,drawn⟩ := bind_ok.mp drawn
      obtain ⟨⟨later,last⟩,tail,same⟩ := bind_ok.mp drawn
      cases same
      obtain ⟨first,middle,rest,started,ended,rfl⟩ := ih tail
      refine ⟨op :: first,middle,rest,?_,ended,rfl⟩
      simp only [take,head,started,bind,Except.bind]
      rfl

-- `ops` is what a workload of `n` draws from `s`, and `rest` what further calls give
-- until there are `m`.
structure Continued (w : Workload) (n m : UInt64) (s last : σ) (ops rest : List Operation) (middle : σ) : Prop where
  shorter : (w.sized n).take n.toNat s = .ok (ops,middle)
  first : (w.sized n).Draws s ops middle
  further : (w.sized n).Draws middle rest last
  length : ops.length = n.toNat
  restLength : rest.length = m.toNat - n.toNat
  only : ∀ others late, (w.sized n).Draws middle others late → others.length = m.toNat - n.toNat →
    others = rest ∧ late = last

theorem take_longer (w : Workload) {n m : UInt64} (longer : n ≤ m)
    (drawn : (w.sized m).take m.toNat s = .ok (ops,next)) :
    ∃ first middle rest, w.Continued n m s next first rest middle ∧ ops = first ++ rest := by
  have parted : n.toNat + (m.toNat - n.toNat) = m.toNat := Nat.add_sub_of_le (UInt64.le_iff_toNat_le.mp longer)
  rw [take_sized,← parted] at drawn
  obtain ⟨first,middle,rest,started,ended,rfl⟩ := take_add drawn
  rw [← take_sized w n] at started ended
  have further := take_draws ended
  have length := take_length ended
  refine ⟨first,middle,rest,⟨started,take_draws started,further,take_length started,length,?_⟩,rfl⟩
  intro others late again same
  exact further.same again (same.trans length.symm)

end Workload

namespace Metrics

-- No count has gone down. The time taken is no count.
structure AtMost (a b : Metrics) : Prop where
  operations : a.operations ≤ b.operations
  created : a.created ≤ b.created
  updated : a.updated ≤ b.updated
  unauthorized : a.unauthorized ≤ b.unauthorized
  notFound : a.notFound ≤ b.notFound
  exhausted : a.exhausted ≤ b.exhausted

theorem AtMost.refl (m : Metrics) : m.AtMost m :=
  ⟨UInt64.le_refl _,UInt64.le_refl _,UInt64.le_refl _,UInt64.le_refl _,UInt64.le_refl _,UInt64.le_refl _⟩

theorem AtMost.trans {a b c : Metrics} (one : a.AtMost b) (two : b.AtMost c) : a.AtMost c where
  operations := UInt64.le_trans one.operations two.operations
  created := UInt64.le_trans one.created two.created
  updated := UInt64.le_trans one.updated two.updated
  unauthorized := UInt64.le_trans one.unauthorized two.unauthorized
  notFound := UInt64.le_trans one.notFound two.notFound
  exhausted := UInt64.le_trans one.exhausted two.exhausted

variable {m next : Metrics}

theorem recordCommit_grows {kind : Kind} (counted : m.recordCommit kind = .ok next) : m.AtMost next := by
  have same := AtMost.refl m
  obtain ⟨operations,more,counted⟩ := bind_ok.mp counted
  cases kind with
  | created =>
      obtain ⟨created,added,done⟩ := bind_ok.mp counted
      cases done
      exact { same with operations := Checked.add_grows more, created := Checked.add_grows added }
  | updated =>
      obtain ⟨updated,added,done⟩ := bind_ok.mp counted
      cases done
      exact { same with operations := Checked.add_grows more, updated := Checked.add_grows added }

theorem recordRefusal_grows {refusal : Refusal} (counted : m.recordRefusal refusal = .ok next) : m.AtMost next := by
  have same := AtMost.refl m
  obtain ⟨operations,more,counted⟩ := bind_ok.mp counted
  cases refusal with
  | unauthorized caller =>
      obtain ⟨unauthorized,added,done⟩ := bind_ok.mp counted
      cases done
      exact { same with operations := Checked.add_grows more, unauthorized := Checked.add_grows added }
  | notFound id =>
      obtain ⟨notFound,added,done⟩ := bind_ok.mp counted
      cases done
      exact { same with operations := Checked.add_grows more, notFound := Checked.add_grows added }
  | exhausted limit =>
      obtain ⟨exhausted,added,done⟩ := bind_ok.mp counted
      cases done
      exact { same with operations := Checked.add_grows more, exhausted := Checked.add_grows added }

end Metrics

namespace Scenario

namespace Load

structure Run.Continues (later earlier : Run) : Prop where
  registry : earlier.registry.Extends later.registry
  pending : earlier.registry.pending <+: later.registry.pending
  metrics : earlier.metrics.AtMost later.metrics

theorem Run.Continues.refl (run : Run) : run.Continues run :=
  ⟨.refl _,List.prefix_refl _,.refl _⟩

theorem Run.Continues.trans {one two three : Run} (last : three.Continues two) (first : two.Continues one) :
    three.Continues one :=
  ⟨first.registry.trans last.registry,first.pending.trans last.pending,first.metrics.trans last.metrics⟩

variable {load : Load} {run next last : Run} {position : Nat} {op : Operation} {ops : List Operation}

theorem step_continues (ran : load.step run position op = .ok next) : next.Continues run := by
  obtain ⟨time,_,⟨refusal,metrics,_,counted,rfl⟩ | ⟨id,registry,metrics,written,counted,rfl⟩⟩ := step_parts ran
  · exact ⟨.refl _,List.prefix_refl _,Metrics.recordRefusal_grows counted⟩
  · obtain ⟨_,event,_,rfl⟩ := Registry.commit_enters written
    refine ⟨run.registry.install_extends event _,List.prefix_append _ _,?_⟩
    unfold countCommit at counted
    split at counted
    · exact Metrics.recordCommit_grows counted
    · cases counted; exact .refl _

theorem applyFrom_continues (ran : load.applyFrom run position ops = .ok last) : last.Continues run := by
  refine applyFrom_keeps (P := fun _ now => now.Continues run) (.refl _) ?_ ran
  intro _ _ _ _ _ stepped before
  exact (step_continues stepped).trans before

def sized (load : Load) (operations : UInt64) : Load := { load with workload := load.workload.sized operations }

theorem applyFrom_sized (load : Load) (operations : UInt64) (run : Run) (position : Nat) (ops : List Operation) :
    (load.sized operations).applyFrom run position ops = load.applyFrom run position ops := by
  induction ops generalizing run position with
  | nil => rfl
  | cons op rest ih =>
      simp only [applyFrom,ih]
      rfl

theorem accounts_of_apply {c : Config} (small : ops.length < 0x10000000000000000)
    (ran : load.apply (.deploy c) ops = .ok last) :
    Accounts ((Ledger.opened c).run (load.stepsFrom 0 ops)).2 ops.length last := by
  by_cases timely : load.baseTime.toInt + ops.length ≤ 0x8000000000000000
  · obtain ⟨ended,applied,accounts⟩ := load.apply_accounts c ops small timely
    cases applied.symm.trans ran
    exact accounts
  · cases (load.apply_overflows ops small (by omega)).symm.trans ran

theorem judge_run {o : Outcome} (judged : judge run = .ok o) : o.run = run := by
  obtain ⟨found,_,same⟩ := bind_ok.mp judged
  cases same; rfl

theorem runFrom_parts {σ : Type} [Random.Dice σ] {s : σ} {o : Outcome} (ended : load.runFrom s = .ok o) :
    ∃ ops next, load.workload.take load.workload.operations.toNat s = .ok (ops,next) ∧
      load.apply (.new load.owner) ops = .ok o.run := by
  obtain ⟨⟨ops,next⟩,drawn,ended⟩ := bind_ok.mp ended
  obtain ⟨run,ran,judged⟩ := bind_ok.mp ended
  cases judge_run judged
  exact ⟨ops,next,drawn,ran⟩

-- A run that came to its end is not stopped by what is checked after it.
theorem runFrom_of_apply {σ : Type} [Random.Dice σ] {s next : σ}
    (drawn : load.workload.take load.workload.operations.toNat s = .ok (ops,next))
    (ran : load.apply (.new load.owner) ops = .ok run) : ∃ o, load.runFrom s = .ok o ∧ o.run = run := by
  have length := Workload.take_length drawn
  have small := load.workload.operations.toNat_lt
  have accounts := accounts_of_apply (c := .new load.owner) (by omega) ran
  rw [length] at accounts
  obtain ⟨o,judged,_⟩ := judge_clean (Ledger.run_sound (Ledger.opened_sound _) _) accounts ran
  refine ⟨o,?_,judge_run judged⟩
  unfold runFrom
  simp only [drawn,ran,bind,Except.bind]
  exact judged

theorem runFrom_longer {σ : Type} [Random.Dice σ] {s : σ} {whole : Outcome} (load : Load) {n m : UInt64}
    (longer : n ≤ m) (ended : (load.sized m).runFrom s = .ok whole) :
    ∃ part, (load.sized n).runFrom s = .ok part ∧ whole.run.Continues part.run := by
  obtain ⟨ops,next,drawn,ran⟩ := runFrom_parts ended
  obtain ⟨first,middle,rest,continued,rfl⟩ := load.workload.take_longer longer drawn
  simp only [apply,applyFrom_sized,applyFrom_append] at ran
  obtain ⟨run,reached,ran⟩ := bind_ok.mp ran
  have begun : (load.sized n).apply (.new load.owner) first = .ok run := (applyFrom_sized _ _ _ _ _).trans reached
  obtain ⟨part,ended,rfl⟩ : ∃ part, (load.sized n).runFrom s = .ok part ∧ part.run = run :=
    runFrom_of_apply continued.shorter begun
  exact ⟨part,ended,applyFrom_continues ran⟩

end Load

-- That the longer load comes to its end is enough for both to do so.
theorem longer_load_continues {σ : Type} [Random.Dice σ] (load : Load) {n m : UInt64} (longer : n ≤ m) :
    (∀ (s last : σ) all, (load.sized m).workload.take m.toNat s = .ok (all,last) →
      all.length = m.toNat ∧ ∃ ops middle rest,
        load.workload.Continued n m s last ops rest middle ∧ all = ops ++ rest) ∧
    (∀ (s : σ) whole, (load.sized m).runFrom s = .ok whole →
      ∃ part, (load.sized n).runFrom s = .ok part ∧ whole.run.Continues part.run) ∧
    ∀ whole, (load.sized m).run = .ok whole →
      ∃ part, (load.sized n).run = .ok part ∧ whole.run.Continues part.run := by
  refine ⟨?_,?_,?_⟩
  · intro s last all drawn
    exact ⟨Workload.take_length drawn,load.workload.take_longer longer drawn⟩
  · intro s whole ended
    exact load.runFrom_longer longer ended
  · -- Both seeds are the same, and so is what is drawn from.
    intro whole ended
    exact load.runFrom_longer longer ended

theorem longer_load_continues_usual :
    let source := Load.usual.workload.source
    (400 : UInt64) ≤ 1000 ∧
      (∃ all ops rest middle last, (Load.usual.sized 1000).workload.take 1000 source = .ok (all,last) ∧
        all.length = 1000 ∧ Load.usual.workload.Continued 400 1000 source last ops rest middle ∧
        ops.length = 400 ∧ rest.length = 600 ∧ all = ops ++ rest) ∧
      ∃ whole part, (Load.usual.sized 1000).run = .ok whole ∧ (Load.usual.sized 400).run = .ok part ∧
        whole.run.Continues part.run := by
  intro source
  have fair := Random.source_fair Random.ChaCha
  have drawable : (Load.usual.sized 1000).workload.Drawable := by
    refine ⟨.inr ?_,.inr ?_,.inr ?_,?_⟩
    all_goals decide
  have longer : (400 : UInt64) ≤ 1000 := by decide
  obtain ⟨draws,_,runs⟩ := longer_load_continues (σ := Random.ChaCha) Load.usual longer
  refine ⟨longer,?_,?_⟩
  · obtain ⟨all,last,drawn,_⟩ := Workload.take_total fair drawable 1000 source
    obtain ⟨length,ops,middle,rest,continued,parted⟩ := draws source last all drawn
    exact ⟨all,ops,rest,middle,last,drawn,length,continued,continued.length,continued.restLength,parted⟩
  · obtain ⟨_,_,whole,_,_,ended,_⟩ := Load.runFrom_clean fair (Load.usual.sized 1000) drawable (by decide) source
    obtain ⟨part,begun,continues⟩ := runs whole ended
    exact ⟨whole,part,ended,begun,continues⟩

end Scenario

end Harbour
