import Harbour.Proofs.Accounting
import Harbour.Proofs.Consistency
import Harbour.Proofs.Workload

namespace Harbour.Scenario

-- The registry is the one that the calls of the drawn operations lead to.
structure Load.Outcome.Clean (o : Load.Outcome) (load : Load) (ops : List Operation) : Prop where
  registry : o.run.registry = ((Registry.new load.owner).run (load.stepsFrom 0 ops)).2
  passed : o.result.passed = true
  details : o.result.details = "ok"
  operations : o.result.operations = load.workload.operations
  events : o.result.eventsEmitted.toNat = o.run.registry.eventCount
  committed : o.run.metrics.committed = .ok o.result.eventsEmitted
  rejected : ∃ rejected, o.run.metrics.rejected = .ok rejected
  checked : Consistency.check o.run.registry = []
  size : o.run.model.size = o.run.registry.recordCount
  model : ∀ id, o.run.model.get? id = (o.run.registry.get id).toOption.map Record.details

namespace Load

variable {l : Ledger} {run : Run} {count : Nat}

theorem events_counted (accounts : Accounts l count run) : run.registry.eventCount = l.writes.length := by
  rw [accounts.registry]
  exact l.writes.events_length

theorem committed_exact (accounts : Accounts l count run) (small : count < 0x10000000000000000) :
    run.metrics.committed = .ok (UInt64.ofNat run.registry.eventCount) := by
  have kinds := l.writes.ofKind_all
  have total := accounts.refused
  have first := accounts.created
  have again := accounts.updated
  obtain ⟨added,sum⟩ := Checked.add_fits
    (show run.metrics.created.toNat + run.metrics.updated.toNat < 0x10000000000000000 by omega)
  have same : run.metrics.created + run.metrics.updated = UInt64.ofNat run.registry.eventCount := by
    apply UInt64.toNat_inj.mp
    rw [sum,events_counted accounts,UInt64.toNat_ofNat',Nat.mod_eq_of_lt (by omega)]
    omega
  exact added.trans (congrArg _ same)

theorem rejected_total (accounts : Accounts l count run) (small : count < 0x10000000000000000) :
    ∃ rejected, run.metrics.rejected = .ok rejected := by
  have total := accounts.refused
  unfold Metrics.refused at total
  obtain ⟨added,sum⟩ := Checked.add_fits
    (show run.metrics.unauthorized.toNat + run.metrics.notFound.toNat < 0x10000000000000000 by omega)
  obtain ⟨all,_⟩ := Checked.add_fits (a := run.metrics.unauthorized + run.metrics.notFound)
    (b := run.metrics.exhausted) (by omega)
  refine ⟨run.metrics.unauthorized + run.metrics.notFound + run.metrics.exhausted,?_⟩
  unfold Metrics.rejected
  rw [added]
  exact all

theorem model_exact (accounts : Accounts l count run) (id : VoyageId) :
    run.model.get? id = (run.registry.get id).toOption.map Record.details := by
  rw [accounts.model,accounts.registry,Ledger.registry,Registry.get_after,History.fetch]
  cases l.writes.latest id <;> rfl

theorem model_size (accounts : Accounts l count run) : run.model.size = run.registry.recordCount := by
  have keys : ∀ id, id ∈ run.model.keys ↔ id ∈ l.writes.ids := by
    intro id
    rw [Table.mem_keys,accounts.model,Option.isSome_map,← History.table_get,← Table.mem_keys,
      History.mem_table_keys]
  rw [accounts.registry]
  exact (Table.size_eq_dedup _ _ keys).trans (Table.size_eq_dedup _ _ l.writes.mem_table_keys).symm

theorem nothing_differs (accounts : Accounts l count run) {id : VoyageId} {details : Details}
    (present : (id,details) ∈ run.model.entries) : compare run.registry id details = [] := by
  have held := Table.get?_of_mem run.model present
  rw [model_exact accounts] at held
  unfold compare
  cases found : run.registry.get id with
  | error refusal => rw [found] at held; cases held
  | ok record =>
      rw [found] at held
      exact if_pos (Option.some.inj held)

theorem failures_none (sound : l.Sound) (accounts : Accounts l count run) (small : count < 0x10000000000000000) :
    failures run = .ok [] := by
  have checked : Consistency.check run.registry = [] := accounts.registry ▸ Consistency.check_registry sound
  have compared : ∀ id details, (id,details) ∈ run.model.entries → compare run.registry id details = [] :=
    fun _ _ present => nothing_differs accounts present
  unfold failures
  simp only [committed_exact accounts small,checked,model_size accounts,bind,Except.bind]
  simpa [expect,pure,Except.pure] using compared

theorem judge_clean {load : Load} {ops : List Operation} (sound : l.Sound)
    (accounts : Accounts l load.workload.operations.toNat run)
    (ran : load.apply (.new load.owner) ops = .ok run) : ∃ o, judge run = .ok o ∧ o.Clean load ops := by
  have small := load.workload.operations.toNat_lt
  unfold judge
  rw [failures_none sound accounts small]
  refine ⟨_,rfl,applyFrom_registry ran,rfl,rfl,UInt64.toNat_inj.mp accounts.operations,?_,committed_exact accounts small,
    rejected_total accounts small,accounts.registry ▸ Consistency.check_registry sound,
    model_size accounts,model_exact accounts⟩
  have total := accounts.refused
  change (UInt64.ofNat run.registry.eventCount).toNat = run.registry.eventCount
  rw [UInt64.toNat_ofNat']
  refine Nat.mod_eq_of_lt ?_
  rw [events_counted accounts]
  omega

theorem runFrom_clean {σ : Type} [Random.Dice σ] (fair : Random.Fair σ) (load : Load)
    (drawable : load.workload.Drawable)
    (timely : load.baseTime.toInt + load.workload.operations.toNat ≤ 0x8000000000000000) (s : σ) :
    ∃ ops next o, load.workload.take load.workload.operations.toNat s = .ok (ops,next) ∧
      ops.length = load.workload.operations.toNat ∧ load.runFrom s = .ok o ∧ o.Clean load ops := by
  obtain ⟨ops,next,drawn,length⟩ := Workload.take_total fair drawable load.workload.operations.toNat s
  have small := load.workload.operations.toNat_lt
  obtain ⟨last,applied,accounts⟩ := load.apply_accounts (.new load.owner) ops (by omega) (by rw [length]; exact timely)
  rw [length] at accounts
  obtain ⟨o,judged,clean⟩ := judge_clean (Ledger.run_sound (Ledger.opened_sound _) _) accounts applied
  refine ⟨ops,next,o,drawn,length,?_,clean⟩
  unfold runFrom
  simp only [drawn,bind,Except.bind]
  rw [show load.apply (.new load.owner) ops = .ok last from applied]
  exact judged

end Load

end Harbour.Scenario
