import Harbour.Proofs.Ledger
import Harbour.Proofs.Usage

namespace Harbour

namespace History

def ofKind (h : History) (kind : Kind) : Nat := h.entries.countP fun e => e.kind = kind

theorem ofKind_snoc (h : History) (w : Record) (kind : Kind) :
    ofKind (h ++ [w]) kind = h.ofKind kind + if (h.entry w).kind = kind then 1 else 0 := by
  rw [ofKind,entries_snoc,List.countP_append,List.countP_singleton]
  simp only [decide_eq_true_eq]
  rfl

theorem ofKind_all (h : History) : h.ofKind .created + h.ofKind .updated = h.length := by
  induction h using List.reverseRecOn with
  | nil => rfl
  | append_singleton earlier w ih =>
      rw [ofKind_snoc,ofKind_snoc,List.length_append,List.length_singleton,← ih]
      cases (entry earlier w).kind <;> simp <;> omega

end History

namespace Metrics

def refused (m : Metrics) : Nat := m.unauthorized.toNat + m.notFound.toNat + m.exhausted.toNat

theorem recordCommit_counts (m : Metrics) (kind : Kind) (operations : m.operations.toNat + 1 < 0x10000000000000000)
    (created : m.created.toNat ≤ m.operations.toNat) (updated : m.updated.toNat ≤ m.operations.toNat) :
    ∃ next, m.recordCommit kind = .ok next ∧ next.operations.toNat = m.operations.toNat + 1 ∧
      next.created.toNat = m.created.toNat + (if kind = .created then 1 else 0) ∧
      next.updated.toNat = m.updated.toNat + (if kind = .updated then 1 else 0) ∧ next.refused = m.refused := by
  obtain ⟨counted,one⟩ := Checked.add_one operations
  unfold recordCommit
  cases kind with
  | created =>
      obtain ⟨added,more⟩ := Checked.add_one (show m.created.toNat + 1 < 0x10000000000000000 by omega)
      simp only [counted,added,bind,Except.bind]
      exact ⟨_,rfl,one,more,rfl,rfl⟩
  | updated =>
      obtain ⟨added,more⟩ := Checked.add_one (show m.updated.toNat + 1 < 0x10000000000000000 by omega)
      simp only [counted,added,bind,Except.bind]
      exact ⟨_,rfl,one,rfl,more,rfl⟩

theorem recordRefusal_counts (m : Metrics) (refusal : Refusal)
    (operations : m.operations.toNat + 1 < 0x10000000000000000) (refused : m.refused ≤ m.operations.toNat) :
    ∃ next, m.recordRefusal refusal = .ok next ∧ next.operations.toNat = m.operations.toNat + 1 ∧
      next.created = m.created ∧ next.updated = m.updated ∧ next.refused = m.refused + 1 := by
  obtain ⟨counted,one⟩ := Checked.add_one operations
  unfold Metrics.refused at refused ⊢
  unfold recordRefusal
  cases refusal with
  | unauthorized caller =>
      obtain ⟨added,more⟩ := Checked.add_one (show m.unauthorized.toNat + 1 < 0x10000000000000000 by omega)
      simp only [counted,added,bind,Except.bind]
      exact ⟨_,rfl,one,rfl,rfl,by dsimp only; omega⟩
  | notFound id =>
      obtain ⟨added,more⟩ := Checked.add_one (show m.notFound.toNat + 1 < 0x10000000000000000 by omega)
      simp only [counted,added,bind,Except.bind]
      exact ⟨_,rfl,one,rfl,rfl,by dsimp only; omega⟩
  | exhausted limit =>
      obtain ⟨added,more⟩ := Checked.add_one (show m.exhausted.toNat + 1 < 0x10000000000000000 by omega)
      simp only [counted,added,bind,Except.bind]
      exact ⟨_,rfl,one,rfl,rfl,by dsimp only; omega⟩

end Metrics

namespace Scenario.Load

structure Accounts (l : Ledger) (count : Nat) (run : Run) : Prop where
  registry : run.registry = l.registry
  operations : run.metrics.operations.toNat = count
  created : run.metrics.created.toNat = l.writes.ofKind .created
  updated : run.metrics.updated.toNat = l.writes.ofKind .updated
  refused : run.metrics.refused + l.writes.length = count
  model : ∀ id, run.model.get? id = (l.writes.latest id).map Record.details

-- The time of an operation, as long as the clock goes that far.
def clock (load : Load) (position : Nat) : Int64 := Int64.ofInt (load.baseTime.toInt + position)

def stepsFrom (load : Load) (position : Nat) : List Operation → List Step
  | [] => []
  | op :: rest => .call (load.call op (load.clock position)) :: load.stepsFrom (position + 1) rest

theorem fresh_accounts (c : Config) : Accounts (.opened c) 0 ⟨.deploy c,.zero,.empty⟩ :=
  ⟨(Ledger.opened_registry c).symm,rfl,rfl,rfl,rfl,fun _ => rfl⟩

variable {load : Load} {l : Ledger} {run next last : Run} {position : Nat} {op : Operation} {ops : List Operation}

theorem step_call (ran : load.step run position op = .ok next) :
    let call := load.call op (load.clock position)
    (∃ refusal, run.registry.apply call = (.error refusal,next.registry) ∧
      run.metrics.recordRefusal refusal = .ok next.metrics) ∨
    ∃ id, run.registry.apply call = (.ok id,next.registry) ∧
      countCommit run.metrics next.registry id = .ok next.metrics := by
  obtain ⟨time,timed,⟨refusal,metrics,refused,counted,rfl⟩ | ⟨id,registry,metrics,written,counted,rfl⟩⟩ :=
    step_parts ran
  · obtain ⟨rfl,_⟩ := Checked.after_ok timed
    refine .inl ⟨refusal,?_,counted⟩
    rw [Registry.apply_of_commit,clock,refused]
  · obtain ⟨rfl,_⟩ := Checked.after_ok timed
    refine .inr ⟨id,?_,counted⟩
    rw [Registry.apply_of_commit,clock,written]

theorem step_registry (ran : load.step run position op = .ok next) :
    next.registry = (run.registry.step (.call (load.call op (load.clock position)))).2 := by
  rw [Registry.step]
  rcases step_call ran with ⟨_,called,_⟩ | ⟨_,called,_⟩
  · rw [called]
  · rw [called]

theorem applyFrom_registry (ran : load.applyFrom run position ops = .ok last) :
    last.registry = (run.registry.run (load.stepsFrom position ops)).2 := by
  induction ops generalizing run position with
  | nil => cases ran; rfl
  | cons op rest ih =>
      obtain ⟨next,stepped,ran⟩ := bind_ok.mp ran
      rw [ih ran,stepsFrom,Registry.run_cons,step_registry stepped]

theorem countCommit_kind {r : Registry} {id : EventId} {e : Entry} (m : Metrics)
    (found : (r.event? id).map Event.entry = some e) : countCommit m r id = m.recordCommit e.kind := by
  obtain ⟨event,logged,rfl⟩ := Option.map_eq_some_iff.mp found
  rw [countCommit,logged]

theorem step_accounts (load : Load) (sound : l.Sound) (accounts : Accounts l position run) (op : Operation)
    (small : position + 1 < 0x10000000000000000)
    (timely : load.baseTime.toInt + position < 0x8000000000000000) :
    ∃ next, load.step run position op = .ok next ∧
      Accounts (l.write (load.call op (load.clock position))).2 (position + 1) next := by
  obtain ⟨registry,operations,created,updated,refused,model⟩ := accounts
  have kinds := l.writes.ofKind_all
  have timed : Checked.after load.baseTime position = .ok (load.clock position) := if_pos timely
  unfold step
  rw [registry]
  rcases Ledger.commit_cases sound (load.call op (load.clock position)) with
    ⟨refusal,rejected,same⟩ | ⟨committed,grown⟩
  · obtain ⟨next,counted,more,stays,stays',added⟩ :=
      run.metrics.recordRefusal_counts refusal (by omega) (by omega)
    rw [same]
    simp only [timed,rejected,counted,bind,Except.bind]
    refine ⟨_,rfl,rfl,?_,?_,?_,?_,model⟩
    · exact more.trans (congrArg (· + 1) operations)
    · exact (congrArg UInt64.toNat stays).trans created
    · exact (congrArg UInt64.toNat stays').trans updated
    · change next.refused + l.writes.length = position + 1
      omega
  · rw [grown] at committed ⊢
    have found : (({ l with writes := l.writes ++ [(load.call op (load.clock position)).record] } :
        Ledger).registry.event? (Log.idAt l.writes.length)).map Event.entry = _ :=
      Ledger.event_found l.writes _ [] rfl (by omega)
    obtain ⟨next,counted,more,first,again,stays⟩ :=
      run.metrics.recordCommit_counts (l.writes.entry (load.call op (load.clock position)).record).kind
        (by omega) (by omega) (by omega)
    rw [← countCommit_kind run.metrics found] at counted
    simp only [timed,committed,counted,bind,Except.bind]
    refine ⟨_,rfl,rfl,?_,?_,?_,?_,?_⟩
    · exact more.trans (congrArg (· + 1) operations)
    · rw [History.ofKind_snoc,← created]
      exact first
    · rw [History.ofKind_snoc,← updated]
      exact again
    · change next.refused + (l.writes ++ [_]).length = position + 1
      rw [List.length_append,List.length_singleton,stays]
      omega
    · intro id
      change (run.model.put op.id op.details).get? id = _
      rw [Table.get?_put,History.latest_snoc,model]
      change _ = (if id = op.id then _ else _ : Option Record).map Record.details
      split
      · rfl
      · rfl

theorem applyFrom_accounts (load : Load) (sound : l.Sound) (accounts : Accounts l position run)
    (ops : List Operation) (small : position + ops.length < 0x10000000000000000)
    (timely : load.baseTime.toInt + (position + ops.length : Nat) ≤ 0x8000000000000000) :
    ∃ last, load.applyFrom run position ops = .ok last ∧
      Accounts (l.run (load.stepsFrom position ops)).2 (position + ops.length) last := by
  induction ops generalizing l run position with
  | nil => exact ⟨run,rfl,accounts⟩
  | cons op rest ih =>
      rw [List.length_cons] at small timely ⊢
      obtain ⟨next,stepped,kept⟩ := step_accounts load sound accounts op (by omega) (by omega)
      have after := Ledger.step_sound sound (.call (load.call op (load.clock position)))
      obtain ⟨last,ran,ended⟩ := ih after kept (by omega) (by omega)
      refine ⟨last,?_,?_⟩
      · simp only [applyFrom,stepped,bind,Except.bind]
        exact ran
      · rw [Nat.add_right_comm,Nat.add_assoc] at ended
        exact ended

theorem apply_accounts (load : Load) (c : Config) (ops : List Operation)
    (small : ops.length < 0x10000000000000000)
    (timely : load.baseTime.toInt + ops.length ≤ 0x8000000000000000) :
    ∃ last, load.apply (.deploy c) ops = .ok last ∧
      Accounts ((Ledger.opened c).run (load.stepsFrom 0 ops)).2 ops.length last := by
  have ran := applyFrom_accounts load (Ledger.opened_sound c) (fresh_accounts c) ops (by omega) (by omega)
  rwa [Nat.zero_add] at ran

end Scenario.Load

end Harbour
