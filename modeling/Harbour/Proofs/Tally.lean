import Harbour.Proofs.Accounting
import Harbour.Proofs.Growth
import Harbour.Proofs.Load

namespace Harbour

inductive Cause where
  | stranger
  | missing
  | full
deriving DecidableEq

def Refusal.cause : Refusal → Cause
  | .unauthorized _ => .stranger
  | .notFound _ => .missing
  | .exhausted _ => .full

def Reply.cause? : Reply → Option Cause
  | .outcome (.error refusal) => some refusal.cause
  | .outcome (.ok _) => none
  | .batch _ => none

namespace Registry

theorem step_cause_stranger (r : Registry) (call : Call) :
    (r.step (.call call)).1.cause? = some .stranger ↔ call.caller ≠ r.owner := by
  rw [step,apply_of_commit,commit_exact]
  by_cases stranger : call.caller ≠ r.owner
  · rw [if_pos stranger]
    exact ⟨fun _ => stranger,fun _ => rfl⟩
  · rw [if_neg stranger]
    refine ⟨fun named => absurd named ?_,fun other => absurd other stranger⟩
    by_cases missing : call.mode = .update ∧ r.holds call.id = false
    · rw [if_pos missing]
      intro same; cases same
    · rw [if_neg missing]
      cases staged : r.log.stage (call.entry (r.kindOf call.id)) with
      | ok event => intro same; cases same
      | error why =>
          cases Log.stage_refusal staged
          intro same; cases same

end Registry

namespace Metrics

def refusedFor (m : Metrics) : Cause → UInt64
  | .stranger => m.unauthorized
  | .missing => m.notFound
  | .full => m.exhausted

variable {m next : Metrics}

theorem recordCommit_refusedFor {kind : Kind} (counted : m.recordCommit kind = .ok next) (cause : Cause) :
    next.refusedFor cause = m.refusedFor cause := by
  unfold recordCommit at counted
  obtain ⟨operations,_,counted⟩ := bind_ok.mp counted
  cases kind with
  | created =>
      obtain ⟨created,_,same⟩ := bind_ok.mp counted
      cases same
      cases cause <;> rfl
  | updated =>
      obtain ⟨updated,_,same⟩ := bind_ok.mp counted
      cases same
      cases cause <;> rfl

theorem recordRefusal_refusedFor {refusal : Refusal} (counted : m.recordRefusal refusal = .ok next) (cause : Cause) :
    (next.refusedFor cause).toNat = (m.refusedFor cause).toNat + if refusal.cause = cause then 1 else 0 := by
  unfold recordRefusal at counted
  obtain ⟨operations,_,counted⟩ := bind_ok.mp counted
  cases refusal with
  | unauthorized caller =>
      obtain ⟨more,added,same⟩ := bind_ok.mp counted
      cases same
      cases cause with
      | stranger => exact Checked.add_ok added
      | missing => rfl
      | full => rfl
  | notFound id =>
      obtain ⟨more,added,same⟩ := bind_ok.mp counted
      cases same
      cases cause with
      | stranger => rfl
      | missing => exact Checked.add_ok added
      | full => rfl
  | exhausted limit =>
      obtain ⟨more,added,same⟩ := bind_ok.mp counted
      cases same
      cases cause with
      | stranger => rfl
      | missing => rfl
      | full => exact Checked.add_ok added

end Metrics

namespace History

theorem events_ofKind (h : History) (kind : Kind) :
    h.events.countP (fun e => e.entry.kind = kind) = h.ofKind kind := by
  rw [ofKind,← entries_events,List.countP_map]
  rfl

theorem created_records (h : History) : h.ofKind .created = h.table.size := by
  induction h using List.reverseRecOn with
  | nil => rfl
  | append_singleton earlier w ih =>
      have sized : ∀ t : Store, t.size = t.keys.length := fun t => (List.length_map _).symm
      rw [ofKind_snoc,ih,table_snoc,sized,sized,Table.keys_put]
      by_cases again : w.id ∈ ids earlier
      · rw [if_pos ((mem_table_keys _ _).mpr again),entry,if_pos again]; rfl
      · rw [if_neg (mt (mem_table_keys _ _).mp again),entry,if_neg again,List.length_append]; rfl

end History

namespace Scenario

namespace Load

inductive Moved (load : Load) (position : Nat) (op : Operation) (r : Registry) : Registry → Prop where
  | kept : Moved load position op r r
  | entered (event : Event) (words : event.entry = (load.call op (load.clock position)).entry (r.kindOf op.id))
      (time : event.entry.committedAt.toInt = load.baseTime.toInt + position) :
      Moved load position op r (r.install event (load.call op (load.clock position)).record)

structure Timed (load : Load) (position : Nat) (events : List Event) : Prop where
  ascends : events.Pairwise fun a b => a.entry.committedAt < b.entry.committedAt
  past : ∀ e ∈ events, e.entry.committedAt.toInt < load.baseTime.toInt + position

variable {load : Load} {run next last : Run} {position : Nat} {op : Operation} {ops : List Operation}

theorem Moved.extends {r s : Registry} (moved : load.Moved position op r s) : r.Extends s := by
  cases moved with
  | kept => exact .refl r
  | entered event => exact r.install_extends event _

theorem Moved.owner {r s : Registry} (moved : load.Moved position op r s) : s.owner = r.owner := by
  cases moved with
  | kept => rfl
  | entered event => rfl

theorem Moved.timed {r s : Registry} (moved : load.Moved position op r s)
    (timed : load.Timed position r.log.events) : load.Timed (position + 1) s.log.events := by
  have past : ∀ e ∈ r.log.events, e.entry.committedAt.toInt < load.baseTime.toInt + (position + 1 : Nat) := by
    intro e present
    have before := timed.past e present
    omega
  cases moved with
  | kept => exact ⟨timed.ascends,past⟩
  | entered event words time =>
      refine ⟨List.pairwise_append.mpr ⟨timed.ascends,List.pairwise_singleton _ _,?_⟩,?_⟩
      · intro e present last newest
        rw [List.mem_singleton.mp newest,Int64.lt_iff_toInt_lt,time]
        exact timed.past e present
      · intro e present
        rcases List.mem_append.mp present with earlier | newest
        · exact past e earlier
        · rw [List.mem_singleton.mp newest,time]
          omega

theorem step_moved (ran : load.step run position op = .ok next) :
    load.Moved position op run.registry next.registry := by
  obtain ⟨time,timed,⟨refusal,metrics,_,_,rfl⟩ | ⟨id,registry,metrics,written,_,rfl⟩⟩ := step_parts ran
  · exact .kept
  · obtain ⟨rfl,exact⟩ := Checked.after_ok timed
    obtain ⟨_,event,words,rfl⟩ := Registry.commit_enters written
    exact .entered event words ((congrArg (·.committedAt.toInt) words).trans exact)

theorem countCommit_refusedFor {m counted : Metrics} {r : Registry} {id : EventId}
    (done : countCommit m r id = .ok counted) (cause : Cause) : counted.refusedFor cause = m.refusedFor cause := by
  unfold countCommit at done
  split at done
  · exact Metrics.recordCommit_refusedFor done cause
  · cases done; rfl

theorem step_refusedFor (ran : load.step run position op = .ok next) (cause : Cause) :
    (next.metrics.refusedFor cause).toNat = (run.metrics.refusedFor cause).toNat +
      if (run.registry.step (.call (load.call op (load.clock position)))).1.cause? = some cause then 1 else 0 := by
  rcases step_call ran with ⟨refusal,called,counted⟩ | ⟨id,called,counted⟩
  · rw [Metrics.recordRefusal_refusedFor counted,Registry.step,called]
    simp only [Reply.cause?,Option.some.injEq]
  · rw [countCommit_refusedFor counted,Registry.step,called]
    rfl

theorem step_strangers (ran : load.step run position op = .ok next) :
    next.metrics.unauthorized.toNat =
      run.metrics.unauthorized.toNat + if load.callerName op.caller ≠ run.registry.owner then 1 else 0 :=
  (step_refusedFor ran .stranger).trans
    (congrArg _ (if_congr (run.registry.step_cause_stranger (load.call op (load.clock position))) rfl rfl))

theorem applyFrom_append (load : Load) (run : Run) (position : Nat) (earlier later : List Operation) :
    load.applyFrom run position (earlier ++ later) =
      load.applyFrom run position earlier >>= fun middle =>
        load.applyFrom middle (position + earlier.length) later := by
  induction earlier generalizing run position with
  | nil => rfl
  | cons op rest ih =>
      rw [List.cons_append,List.length_cons]
      simp only [applyFrom]
      cases load.step run position op with
      | error why => rfl
      | ok next =>
          have place : position + (rest.length + 1) = position + 1 + rest.length := by omega
          rw [place]
          exact ih next (position + 1)

theorem applyFrom_extends (ran : load.applyFrom run position ops = .ok last) :
    run.registry.Extends last.registry := by
  refine applyFrom_keeps (P := fun _ now => run.registry.Extends now.registry) (.refl _) ?_ ran
  intro _ _ _ _ _ stepped before
  exact before.trans (step_moved stepped).extends

theorem applyFrom_timed (timed : load.Timed position run.registry.log.events)
    (ran : load.applyFrom run position ops = .ok last) :
    load.Timed (position + ops.length) last.registry.log.events := by
  refine applyFrom_keeps (P := fun place now => load.Timed place now.registry.log.events) timed ?_ ran
  intro _ _ _ _ _ stepped before
  exact (step_moved stepped).timed before

theorem applyFrom_strangers (ran : load.applyFrom run position ops = .ok last) :
    last.metrics.unauthorized.toNat =
      run.metrics.unauthorized.toNat + ops.countP fun op => load.callerName op.caller ≠ run.registry.owner := by
  induction ops generalizing run position with
  | nil => cases ran; rfl
  | cons op rest ih =>
      obtain ⟨next,stepped,ran⟩ := bind_ok.mp ran
      rw [ih ran,step_strangers stepped,(step_moved stepped).owner,List.countP_cons]
      simp only [decide_eq_true_eq]
      omega

theorem applyFrom_refusedFor (ran : load.applyFrom run position ops = .ok last) (cause : Cause) :
    (last.metrics.refusedFor cause).toNat = (run.metrics.refusedFor cause).toNat +
      (run.registry.run (load.stepsFrom position ops)).1.countP fun reply => reply.cause? = some cause := by
  induction ops generalizing run position with
  | nil => cases ran; rfl
  | cons op rest ih =>
      obtain ⟨next,stepped,ran⟩ := bind_ok.mp ran
      rw [ih ran,step_refusedFor stepped,stepsFrom,Registry.run_cons,List.countP_cons,step_registry stepped]
      simp only [decide_eq_true_eq]
      omega

theorem apply_next {r : Registry} {i : Nat} (reached : load.apply r (ops.take i) = .ok run)
    (stands : ops[i]? = some op) : load.apply r (ops.take (i + 1)) = load.step run i op := by
  have length : (ops.take i).length = i := List.length_take_of_le (Nat.le_of_lt (List.getElem?_eq_some_iff.mp stands).1)
  unfold apply at reached ⊢
  rw [List.take_add_one,stands,Option.toList_some,applyFrom_append,reached,length,Nat.zero_add]
  exact bind_pure (load.step run i op)

theorem apply_at {r : Registry} {i : Nat} (ran : load.apply r ops = .ok last) (stands : ops[i]? = some op) :
    ∃ before after, load.apply r (ops.take i) = .ok before ∧ load.apply r (ops.take (i + 1)) = .ok after ∧
      load.Moved i op before.registry after.registry ∧ after.registry.Extends last.registry := by
  have parted (count : Nat) : ∃ middle, load.apply r (ops.take count) = .ok middle ∧
      middle.registry.Extends last.registry := by
    unfold apply at ran ⊢
    rw [← List.take_append_drop count ops,applyFrom_append] at ran
    obtain ⟨middle,reached,rest⟩ := bind_ok.mp ran
    exact ⟨middle,reached,applyFrom_extends rest⟩
  obtain ⟨before,started,_⟩ := parted i
  obtain ⟨after,reached,extended⟩ := parted (i + 1)
  refine ⟨before,after,started,reached,step_moved ?_,extended⟩
  rw [← apply_next started stands,reached]

theorem apply_overflows {c : Config} (load : Load) (ops : List Operation) (small : ops.length < 0x10000000000000000)
    (late : 0x7fffffffffffffff < load.baseTime.toInt + ops.length - 1) :
    load.apply (.deploy c) ops = .error .overflow := by
  have bound := load.baseTime.toInt_lt
  -- The first operation whose time the clock does not show. Those before it run.
  obtain ⟨i,first⟩ : ∃ i : Nat, load.baseTime.toInt + i = 0x8000000000000000 :=
    ⟨(0x8000000000000000 - load.baseTime.toInt).toNat,by omega⟩
  have inside : i < ops.length := by omega
  have length : (ops.take i).length = i := List.length_take_of_le (Nat.le_of_lt inside)
  obtain ⟨middle,reached,_⟩ := load.apply_accounts c (ops.take i) (by omega) (by omega)
  have stopped : Checked.after load.baseTime i = .error .overflow := if_neg (by omega)
  unfold apply at reached ⊢
  rw [← List.take_append_drop i ops,applyFrom_append,reached,length,Nat.zero_add,List.drop_eq_getElem_cons inside]
  simp only [bind,Except.bind,applyFrom,step,stopped]

-- `r` is the registry that the load started from.
structure Tally (load : Load) (r : Registry) (ops : List Operation) (last : Run) : Prop where
  registry : last.registry = (r.run (load.stepsFrom 0 ops)).2
  operations : last.metrics.operations.toNat = ops.length
  parted : last.metrics.created.toNat + last.metrics.updated.toNat + last.metrics.unauthorized.toNat +
    last.metrics.notFound.toNat + last.metrics.exhausted.toNat = ops.length
  records : last.metrics.created.toNat = last.registry.recordCount
  created : last.metrics.created.toNat = last.registry.log.events.countP fun e => e.entry.kind = .created
  updated : last.metrics.updated.toNat = last.registry.log.events.countP fun e => e.entry.kind = .updated
  strangers : last.metrics.unauthorized.toNat = ops.countP fun op => load.callerName op.caller ≠ r.owner
  refused : ∀ cause, (last.metrics.refusedFor cause).toNat =
    (r.run (load.stepsFrom 0 ops)).1.countP fun reply => reply.cause? = some cause
  model : ∀ id, last.model.get? id = (last.registry.get id).toOption.map Record.details
  ascends : last.registry.log.events.Pairwise fun a b => a.entry.committedAt < b.entry.committedAt
  placed : ∀ (i : Nat) op, ops[i]? = some op → ∃ before after, load.apply r (ops.take i) = .ok before ∧
    load.apply r (ops.take (i + 1)) = .ok after ∧ load.Moved i op before.registry after.registry ∧
    after.registry.Extends last.registry

theorem accounts_tally {l : Ledger} {r : Registry} (accounts : Accounts l ops.length last)
    (ran : load.apply r ops = .ok last) (fresh : r.log.events = []) : load.Tally r ops last where
  registry := applyFrom_registry ran
  operations := accounts.operations
  parted := by
    have total := accounts.refused
    have kinds := l.writes.ofKind_all
    have first := accounts.created
    have again := accounts.updated
    unfold Metrics.refused at total
    omega
  records := by
    rw [accounts.created,accounts.registry]
    exact l.writes.created_records
  created := by
    rw [accounts.created,accounts.registry]
    exact (l.writes.events_ofKind .created).symm
  updated := by
    rw [accounts.updated,accounts.registry]
    exact (l.writes.events_ofKind .updated).symm
  strangers := (applyFrom_strangers ran).trans (Nat.zero_add _)
  refused cause := by
    rw [applyFrom_refusedFor ran]
    cases cause <;> exact Nat.zero_add _
  model := model_exact accounts
  ascends := by
    have start : load.Timed 0 r.log.events := by
      rw [fresh]
      exact ⟨.nil,fun e none => absurd none List.not_mem_nil⟩
    exact (applyFrom_timed start ran).ascends
  placed _ _ stands := apply_at ran stands

end Load

-- No list has more items than a word can count.
theorem load_counts_exactly {c : Config} {r : Registry} (deployed : Registry.ofConfig c = .ok r) (load : Load)
    (ops : List Operation) (small : ops.length < 0x10000000000000000) :
    (load.baseTime.toInt + ops.length - 1 ≤ 0x7fffffffffffffff →
      ∃ last, load.apply r ops = .ok last ∧ load.Tally r ops last) ∧
    ((∃ why, load.apply r ops = .error why) ↔ 0x7fffffffffffffff < load.baseTime.toInt + ops.length - 1) := by
  have same := Registry.ofConfig_deploys deployed
  subst same
  have complete : load.baseTime.toInt + ops.length - 1 ≤ 0x7fffffffffffffff →
      ∃ last, load.apply (.deploy c) ops = .ok last ∧ load.Tally (.deploy c) ops last := by
    intro timely
    obtain ⟨last,ran,accounts⟩ := load.apply_accounts c ops small (by omega)
    exact ⟨last,ran,Load.accounts_tally accounts ran rfl⟩
  refine ⟨complete,?_,fun late => ⟨_,Load.apply_overflows load ops small late⟩⟩
  rintro ⟨why,halted⟩
  by_contra early
  obtain ⟨last,ran,_⟩ := complete (by omega)
  rw [ran] at halted
  cases halted

-- One operation of each outcome and one more stranger, in a registry that has
-- room for two events. The last of them takes the last time there is; begun one
-- later, the same load halts.
theorem load_counts_exactly_mixed :
    let c : Config := ⟨"harbour",2,0⟩
    let load : Load := ⟨"harbour","crane",9223372036854775802,.usual⟩
    let late : Load := { load with baseTime := 9223372036854775803 }
    let details : Details := ⟨"call","Kiel","DEKEL","Alma","due"⟩
    let ops : List Operation :=
      [⟨.intruder,.record,⟨1⟩,details⟩,⟨.owner,.update,⟨1⟩,details⟩,
        ⟨.owner,.record,⟨1⟩,details⟩,⟨.owner,.update,⟨1⟩,{ details with status := "moored" }⟩,
        ⟨.owner,.record,⟨2⟩,details⟩,⟨.intruder,.update,⟨3⟩,details⟩]
    Registry.ofConfig c = .ok (.deploy c) ∧ ops.length < 0x10000000000000000 ∧
      (∃ last, load.apply (.deploy c) ops = .ok last ∧ load.Tally (.deploy c) ops last) ∧
      ∃ why, late.apply (.deploy c) ops = .error why := by
  intro c load late details ops
  have deployed : Registry.ofConfig c = .ok (.deploy c) := by decide
  have small : ops.length < 0x10000000000000000 := by decide
  have early : load.baseTime.toInt + ops.length - 1 ≤ 0x7fffffffffffffff := by decide
  have tooLate : 0x7fffffffffffffff < late.baseTime.toInt + ops.length - 1 := by decide
  exact ⟨deployed,small,(load_counts_exactly deployed load ops small).1 early,
    (load_counts_exactly deployed late ops small).2.mpr tooLate⟩

end Scenario

end Harbour
