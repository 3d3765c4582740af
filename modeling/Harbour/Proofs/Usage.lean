import Harbour.Proofs.Deliveries
import Harbour.Scenario.Load

namespace Harbour

namespace Intake

theorem deliver_reached {intake : Intake} (path : Registry.Reached c intake.registry) (n : Notice)
    (time : Int64) : Registry.Reached c (intake.deliver n time).2.registry := by
  rcases intake.deliver_cases n time with ⟨_,dropped⟩ | ⟨_,why,rejected⟩ | ⟨_,_,id,next,written,taken⟩
  · rw [dropped]; exact path
  · rw [rejected]; exact path
  · have called := Registry.Reached.step (.call (intake.call n time)) path
    rw [Registry.step,Registry.apply_of_commit,written] at called
    rw [taken]; exact called

theorem step_reached {intake : Intake} (path : Registry.Reached c intake.registry) (s : Step) :
    Registry.Reached c (intake.step s).2.registry := by
  cases s with
  | deliver n time => exact deliver_reached path n time
  | payload text time =>
      change Registry.Reached c (intake.deliverText text time).2.registry
      cases parsed : Notice.parse text with
      | error fault => simp only [deliverText,parsed,reject]; exact path
      | ok n => simp only [deliverText,parsed]; exact deliver_reached path n time
  | registry s => exact .step s path

theorem run_reached {intake : Intake} (path : Registry.Reached c intake.registry) (steps : List Step) :
    Registry.Reached c (intake.run steps).2.registry := by
  induction steps generalizing intake with
  | nil => exact path
  | cons s rest ih => exact ih (step_reached path s)

end Intake

namespace Scenario.Load

theorem step_parts {load : Load} {run next : Run} (ran : load.step run position op = .ok next) :
    ∃ time, Checked.after load.baseTime position = .ok time ∧
      ((∃ refusal metrics, run.registry.commit (load.call op time) = .error refusal ∧
          run.metrics.recordRefusal refusal = .ok metrics ∧ next = { run with metrics }) ∨
        ∃ id registry metrics, run.registry.commit (load.call op time) = .ok (id,registry) ∧
          countCommit run.metrics registry id = .ok metrics ∧
          next = ⟨registry,metrics,run.model.put op.id op.details⟩) := by
  unfold step at ran
  obtain ⟨time,timed,ran⟩ := bind_ok.mp ran
  refine ⟨time,timed,?_⟩
  cases written : run.registry.commit (load.call op time) with
  | error refusal =>
      rw [written] at ran
      obtain ⟨metrics,counted,same⟩ := bind_ok.mp ran
      exact .inl ⟨refusal,metrics,rfl,counted,(Except.ok.inj same).symm⟩
  | ok result =>
      rw [written] at ran
      obtain ⟨metrics,counted,same⟩ := bind_ok.mp ran
      exact .inr ⟨result.1,result.2,metrics,rfl,counted,(Except.ok.inj same).symm⟩

theorem step_reached {load : Load} {run next : Run} (path : Registry.Reached c run.registry)
    (ran : load.step run position op = .ok next) : Registry.Reached c next.registry := by
  obtain ⟨time,_,⟨refusal,metrics,_,_,rfl⟩ | ⟨id,registry,metrics,written,_,rfl⟩⟩ := step_parts ran
  · exact path
  · have called := Registry.Reached.step (.call (load.call op time)) path
    rw [Registry.step,Registry.apply_of_commit,written] at called
    exact called

-- What each operation of a list keeps, from any place on, the whole list keeps.
theorem applyFrom_keeps {load : Load} {run last : Run} {P : Nat → Run → Prop} (start : P position run)
    (keeps : ∀ position op now next, op ∈ ops → load.step now position op = .ok next → P position now →
      P (position + 1) next)
    (ran : load.applyFrom run position ops = .ok last) : P (position + ops.length) last := by
  induction ops generalizing run position with
  | nil => cases ran; exact start
  | cons op rest ih =>
      obtain ⟨next,stepped,ran⟩ := bind_ok.mp ran
      have one := keeps position op run next List.mem_cons_self stepped start
      have all := ih one (fun place other now next present => keeps place other now next (.tail op present)) ran
      rwa [Nat.add_right_comm,Nat.add_assoc] at all

theorem applyFrom_reached {load : Load} {run last : Run} (path : Registry.Reached c run.registry)
    (ran : load.applyFrom run position ops = .ok last) : Registry.Reached c last.registry :=
  applyFrom_keeps (P := fun _ now => Registry.Reached c now.registry) path
    (fun _ _ _ _ _ stepped before => step_reached before stepped) ran

end Scenario.Load

namespace Registry

inductive Used (c : Config) : Registry → Prop where
  | deploy : Used c (.deploy c)
  | step (s : Step) : Used c r → Used c (r.step s).2
  | intake (submitter : String) (width : Nat) (steps : List Intake.Step) :
      Used c r → Used c ((Intake.new r submitter width).run steps).2.registry
  | load (load : Scenario.Load) : Used c r → load.apply r ops = .ok last → Used c last.registry

theorem used_reached (path : Used c r) : Reached c r := by
  induction path with
  | deploy => exact .deploy
  | step s _ ih => exact .step s ih
  | intake submitter width steps _ ih => exact Intake.run_reached ih steps
  | load load _ ran ih => exact Scenario.Load.applyFrom_reached ih ran

end Registry

end Harbour
