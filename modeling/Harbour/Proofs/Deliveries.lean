import Harbour.Intake
import Harbour.Proofs.Run

namespace Harbour.Intake

-- The registry of an intake may be used past it at any time.
inductive Step where
  | deliver (n : Notice) (time : Int64)
  | payload (text : String) (time : Int64)
  | registry (s : Harbour.Step)

inductive Reply where
  | delivery (answer : Except Rejection Outcome)
  | registry (reply : Harbour.Reply)

def step (intake : Intake) : Step → Reply × Intake
  | .deliver n time => (.delivery (intake.deliver n time).1,(intake.deliver n time).2)
  | .payload text time => (.delivery (intake.deliverText text time).1,(intake.deliverText text time).2)
  | .registry s =>
      (.registry (intake.registry.step s).1,{ intake with registry := (intake.registry.step s).2 })

def run (intake : Intake) : List Step → List (Step × Reply) × Intake
  | [] => ([],intake)
  | s :: rest =>
      let (reply,next) := intake.step s
      let (history,last) := next.run rest
      ((s,reply) :: history,last)

inductive Built : Intake → Nat → Prop where
  | new (registry : Registry) (submitter : String) (width : Nat) :
      Built (.new registry submitter width) width
  | config : ofConfig c = .ok intake → Built intake c.dedupWindow.toNat

def Step.notice? : Step → Option Notice
  | .deliver n _ => some n
  | .payload text _ => (Notice.parse text).toOption
  | .registry _ => none

def Step.delivers : Step → Bool
  | .deliver _ _ => true
  | .payload _ _ => true
  | .registry _ => false

def Step.brings? : Step → Option (Notice × Int64)
  | .deliver n time => some (n,time)
  | .payload text time => (Notice.parse text).toOption.map fun n => (n,time)
  | .registry _ => none

def recorded? : Step × Reply → Option MessageId
  | (s,.delivery (.ok (.recorded _))) => s.notice?.map Notice.messageId
  | _ => none

theorem built_new (built : Built intake width) : ∃ registry submitter, intake = .new registry submitter width := by
  cases built with
  | new registry submitter => exact ⟨registry,submitter,rfl⟩
  | config accepted =>
      rename_i c
      unfold ofConfig at accepted
      cases deployed : Registry.ofConfig c with
      | error fault => simp [deployed,bind,Except.bind] at accepted
      | ok registry =>
          simp only [deployed,bind,Except.bind,pure,Except.pure,Except.ok.injEq] at accepted
          exact ⟨registry,c.owner,accepted.symm⟩

theorem built_window (built : Built intake width) : intake.window = .empty width := by
  obtain ⟨registry,submitter,rfl⟩ := built_new built
  rfl

theorem deliver_taken {intake : Intake} {n : Notice} {time : Int64} {id : EventId} {next : Registry}
    (new : ¬ intake.window.contains n.messageId)
    (valid : n.validate = .ok ())
    (written : intake.registry.commit (intake.call n time) = .ok (id,next)) :
    intake.deliver n time = (.ok (.recorded id),{ intake with
      registry := next
      window := intake.window.remember n.messageId
      recorded := intake.recorded + 1 }) := by
  simp only [deliver,if_neg new,valid,written]

theorem deliver_cases (intake : Intake) (n : Notice) (time : Int64) :
    (intake.window.contains n.messageId ∧ intake.deliver n time =
      (.ok .duplicate,{ intake with duplicates := intake.duplicates + 1 })) ∨
    (¬ intake.window.contains n.messageId ∧ ∃ why, intake.deliver n time =
      (.error why,{ intake with rejected := intake.rejected + 1 })) ∨
    (¬ intake.window.contains n.messageId ∧ n.validate = .ok () ∧
      ∃ id next, intake.registry.commit (intake.call n time) = .ok (id,next) ∧
        intake.deliver n time = (.ok (.recorded id),{ intake with
          registry := next
          window := intake.window.remember n.messageId
          recorded := intake.recorded + 1 })) := by
  by_cases known : intake.window.contains n.messageId
  · exact .inl ⟨known,if_pos known⟩
  · cases valid : n.validate with
    | error fault =>
        refine .inr (.inl ⟨known,.notice fault,?_⟩)
        simp only [deliver,if_neg known,valid,reject]
    | ok =>
        cases written : intake.registry.commit (intake.call n time) with
        | error refusal =>
            refine .inr (.inl ⟨known,.registry refusal,?_⟩)
            simp only [deliver,if_neg known,valid,written,reject]
        | ok result =>
            obtain ⟨id,next⟩ := result
            exact .inr (.inr ⟨known,rfl,id,next,rfl,deliver_taken known valid written⟩)

theorem undelivered {s : Step} (delivers : s.delivers = false) : ∃ past, s = .registry past := by
  cases s with
  | deliver n time => cases delivers
  | payload text time => cases delivers
  | registry past => exact ⟨past,rfl⟩

theorem notice_brought (s : Step) : s.notice? = s.brings?.map Prod.fst := by
  cases s with
  | deliver n time => rfl
  | payload text time =>
      simp only [Step.notice?,Step.brings?,Option.map_map]
      exact Option.map_id'.symm
  | registry past => rfl

theorem step_brings (intake : Intake) (brings : s.brings? = some (n,time)) :
    intake.step s = (.delivery (intake.deliver n time).1,(intake.deliver n time).2) := by
  cases s with
  | deliver m issued => cases brings; rfl
  | payload text issued =>
      cases parsed : Notice.parse text with
      | error fault => simp [Step.brings?,parsed,Except.toOption] at brings
      | ok m =>
          simp only [Step.brings?,parsed,Except.toOption,Option.map_some,Option.some.injEq,Prod.mk.injEq] at brings
          obtain ⟨rfl,rfl⟩ := brings
          simp only [step,deliverText,parsed]
  | registry s => cases brings

theorem step_unread (intake : Intake) (delivers : s.delivers = true) (unread : s.brings? = none) :
    ∃ fault, intake.step s = (.delivery (.error (.notice fault)),{ intake with rejected := intake.rejected + 1 }) := by
  cases s with
  | deliver n time => cases unread
  | payload text time =>
      cases parsed : Notice.parse text with
      | error fault => exact ⟨fault,by simp only [step,deliverText,parsed,reject]⟩
      | ok n => simp [Step.brings?,parsed,Except.toOption] at unread
  | registry s => cases delivers

theorem step_notice (intake : Intake) (brings : s.notice? = some n) :
    ∃ time, intake.step s = (.delivery (intake.deliver n time).1,(intake.deliver n time).2) := by
  rw [notice_brought] at brings
  obtain ⟨⟨m,time⟩,brought,rfl⟩ := Option.map_eq_some_iff.mp brings
  exact ⟨time,step_brings intake brought⟩

theorem step_window (intake : Intake) (unread : s.notice? = none) :
    (intake.step s).2.window = intake.window := by
  rw [notice_brought,Option.map_eq_none_iff] at unread
  cases delivers : s.delivers with
  | false =>
      obtain ⟨past,rfl⟩ := undelivered delivers
      rfl
  | true =>
      obtain ⟨fault,rejected⟩ := step_unread intake delivers unread
      rw [rejected]

theorem recorded_unread (unread : s.notice? = none) (reply : Reply) : recorded? (s,reply) = none := by
  unfold recorded?
  split
  · rename_i same
    cases same
    rw [unread,Option.map_none]
  · rfl

end Harbour.Intake
