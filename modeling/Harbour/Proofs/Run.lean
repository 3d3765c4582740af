import Harbour.Proofs.History

namespace Harbour

-- What can be done to a registry that leaves a mark on it. Reads leave none.
inductive Step where
  | call (call : Call)
  | drain

inductive Reply where
  | outcome (answer : Except Refusal EventId)
  | batch (notifications : List Notification)

namespace Registry

def step (r : Registry) : Step → Reply × Registry
  | .call call => (.outcome (r.apply call).1,(r.apply call).2)
  | .drain => (.batch r.drain.1,r.drain.2)

def run (r : Registry) : List Step → List Reply × Registry
  | [] => ([],r)
  | s :: rest =>
      let (reply,next) := r.step s
      let (replies,last) := next.run rest
      (reply :: replies,last)

def transcript (r : Registry) (steps : List Step) : List (Step × Reply) := steps.zip (r.run steps).1

theorem run_cons (r : Registry) (s : Step) (rest : List Step) :
    r.run (s :: rest) = ((r.step s).1 :: ((r.step s).2.run rest).1,((r.step s).2.run rest).2) := rfl

theorem transcript_cons (r : Registry) (s : Step) (rest : List Step) :
    r.transcript (s :: rest) = (s,(r.step s).1) :: (r.step s).2.transcript rest := rfl

-- A checked configuration deploys the same registry as an unchecked one, so
-- nothing is asked of it here.
inductive Reached (c : Config) : Registry → Prop where
  | deploy : Reached c (.deploy c)
  | step (s : Step) : Reached c r → Reached c (r.step s).2

theorem reached_run (path : Reached c r) (steps : List Step) : Reached c (r.run steps).2 := by
  induction steps generalizing r with
  | nil => exact path
  | cons s rest ih => exact ih (.step s path)

theorem ofConfig_deploys (accepted : ofConfig c = .ok r) : r = deploy c := by
  unfold ofConfig Config.checked at accepted
  cases valid : c.validate with
  | error fault => simp [valid,bind,Except.bind] at accepted
  | ok =>
      simp only [valid,bind,Except.bind,pure,Except.pure,Except.ok.injEq] at accepted
      exact accepted.symm

theorem apply_of_commit (r : Registry) (call : Call) :
    r.apply call = match r.commit call with
      | .ok (id,next) => (.ok id,next)
      | .error refusal => (.error refusal,r) := rfl

theorem apply_refused {r : Registry} {call : Call} (refused : (r.apply call).1 = .error refusal) :
    (r.apply call).2 = r := by
  rw [apply_of_commit] at refused ⊢
  cases written : r.commit call with
  | error why => rfl
  | ok result => simp [written] at refused

end Registry

end Harbour
