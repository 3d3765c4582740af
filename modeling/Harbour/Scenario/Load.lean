import Harbour.Consistency
import Harbour.Scenario.Basic
import Harbour.Workload

namespace Harbour.Scenario

-- A workload run against a registry, beside a model that keeps only the last
-- accepted details of each voyage notice.
structure Load where
  owner : String
  intruder : String
  baseTime : Int64
  workload : Workload

namespace Load

def usual : Load := ⟨"0xowner","0xintruder",1700000000000,.usual⟩

abbrev Model := Table VoyageId Details

structure Run where
  registry : Registry
  metrics : Metrics
  model : Model

def callerName (load : Load) : Caller → String
  | .owner => load.owner
  | .intruder => load.intruder

def call (load : Load) (op : Operation) (time : Int64) : Call :=
  ⟨load.callerName op.caller,op.mode,op.id,op.details,time⟩

-- A commit is counted by what the log says about it.
def countCommit (m : Metrics) (r : Registry) (id : EventId) : Except Halt Metrics :=
  match r.event? id with
  | some e => m.recordCommit e.entry.kind
  | none => .ok m

def step (load : Load) (run : Run) (position : Nat) (op : Operation) : Except Halt Run := do
  let time ← Checked.after load.baseTime position
  match run.registry.commit (load.call op time) with
  | .ok (id,registry) =>
      let metrics ← countCommit run.metrics registry id
      return ⟨registry,metrics,run.model.put op.id op.details⟩
  | .error refusal =>
      let metrics ← run.metrics.recordRefusal refusal
      return { run with metrics }

def applyFrom (load : Load) (run : Run) (position : Nat) : List Operation → Except Halt Run
  | [] => .ok run
  | op :: rest => do
      let run ← load.step run position op
      load.applyFrom run (position + 1) rest

def apply (load : Load) (r : Registry) (ops : List Operation) : Except Halt Run :=
  load.applyFrom ⟨r,.zero,.empty⟩ 0 ops

def compare (r : Registry) (id : VoyageId) (details : Details) : List String :=
  match r.get id with
  | .ok record =>
      if record.details = details then [] else ["record " ++ id.text ++ " differs from last write"]
  | .error refusal => ["record " ++ id.text ++ ": " ++ refusal.message]

def failures (run : Run) : Except Halt (List String) := do
  let committed ← run.metrics.committed
  let events := UInt64.ofNat run.registry.eventCount
  return (Consistency.check run.registry).map Violation.text ++
    (expect (committed = events) <|
      s!"committed {committed} calls but log holds {events} events") ++
    (expect (run.model.size = run.registry.recordCount) <|
      s!"model holds {run.model.size} records, registry {run.registry.recordCount}") ++
    run.model.entries.flatMap fun (id,details) => compare run.registry id details

structure Outcome where
  result : Result
  run : Run

def judge (run : Run) : Except Halt Outcome := do
  let found ← failures run
  return ⟨.ofFailures "load" run.metrics.operations run.registry found,run⟩

def runFrom {σ : Type} [Random.Dice σ] (load : Load) (s : σ) : Except Halt Outcome := do
  let (ops,_) ← load.workload.take load.workload.operations.toNat s
  let run ← load.apply (.new load.owner) ops
  judge run

def run (load : Load) : Except Halt Outcome := load.runFrom load.workload.source

end Load

end Harbour.Scenario
