import Harbour.Basic
import Harbour.Report
import Harbour.Scenario.Acceptance
import Harbour.Scenario.Load

namespace Harbour.CommandLine

-- Each argument is read before the next is looked at, and further ones are ignored.
structure Request where
  seed : UInt64
  operations : UInt64
  path : Option String
deriving DecidableEq, Repr

def argument (args : List String) (place : Nat) (default : UInt64) : Except Text.CountFault UInt64 :=
  match args[place]? with
  | none => .ok default
  | some raw => Text.readCount raw.toList

def parse (args : List String) : Except Text.CountFault Request := do
  let seed ← argument args 0 Workload.usual.seed
  let operations ← argument args 1 Workload.usual.operations
  return ⟨seed,operations,args[2]?⟩

def simulate (request : Request) (baseTime : Int64) : Except Halt Report := do
  let accepted ← { Scenario.Acceptance.usual with baseTime }.runAll
  let workload := { Workload.usual with seed := request.seed, operations := request.operations }
  let load := { Scenario.Load.usual with baseTime, workload }
  let outcome ← load.run
  let r := outcome.run.registry
  let snapshot := Snapshot.capture r
  return ⟨Report.release,request.seed,accepted ++ [outcome.result],outcome.run.metrics,snapshot,
    Replay.validate load.owner r.pending snapshot⟩

inductive Action where
  | refuse (fault : Text.CountFault)
  | halt (why : Halt)
  | print (report : String) (passed : Bool)
  | save (path report : String) (passed : Bool)
deriving DecidableEq, Repr

def finish (request : Request) (elapsed : UInt64) : Except Halt Report → Action
  | .error why => .halt why
  | .ok report =>
      let text := { report with metrics.elapsed := elapsed }.text
      match request.path with
      | none => .print text report.passed
      | some path => .save path text report.passed

def plan (args : List String) (baseTime : Int64) (elapsed : UInt64) : Action :=
  match parse args with
  | .error fault => .refuse fault
  | .ok request => finish request elapsed (simulate request baseTime)

def complaint (reason : String) : String := "Error: " ++ reason

def verdict (passed : Bool) : Option String :=
  if passed then none else some (complaint "simulation failed")

end Harbour.CommandLine
