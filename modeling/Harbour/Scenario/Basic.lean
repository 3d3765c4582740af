import Harbour.Registry

namespace Harbour

open Document

structure Metrics where
  operations : UInt64
  created : UInt64
  updated : UInt64
  unauthorized : UInt64
  notFound : UInt64
  exhausted : UInt64
  elapsed : UInt64
deriving DecidableEq, Repr

namespace Metrics

def zero : Metrics := ⟨0,0,0,0,0,0,0⟩

def codec : Codec Metrics :=
  (Fields.field "operations" .count .required <|
    .field "created" .count .required <|
    .field "updated" .count .required <|
    .field "unauthorized" .count .required <|
    .field "not_found" .count .required <|
    .field "exhausted" .count .required <|
    .field "elapsed_ns" .count .required .done).record.map
    (fun (operations,created,updated,unauthorized,notFound,exhausted,elapsed,()) =>
      ⟨operations,created,updated,unauthorized,notFound,exhausted,elapsed⟩)
    (fun m => (m.operations,m.created,m.updated,m.unauthorized,m.notFound,m.exhausted,m.elapsed,()))

def recordCommit (m : Metrics) (kind : Kind) : Except Halt Metrics := do
  let operations ← Checked.add m.operations 1
  match kind with
  | .created => return { m with operations, created := ← Checked.add m.created 1 }
  | .updated => return { m with operations, updated := ← Checked.add m.updated 1 }

def recordRefusal (m : Metrics) (refusal : Refusal) : Except Halt Metrics := do
  let operations ← Checked.add m.operations 1
  match refusal with
  | .unauthorized _ => return { m with operations, unauthorized := ← Checked.add m.unauthorized 1 }
  | .notFound _ => return { m with operations, notFound := ← Checked.add m.notFound 1 }
  | .exhausted _ => return { m with operations, exhausted := ← Checked.add m.exhausted 1 }

def committed (m : Metrics) : Except Halt UInt64 := Checked.add m.created m.updated

def rejected (m : Metrics) : Except Halt UInt64 := do
  let named ← Checked.add m.unauthorized m.notFound
  Checked.add named m.exhausted

def throughput (m : Metrics) : Except Halt Float := do
  if m.elapsed = 0 then return 0
  let committed ← m.committed
  return committed.toFloat / (m.elapsed.toFloat / 1000000000)

end Metrics

namespace Scenario

structure Result where
  name : String
  operations : UInt64
  eventsEmitted : UInt64
  passed : Bool
  details : String
deriving DecidableEq, Repr

namespace Result

def codec : Codec Result :=
  (Fields.field "name" .text .required <|
    .field "operations" .count .required <|
    .field "events_emitted" .count .required <|
    .field "passed" .flag .required <|
    .field "details" .text .required .done).record.map
    (fun (name,operations,events,passed,details,()) => ⟨name,operations,events,passed,details⟩)
    (fun r => (r.name,r.operations,r.eventsEmitted,r.passed,r.details,()))

def ofFailures (name : String) (operations : UInt64) (r : Registry) (failures : List String) : Result where
  name := name
  operations := operations
  eventsEmitted := UInt64.ofNat r.eventCount
  passed := failures.isEmpty
  details := if failures.isEmpty then "ok" else "; ".intercalate failures

end Result

def expect (condition : Bool) (failure : String) : List String :=
  if condition then [] else [failure]

end Scenario

end Harbour
