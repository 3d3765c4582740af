import Harbour.Scenario.Basic
import Harbour.Replay

namespace Harbour

open Document

structure Report where
  version : String
  seed : UInt64
  scenarios : List Scenario.Result
  metrics : Metrics
  snapshot : Snapshot
  replay : Replay.Validation
deriving DecidableEq, Repr

namespace Report

def release : String := "1.0.0"

def codec : Codec Report :=
  (Fields.field "version" .text .required <|
    .field "seed" .count .required <|
    .field "scenarios" (.list Scenario.Result.codec) .required <|
    .field "metrics" Metrics.codec .required <|
    .field "snapshot" Snapshot.codec .required <|
    .field "replay" Replay.Validation.codec .required .done).record.map
    (fun (version,seed,scenarios,metrics,snapshot,replay,()) =>
      ⟨version,seed,scenarios,metrics,snapshot,replay⟩)
    (fun r => (r.version,r.seed,r.scenarios,r.metrics,r.snapshot,r.replay,()))

def passed (r : Report) : Bool := r.scenarios.all Scenario.Result.passed && r.replay.matched

def text (r : Report) : String := codec.encodePretty r

end Report

end Harbour
