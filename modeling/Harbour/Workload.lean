import Harbour.Random
import Harbour.Registry

namespace Harbour

open Document

inductive Caller where
  | owner
  | intruder
deriving DecidableEq, Repr

namespace Caller

def name : Caller → String
  | .owner => "Owner"
  | .intruder => "Intruder"

def codec : Codec Caller :=
  .choice [.plain "Owner" .owner,.plain "Intruder" .intruder] fun c => ⟨c.name,none⟩

end Caller

namespace Mode

def name : Mode → String
  | .record => "Record"
  | .update => "Update"

def codec : Codec Mode :=
  .choice [.plain "Record" .record,.plain "Update" .update] fun m => ⟨m.name,none⟩

end Mode

structure Operation where
  caller : Caller
  mode : Mode
  id : VoyageId
  details : Details
deriving DecidableEq, Repr

def Operation.codec : Codec Operation :=
  (Fields.field "caller" Caller.codec .required <|
    .field "kind" Mode.codec .required <|
    .field "voyage_notice_id" VoyageId.codec .required <|
    .field "details" Details.codec .required .done).record.map
    (fun (caller,mode,id,details,()) => ⟨caller,mode,id,details⟩)
    (fun op => (op.caller,op.mode,op.id,op.details,()))

-- The shape of a stream of calls. Notice numbers come from a small pool, so
-- that records are written again and again and move between keys.
structure Workload where
  seed : UInt64
  operations : UInt64
  pool : UInt64
  callReferences : List String
  portCodes : List String
  statuses : List String
  intruderRatio : Float
  updateRatio : Float
  missingRatio : Float

namespace Workload

def codec : Codec Workload :=
  (Fields.field "seed" .count .required <|
    .field "operations" .count .required <|
    .field "id_pool" .count .required <|
    .field "call_references" (.list .text) .required <|
    .field "port_codes" (.list .text) .required <|
    .field "statuses" (.list .text) .required <|
    .field "intruder_ratio" .ratio .required <|
    .field "update_ratio" .ratio .required <|
    .field "missing_update_ratio" .ratio .required .done).record.map
    (fun (seed,operations,pool,calls,codes,statuses,intruder,update,missing,()) =>
      ⟨seed,operations,pool,calls,codes,statuses,intruder,update,missing⟩)
    (fun w => (w.seed,w.operations,w.pool,w.callReferences,w.portCodes,w.statuses,w.intruderRatio,
      w.updateRatio,w.missingRatio,()))

def usualCalls : List String :=
  (List.range 20).map fun n =>
    "ESC" ++ String.ofList ((Positional.write 10 3 (n + 1)).map Nat.digitChar)

def usual : Workload where
  seed := 42
  operations := 1000
  pool := 50
  callReferences := usualCalls
  portCodes := ["CASA","TNG","AGA","NDR","JLS","SAF"]
  statuses := ["EN_ATTENTE","ARRIVE","A_QUAI","PARTI"]
  intruderRatio := 0.05
  updateRatio := 0.4
  missingRatio := 0.1

def poolSize (w : Workload) : UInt64 := if w.pool = 0 then 1 else w.pool

variable {σ : Type} [Random.Dice σ]

-- Numbers past the pool are never recorded, so an update of one must miss.
def drawId (w : Workload) (past : Bool) (s : σ) : Except Halt (VoyageId × σ) := do
  let (n,s) := Random.Dice.upTo w.poolSize s
  if past then
    let n ← Checked.add w.poolSize n
    return (⟨n⟩,s)
  else return (⟨n⟩,s)

def pick (items : List String) (fallback : String) (s : σ) : String × σ :=
  match items with
  | [] => (fallback,s)
  | first :: rest => Random.Dice.choose first rest s

def drawDetails (w : Workload) (id : VoyageId) (s : σ) : Details × σ :=
  let (call,s) := pick w.callReferences "ESC000" s
  let (code,s) := pick w.portCodes "CASA" s
  let (status,s) := pick w.statuses "EN_ATTENTE" s
  (⟨call,"Port",code,"Vessel " ++ id.text,status⟩,s)

def next (w : Workload) (s : σ) : Except Halt (Operation × σ) := do
  let (intrudes,s) ← Random.Dice.chance w.intruderRatio s
  let (updates,s) ← Random.Dice.chance w.updateRatio s
  let (past,s) ← if updates then Random.Dice.chance w.missingRatio s else .ok (false,s)
  let (id,s) ← w.drawId past s
  let (details,s) := w.drawDetails id s
  return (⟨if intrudes then .intruder else .owner,if updates then .update else .record,id,details⟩,s)

def take (w : Workload) : Nat → σ → Except Halt (List Operation × σ)
  | 0,s => .ok ([],s)
  | count+1,s => do
      let (op,s) ← w.next s
      let (rest,s) ← w.take count s
      return (op :: rest,s)

def source (w : Workload) : Random.ChaCha := .ofSeed w.seed

end Workload

end Harbour
