import Harbour.Registry

namespace Harbour

open Document

-- The head digest stands for the whole log.
structure Snapshot where
  eventCount : UInt64
  recordCount : UInt64
  shipKeys : UInt64
  portKeys : UInt64
  headDigest : String
deriving DecidableEq, Repr

namespace Snapshot

def codec : Codec Snapshot :=
  (Fields.field "event_count" .count .required <|
    .field "record_count" .count .required <|
    .field "ship_keys" .count .required <|
    .field "port_keys" .count .required <|
    .field "head_digest" .text .required .done).record.map
    (fun (events,records,ships,ports,head,()) => ⟨events,records,ships,ports,head⟩)
    (fun s => (s.eventCount,s.recordCount,s.shipKeys,s.portKeys,s.headDigest,()))

def capture (r : Registry) : Snapshot where
  eventCount := UInt64.ofNat r.eventCount
  recordCount := UInt64.ofNat r.recordCount
  shipKeys := UInt64.ofNat r.ships.keyCount
  portKeys := UInt64.ofNat r.ports.keyCount
  headDigest := Event.digestText r.log.head

end Snapshot

namespace Replay

-- The receipts repeat what the records say, so they are passed over.
def call? (owner : String) : Notification → Option Call
  | .arrivalRecorded r => some ⟨owner,.record,r.id,r.details,r.recordedAt⟩
  | .eventRecorded _ => none

def run (r : Registry) : List Call → Except Refusal Registry
  | [] => .ok r
  | call :: rest => do
      let (_,next) ← r.commit call
      run next rest

def rebuild (owner : String) (notifications : List Notification) : Except Refusal Registry :=
  run (.new owner) (notifications.filterMap (call? owner))

structure Validation where
  matched : Bool
  expected : Snapshot
  replayed : Option Snapshot
deriving DecidableEq, Repr

def Validation.codec : Codec Validation :=
  (Fields.field "matches" .flag .required <|
    .field "original" Snapshot.codec .required <|
    .field "replayed" (.nullable Snapshot.codec) .nullable .done).record.map
    (fun (matched,expected,replayed,()) => ⟨matched,expected,replayed⟩)
    (fun v => (v.matched,v.expected,v.replayed,()))

def validate (owner : String) (notifications : List Notification) (expected : Snapshot) : Validation :=
  let replayed := match rebuild owner notifications with
    | .ok r => some (Snapshot.capture r)
    | .error _ => none
  ⟨replayed = some expected,expected,replayed⟩

def exported (notifications : List Notification) : String :=
  (Codec.list Notification.codec).encodePretty notifications

def imported (document : String) : Except Fault (List Notification) :=
  (Codec.list Notification.codec).decode document

end Replay

end Harbour
