import Harbour.Arrival
import Harbour.Basic
import Harbour.Hash.Sha256

namespace Harbour

open Document

structure EventId where
  value : UInt64
deriving DecidableEq, Repr, Hashable

namespace EventId

def first : EventId := ⟨1⟩

def next? (id : EventId) : Option EventId :=
  if id.value.toNat + 1 < 0x10000000000000000 then some ⟨id.value + 1⟩ else none

def text (id : EventId) : String := s!"#{id.value.toNat}"

def before (a b : EventId) : Bool := a.value < b.value

def codec : Codec EventId := Codec.count.map EventId.mk EventId.value

end EventId

inductive Kind where
  | created
  | updated
deriving DecidableEq, Repr

namespace Kind

def tag : Kind → UInt8
  | .created => 1
  | .updated => 2

def name : Kind → String
  | .created => "Created"
  | .updated => "Updated"

def codec : Codec Kind :=
  .choice [.plain "Created" .created,.plain "Updated" .updated] fun k => ⟨k.name,none⟩

end Kind

structure Entry where
  voyage : VoyageId
  callReference : String
  portCode : String
  kind : Kind
  committedAt : Int64
deriving DecidableEq, Repr

structure Event where
  id : EventId
  entry : Entry
  digest : Hash.Digest
deriving DecidableEq, Repr

namespace Event

def digestText (d : Hash.Digest) : String := Octets.hex d.toList

def codec : Codec Event :=
  (Fields.field "event_id" EventId.codec .required <|
    .field "voyage_notice_id" VoyageId.codec .required <|
    .field "call_reference" .text .required <|
    .field "port_code" .text .required <|
    .field "kind" Kind.codec .required <|
    .field "committed_at" .time .required <|
    .field "digest" (.vector 32 .octet) .required .done).record.map
    (fun (id,voyage,call,code,kind,time,digest,()) => ⟨id,⟨voyage,call,code,kind,time⟩,digest⟩)
    (fun e => (e.id,e.entry.voyage,e.entry.callReference,e.entry.portCode,e.entry.kind,
      e.entry.committedAt,e.digest,()))

end Event

structure Receipt where
  id : EventId
  voyage : VoyageId
  callReference : String
  portCode : String
  kind : Kind
deriving DecidableEq, Repr

def Event.receipt (e : Event) : Receipt :=
  ⟨e.id,e.entry.voyage,e.entry.callReference,e.entry.portCode,e.entry.kind⟩

def Receipt.codec : Codec Receipt :=
  (Fields.field "event_id" EventId.codec .required <|
    .field "voyage_notice_id" VoyageId.codec .required <|
    .field "call_reference" .text .required <|
    .field "port_code" .text .required <|
    .field "kind" Kind.codec .required .done).record.map
    (fun (id,voyage,call,code,kind,()) => ⟨id,voyage,call,code,kind⟩)
    (fun r => (r.id,r.voyage,r.callReference,r.portCode,r.kind,()))

inductive Notification where
  | arrivalRecorded (record : Record)
  | eventRecorded (receipt : Receipt)
deriving DecidableEq, Repr

namespace Notification

def recordCodec : Codec Record :=
  (Fields.field "record" Record.codec .required .done).record.map (fun (r,()) => r) (fun r => (r,()))

def codec : Codec Notification :=
  .choice
    [.carrying "ArrivalRecorded" recordCodec .arrivalRecorded,
      .carrying "EventRecorded" Receipt.codec .eventRecorded]
    fun
      | .arrivalRecorded record => ⟨"ArrivalRecorded",some (recordCodec.write record)⟩
      | .eventRecorded receipt => ⟨"EventRecorded",some (Receipt.codec.write receipt)⟩

end Notification

end Harbour
