import Harbour.Document.Codec

namespace Harbour

open Document

structure VoyageId where
  value : UInt64
deriving DecidableEq, Repr, Hashable

namespace VoyageId

def text (id : VoyageId) : String := toString id.value.toNat

def codec : Codec VoyageId := Codec.count.map VoyageId.mk VoyageId.value

end VoyageId

-- The status is free text: publishers add words of their own, and none of them
-- is checked here.
structure Details where
  callReference : String
  portName : String
  portCode : String
  vesselName : String
  status : String
deriving DecidableEq, Repr

namespace Details

def codec : Codec Details :=
  (Fields.field "call_reference" .text .required <|
    .field "port_name" .text .required <|
    .field "port_code" .text .required <|
    .field "vessel_name" .text .required <|
    .field "status" .text .required .done).record.map
    (fun (call,name,code,vessel,status,()) => ⟨call,name,code,vessel,status⟩)
    (fun d => (d.callReference,d.portName,d.portCode,d.vesselName,d.status,()))

end Details

structure Record where
  id : VoyageId
  details : Details
  recordedAt : Int64
deriving DecidableEq, Repr

namespace Record

-- A record is written flat: the fields of its details stand between its own.
def codec : Codec Record :=
  (Fields.field "voyage_notice_id" VoyageId.codec .required <|
    .field "call_reference" .text .required <|
    .field "port_name" .text .required <|
    .field "port_code" .text .required <|
    .field "vessel_name" .text .required <|
    .field "status" .text .required <|
    .field "recorded_at" .time .required .done).record.map
    (fun (id,call,name,code,vessel,status,time,()) => ⟨id,⟨call,name,code,vessel,status⟩,time⟩)
    (fun r => (r.id,r.details.callReference,r.details.portName,r.details.portCode,
      r.details.vesselName,r.details.status,r.recordedAt,()))

end Record

end Harbour
