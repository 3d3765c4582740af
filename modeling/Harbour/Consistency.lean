import Harbour.Registry

namespace Harbour

open Document

inductive Violation where
  | nonContiguousId (position : UInt64) (found : EventId)
  | brokenChain (event : EventId)
  | indexCount (index key : String) (event : EventId) (count : UInt64)
  | strayEntry (index key : String) (event : EventId)
  | unordered (index key : String)
  | recordMismatch (id : VoyageId)
  | recordWithoutEvent (id : VoyageId)
  | missingRecord (id : VoyageId)
deriving DecidableEq, Repr

namespace Violation

def positionCodec : Codec (UInt64 × EventId × Unit) :=
  (Fields.field "position" .count .required <| .field "found" EventId.codec .required .done).record

def eventCodec : Codec (EventId × Unit) :=
  (Fields.field "event_id" EventId.codec .required .done).record

def countCodec : Codec (String × String × EventId × UInt64 × Unit) :=
  (Fields.field "index" .text .required <|
    .field "key" .text .required <|
    .field "event_id" EventId.codec .required <|
    .field "count" .count .required .done).record

def entryCodec : Codec (String × String × EventId × Unit) :=
  (Fields.field "index" .text .required <|
    .field "key" .text .required <|
    .field "event_id" EventId.codec .required .done).record

def listCodec : Codec (String × String × Unit) :=
  (Fields.field "index" .text .required <| .field "key" .text .required .done).record

def recordCodec : Codec (VoyageId × Unit) :=
  (Fields.field "voyage_notice_id" VoyageId.codec .required .done).record

def codec : Codec Violation :=
  .choice
    [.carrying "NonContiguousId" positionCodec fun (position,found,()) => .nonContiguousId position found,
      .carrying "BrokenDigestChain" eventCodec fun (event,()) => .brokenChain event,
      .carrying "IndexCount" countCodec fun (index,key,event,count,()) => .indexCount index key event count,
      .carrying "StrayIndexEntry" entryCodec fun (index,key,event,()) => .strayEntry index key event,
      .carrying "UnorderedIndex" listCodec fun (index,key,()) => .unordered index key,
      .carrying "RecordMismatch" recordCodec fun (id,()) => .recordMismatch id,
      .carrying "RecordWithoutEvent" recordCodec fun (id,()) => .recordWithoutEvent id,
      .carrying "MissingRecord" recordCodec fun (id,()) => .missingRecord id]
    fun
      | .nonContiguousId position found =>
          ⟨"NonContiguousId",some (positionCodec.write (position,found,()))⟩
      | .brokenChain event => ⟨"BrokenDigestChain",some (eventCodec.write (event,()))⟩
      | .indexCount index key event count =>
          ⟨"IndexCount",some (countCodec.write (index,key,event,count,()))⟩
      | .strayEntry index key event =>
          ⟨"StrayIndexEntry",some (entryCodec.write (index,key,event,()))⟩
      | .unordered index key => ⟨"UnorderedIndex",some (listCodec.write (index,key,()))⟩
      | .recordMismatch id => ⟨"RecordMismatch",some (recordCodec.write (id,()))⟩
      | .recordWithoutEvent id => ⟨"RecordWithoutEvent",some (recordCodec.write (id,()))⟩
      | .missingRecord id => ⟨"MissingRecord",some (recordCodec.write (id,()))⟩

def shownChar (c : Char) : String :=
  if c = '"' then "\\\""
  else if c = '\\' then "\\\\"
  else if c = '\n' then "\\n"
  else if c = '\r' then "\\r"
  else if c = '\t' then "\\t"
  else if c.toNat = 0 then "\\0"
  -- Combining marks and unassigned characters stand as they are here.
  else if c.toNat < 0x20 ∨ (0x7F ≤ c.toNat ∧ c.toNat < 0xA0) ∨ (Text.isBlank c ∧ c ≠ ' ') then
    "\\u\x7b" ++ String.ofList (Nat.toDigits 16 c.toNat) ++ "\x7d"
  else String.ofList [c]

def shownText (s : String) : String := "\"" ++ "".intercalate (s.toList.map shownChar) ++ "\""

def shownEvent (id : EventId) : String := s!"EventId({id.value.toNat})"

def shownVoyage (id : VoyageId) : String := s!"VoyageNoticeId({id.value.toNat})"

def shown (name : String) (parts : List (String × String)) : String :=
  name ++ " \x7b " ++ ", ".intercalate (parts.map fun (field,value) => field ++ ": " ++ value) ++ " \x7d"

def text : Violation → String
  | .nonContiguousId position found =>
      shown "NonContiguousId" [("position",toString position.toNat),("found",shownEvent found)]
  | .brokenChain event => shown "BrokenDigestChain" [("event_id",shownEvent event)]
  | .indexCount index key event count =>
      shown "IndexCount" [("index",shownText index),("key",shownText key),("event_id",shownEvent event),
        ("count",toString count.toNat)]
  | .strayEntry index key event =>
      shown "StrayIndexEntry" [("index",shownText index),("key",shownText key),("event_id",shownEvent event)]
  | .unordered index key => shown "UnorderedIndex" [("index",shownText index),("key",shownText key)]
  | .recordMismatch id => shown "RecordMismatch" [("voyage_notice_id",shownVoyage id)]
  | .recordWithoutEvent id => shown "RecordWithoutEvent" [("voyage_notice_id",shownVoyage id)]
  | .missingRecord id => shown "MissingRecord" [("voyage_notice_id",shownVoyage id)]

end Violation

namespace Consistency

def checkIds (r : Registry) : List Violation :=
  r.log.events.zipIdx.filterMap fun (e,position) =>
    if e.id = Log.idAt position then none
    else some (.nonContiguousId (UInt64.ofNat position) e.id)

def checkChain (r : Registry) : List Violation :=
  match r.log.firstInvalid with
  | some event => [.brokenChain event]
  | none => []

def isStray (r : Registry) (keyOf : Entry → String) (key : String) (id : EventId) : Bool :=
  match r.event? id with
  | some e => keyOf e.entry ≠ key
  | none => true

def checkList (r : Registry) (name : String) (keyOf : Entry → String) (key : String)
    (ids : List EventId) : List Violation :=
  (if Index.ascending ids then [] else [.unordered name key]) ++
    (ids.filter (isStray r keyOf key)).map (.strayEntry name key)

def checkIndex (r : Registry) (name : String) (index : Index) (keyOf : Entry → String) :
    List Violation :=
  (index.entries.flatMap fun (key,ids) => checkList r name keyOf key ids) ++
    r.log.events.filterMap fun e =>
      let key := keyOf e.entry
      let count := (index.lookup key).count e.id
      if count = 1 then none else some (.indexCount name key e.id (UInt64.ofNat count))

def lastEvents (events : List Event) : Table VoyageId Event :=
  events.foldl (fun table e => table.put e.entry.voyage e) .empty

def checkRecord (last : Table VoyageId Event) (record : Record) : Option Violation :=
  match last.get? record.id with
  | some e =>
      if e.entry.callReference = record.details.callReference ∧
          e.entry.portCode = record.details.portCode ∧ e.entry.committedAt = record.recordedAt then
        none
      else some (.recordMismatch record.id)
  | none => some (.recordWithoutEvent record.id)

def checkRecords (r : Registry) : List Violation :=
  let last := lastEvents r.log.events
  let orphaned := last.keys.filter fun id => ¬ r.holds id
  r.records.entries.filterMap (fun entry => checkRecord last entry.2) ++
    (orphaned.mergeSort fun a b => a.value ≤ b.value).map .missingRecord

def check (r : Registry) : List Violation :=
  checkIds r ++ checkChain r ++ checkIndex r "ship" r.ships Entry.callReference ++
    checkIndex r "port" r.ports Entry.portCode ++ checkRecords r

end Consistency

end Harbour
