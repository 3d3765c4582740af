import Harbour.Arrival
import Harbour.Calendar

namespace Harbour

open Document

structure MessageId where
  value : BitVec 128
deriving DecidableEq, Repr, Hashable

namespace MessageId

def nil : MessageId := ⟨0⟩

def digits (m : MessageId) : List Char :=
  (Positional.write 16 32 m.value.toNat).map Nat.digitChar

def hyphenate (ds : List Char) : List Char :=
  ds.take 8 ++ '-' :: (ds.drop 8).take 4 ++ '-' :: (ds.drop 12).take 4 ++
    '-' :: (ds.drop 16).take 4 ++ '-' :: ds.drop 20

def text (m : MessageId) : String := String.ofList (hyphenate m.digits)

def ofDigits? (ds : List Char) : Option MessageId :=
  if ds.length = 32 then
    (ds.mapM Document.Quoted.hexValue).map fun values => ⟨BitVec.ofNat 128 (Positional.read 16 values)⟩
  else none

def ofHyphenated? (cs : List Char) : Option MessageId :=
  let ds := cs.take 8 ++ (cs.drop 9).take 4 ++ (cs.drop 14).take 4 ++ (cs.drop 19).take 4 ++ cs.drop 24
  if hyphenate ds = cs then ofDigits? ds else none

def urn : List Char := ['u','r','n',':','u','u','i','d',':']

-- Plain digits, hyphenated, in braces, or as a URN. Letters stand in either
-- case, those of the URN's own name too.
def parse (s : String) : Option MessageId :=
  match s.toList with
  | '\x7b' :: cs =>
      match cs.reverse with
      | '\x7d' :: inner => ofHyphenated? inner.reverse
      | _ => none
  | cs =>
      if (cs.take 9).map Char.toLower = urn then ofHyphenated? (cs.drop 9)
      else (ofDigits? cs).or (ofHyphenated? cs)

def version7 (milliseconds : UInt64) (random : Nat) : MessageId :=
  ⟨BitVec.ofNat 48 milliseconds.toNat ++ (7 : BitVec 4) ++ BitVec.ofNat 12 (random >>> 62) ++
    (2 : BitVec 2) ++ BitVec.ofNat 62 random⟩

def version (m : MessageId) : Nat := (m.value.toNat >>> 76) % 16

def codec : Document.Codec MessageId := .spelled text parse .badIdentifier

end MessageId

-- The arrival time is what the publisher expects; the registry records its own
-- time and never this one.
structure Notice where
  messageId : MessageId
  id : VoyageId
  details : Details
  arrivalTime : Option Calendar.Instant
deriving DecidableEq, Repr

inductive NoticeFault where
  | blankField (name : String)
  | malformed (reason : String)
deriving DecidableEq, Repr

def NoticeFault.message : NoticeFault → String
  | .blankField name => s!"Required field is blank: {name}"
  | .malformed reason => s!"Malformed notice: {reason}"

namespace Notice

def codec : Codec Notice :=
  (Fields.field "messageId" MessageId.codec .required <|
    .field "voyageNoticeId" VoyageId.codec .required <|
    .field "callReference" .text .required <|
    .field "portName" .text .required <|
    .field "portCode" .text .required <|
    .field "vesselName" .text .required <|
    .field "status" .text .required <|
    .field "arrivalTime" (.nullable Calendar.Instant.codec) .omitted .done).record.map
    (fun (message,id,call,name,code,vessel,status,time,()) =>
      ⟨message,id,⟨call,name,code,vessel,status⟩,time⟩)
    (fun n => (n.messageId,n.id,n.details.callReference,n.details.portName,n.details.portCode,
      n.details.vesselName,n.details.status,n.arrivalTime,()))

def fresh (message : MessageId) (id : VoyageId) (details : Details) : Notice :=
  ⟨message,id,details,none⟩

def parse (payload : String) : Except NoticeFault Notice :=
  (codec.decode payload).mapError fun fault => .malformed fault.reason

def required (d : Details) : List (String × String) :=
  [("callReference",d.callReference),("portName",d.portName),("portCode",d.portCode),
    ("vesselName",d.vesselName),("status",d.status)]

def validate (n : Notice) : Except NoticeFault Unit :=
  match (required n.details).find? fun field => Text.allBlank field.2 with
  | some field => .error (.blankField field.1)
  | none => .ok ()

end Notice

end Harbour
