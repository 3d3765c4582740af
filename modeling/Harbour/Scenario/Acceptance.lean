import Harbour.Basic
import Harbour.Scenario.Basic

namespace Harbour.Scenario

open Document

structure Acceptance where
  owner : String
  intruder : String
  baseTime : Int64
deriving DecidableEq, Repr

namespace Acceptance

def codec : Codec Acceptance :=
  (Fields.field "owner" .text .required <|
    .field "intruder" .text .required <|
    .field "base_time" .time .required .done).record.map
    (fun (owner,intruder,time,()) => ⟨owner,intruder,time⟩)
    (fun a => (a.owner,a.intruder,a.baseTime,()))

def usual : Acceptance where
  owner := "0x627306090abab3a6e1400e9345bc60c78a8bef57"
  intruder := "0xf17f52151ebef6c7334fad080c5704d77216b732"
  baseTime := 1700000000000

def notice : VoyageId := ⟨12345⟩
def unknownNotice : VoyageId := ⟨99999⟩

def casablanca : Details := ⟨"ESC001","Casablanca","CASA","Test Ship","EN_ATTENTE"⟩
def tanger (vessel status : String) : Details := ⟨"ESC002","Tanger","TNG",vessel,status⟩

def isArrival : Notification → Bool
  | .arrivalRecorded _ => true
  | .eventRecorded _ => false

def receiptId? : Notification → Option EventId
  | .arrivalRecorded _ => none
  | .eventRecorded receipt => some receipt.id

def deployed (a : Acceptance) : Registry × List String :=
  match (Registry.new a.owner).commit ⟨a.owner,.record,notice,casablanca,a.baseTime⟩ with
  | .ok (_,r) => (r,[])
  | .error refusal => (.new a.owner,["initial record failed: " ++ refusal.message])

def inspect (r : Registry) (id : VoyageId) (look : Record → List String) : List String :=
  match r.get id with
  | .ok record => look record
  | .error refusal => ["get_arrival failed: " ++ refusal.message]

def deployment (a : Acceptance) : Result :=
  let r := Registry.new a.owner
  .ofFailures "deployment" 0 r <|
    expect (r.owner = a.owner) "owner should be the deployer" ++
      expect (r.eventCount = 0) "fresh registry should have no events"

def recordNew (a : Acceptance) : Result :=
  let (r,failures) := a.deployed
  .ofFailures "record_new" 1 r <|
    failures ++ expect (r.pending.any isArrival) "ArrivalRecorded should be emitted" ++
      expect (r.holds notice) "arrival should exist" ++
      inspect r notice fun record =>
        expect (record.id = notice) "voyage notice id should match" ++
          expect (record.details = casablanca) "fields should match"

def rerecordSameId (a : Acceptance) : Except Halt Result := do
  let (r,failures) := a.deployed
  let replacement := tanger "Another Ship" "EN_ATTENTE"
  let time ← Checked.after a.baseTime 1
  let (result,r) := r.apply ⟨a.owner,.record,notice,replacement,time⟩
  let found := match result with
    | .ok _ => inspect r notice fun record =>
        expect (record.details = replacement) "all fields should be replaced"
    | .error refusal => ["re-record failed: " ++ refusal.message]
  return .ofFailures "rerecord_same_id" 2 r <|
    failures ++ found ++ expect (r.recordCount = 1) "one record per id"

def updateExisting (a : Acceptance) : Except Halt Result := do
  let (r,failures) := a.deployed
  let update := tanger "Updated Ship" "ARRIVE"
  let time ← Checked.after a.baseTime 1
  let (result,r) := r.apply ⟨a.owner,.update,notice,update,time⟩
  let found := match result with
    | .ok id =>
        expect (r.shipEvents "ESC002" = [id]) "update should be indexed under the new call reference" ++
          inspect r notice fun record => expect (record.details = update) "fields should be updated"
    | .error refusal => ["update failed: " ++ refusal.message]
  return .ofFailures "update_existing" 2 r (failures ++ found)

def updateMissing (a : Acceptance) : Result :=
  let (result,r) := (Registry.new a.owner).apply
    ⟨a.owner,.update,unknownNotice,tanger "Another Ship" "EN_ATTENTE",a.baseTime⟩
  let missed := match result with
    | .error (.notFound _) => true
    | _ => false
  .ofFailures "update_missing" 1 r <|
    expect missed "update of an unknown notice should fail with NotFound" ++
      expect (r.eventCount = 0) "no event should be appended"

def nonOwnerUpdate (a : Acceptance) : Except Halt Result := do
  let (r,failures) := a.deployed
  let time ← Checked.after a.baseTime 1
  let (result,r) := r.apply ⟨a.intruder,.update,notice,tanger "Another Ship" "EN_ATTENTE",time⟩
  let denied := match result with
    | .error (.unauthorized _) => true
    | _ => false
  let unchanged := match r.get notice with
    | .ok record => record.details = casablanca
    | .error _ => false
  return .ofFailures "non_owner_update" 2 r <|
    failures ++ expect denied "non-owner update should fail with Unauthorized" ++
      expect unchanged "record should be unchanged"

def shipAndPortLookup (a : Acceptance) : Result :=
  let (r,failures) := a.deployed
  let found := match r.pending.findSome? receiptId? with
    | some id =>
        expect (r.shipEvents "ESC001" = [id]) "ship events should hold the emitted id" ++
          expect (r.portEvents "CASA" = [id]) "port events should hold the emitted id"
    | none => ["EventRecorded should be emitted"]
  .ofFailures "ship_and_port_lookup" 1 r (failures ++ found)

def existenceCheck (a : Acceptance) : Result :=
  let (r,failures) := a.deployed
  .ofFailures "existence_check" 1 r <|
    failures ++ expect (r.holds notice) "recorded notice should exist" ++
      expect (¬ r.holds unknownNotice) "unknown notice should not exist"

-- All scenarios in their fixed order. Three of them write a millisecond later,
-- which the last of all times has no room for.
def runAll (a : Acceptance) : Except Halt (List Result) := do
  let rerecorded ← a.rerecordSameId
  let updated ← a.updateExisting
  let denied ← a.nonOwnerUpdate
  return [a.deployment,a.recordNew,rerecorded,updated,a.updateMissing,denied,a.shipAndPortLookup,
    a.existenceCheck]

end Acceptance

end Harbour.Scenario
