import Harbour.Config
import Harbour.Table

namespace Harbour

-- Names are compared as they are: case, blanks and accents all count.
structure Access where
  owner : String
deriving DecidableEq, Repr

namespace Access

def isOwner (a : Access) (caller : String) : Bool := a.owner = caller

def authorize (a : Access) (caller : String) : Except Refusal Unit :=
  if a.isOwner caller then .ok () else .error (.unauthorized caller)

end Access

-- The key is the caller's word; that it is the record's own identifier is the
-- registry's business.
abbrev Store := Table VoyageId Record

namespace Store

def fetch (store : Store) (id : VoyageId) : Except Refusal Record :=
  match store.get? id with
  | some record => .ok record
  | none => .error (.notFound id)

def holds (store : Store) (id : VoyageId) : Bool := store.contains id

end Store

abbrev Index := Table String (List EventId)

namespace Index

def lookup (index : Index) (key : String) : List EventId := (index.get? key).getD []

def append (index : Index) (key : String) (id : EventId) : Index :=
  index.put key (index.lookup key ++ [id])

def keyCount (index : Index) : Nat := index.size

def entryCount (index : Index) : Nat := (index.entries.flatMap Prod.snd).length

end Index

-- A registry may be put together freely. What its own operations keep is
-- proved of them and not asked of the type, so that the checks have something to find.
structure Registry where
  access : Access
  records : Store
  log : Log
  ships : Index
  ports : Index
  pending : List Notification
deriving DecidableEq

inductive Mode where
  | record
  | update
deriving DecidableEq, Repr

structure Call where
  caller : String
  mode : Mode
  id : VoyageId
  details : Details
  time : Int64
deriving DecidableEq, Repr

def Call.entry (call : Call) (kind : Kind) : Entry :=
  ⟨call.id,call.details.callReference,call.details.portCode,kind,call.time⟩

def Call.record (call : Call) : Record := ⟨call.id,call.details,call.time⟩

namespace Registry

-- Owner, limit and nothing else; the configuration is not checked.
def deploy (c : Config) : Registry :=
  ⟨⟨c.owner⟩,.empty,.empty c.maxEvents,.empty,.empty,[]⟩

def new (owner : String) : Registry := deploy (.new owner)

def ofConfig (c : Config) : Except ConfigFault Registry := do
  let c ← c.checked
  return deploy c

def owner (r : Registry) : String := r.access.owner

def get (r : Registry) (id : VoyageId) : Except Refusal Record := r.records.fetch id
def holds (r : Registry) (id : VoyageId) : Bool := r.records.holds id
def shipEvents (r : Registry) (callReference : String) : List EventId := r.ships.lookup callReference
def portEvents (r : Registry) (portCode : String) : List EventId := r.ports.lookup portCode
def event? (r : Registry) (id : EventId) : Option Event := r.log.get? id
def eventCount (r : Registry) : Nat := r.log.count
def recordCount (r : Registry) : Nat := r.records.size

def kindOf (r : Registry) (id : VoyageId) : Kind := if r.holds id then .updated else .created

def install (r : Registry) (event : Event) (record : Record) : Registry where
  access := r.access
  records := r.records.put record.id record
  log := r.log.commit event
  ships := r.ships.append event.entry.callReference event.id
  ports := r.ports.append event.entry.portCode event.id
  pending := r.pending ++ [.arrivalRecorded record,.eventRecorded event.receipt]

def commit (r : Registry) (call : Call) : Except Refusal (EventId × Registry) := do
  r.access.authorize call.caller
  if call.mode = .update ∧ ¬ r.holds call.id then .error (.notFound call.id)
  else
    let event ← r.log.stage (call.entry (r.kindOf call.id))
    return (event.id,r.install event call.record)

def apply (r : Registry) (call : Call) : Except Refusal EventId × Registry :=
  match r.commit call with
  | .ok (id,next) => (.ok id,next)
  | .error refusal => (.error refusal,r)

def drain (r : Registry) : List Notification × Registry := (r.pending,{ r with pending := [] })

end Registry

-- Together these checks leave no room for a stray or missing entry.
namespace Index

def ascending : List EventId → Bool
  | a :: b :: rest => a.before b && ascending (b :: rest)
  | _ => true

-- Halves the list until the identifier is met. Only an ascending list is
-- searched this way.
def search (id : EventId) (ids : List EventId) : Bool :=
  match whole : ids.drop (ids.length / 2) with
  | [] => false
  | middle :: upper =>
      have shorter : upper.length < ids.length := by
        have lengths := congrArg List.length whole
        simp only [List.length_drop,List.length_cons] at lengths
        omega
      if id = middle then true
      else if id.before middle then
        if halved : 0 < ids.length / 2 then search id (ids.take (ids.length / 2)) else false
      else search id upper
termination_by ids.length
decreasing_by
  · simp only [List.length_take]; omega
  · exact shorter

end Index

namespace Registry

def verify (r : Registry) : Bool :=
  r.log.chained &&
  r.ships.entryCount == r.eventCount && r.ports.entryCount == r.eventCount &&
  r.ships.entries.all (fun entry => Index.ascending entry.2) &&
  r.ports.entries.all (fun entry => Index.ascending entry.2) &&
  r.log.events.all fun e =>
    Index.search e.id (r.ships.lookup e.entry.callReference) &&
      Index.search e.id (r.ports.lookup e.entry.portCode)

end Registry

end Harbour
