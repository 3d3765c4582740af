import Harbour.Event

namespace Harbour

inductive Refusal where
  | unauthorized (caller : String)
  | notFound (id : VoyageId)
  | exhausted (limit : UInt64)
deriving DecidableEq, Repr

def Refusal.message : Refusal → String
  | .unauthorized caller => s!"Unauthorized: caller {caller} is not the owner"
  | .notFound id => "Arrival not found: " ++ id.text
  | .exhausted limit => s!"Event identifier space exhausted at {limit} events"

def genesis : Hash.Digest := Vector.replicate 32 0

-- What is hashed for an event. Both texts carry their length in front, so
-- nothing can move from one field into the next.
def preimage (previous : Hash.Digest) (id : EventId) (e : Entry) : List UInt8 :=
  previous.toList ++ Octets.ofWord id.value ++ Octets.ofWord e.voyage.value ++
    Octets.counted e.callReference ++ Octets.counted e.portCode ++
    e.kind.tag :: Octets.ofTime e.committedAt

def digest (previous : Hash.Digest) (id : EventId) (e : Entry) : Hash.Digest :=
  Hash.sha256 (preimage previous id e)

-- A log may be built freely; only `append` keeps its identifiers and digests right.
structure Log where
  limit : UInt64
  events : List Event
deriving DecidableEq, Repr

namespace Log

def unlimited : UInt64 := 0xffffffffffffffff

def empty (limit : UInt64) : Log := ⟨limit,[]⟩

def count (log : Log) : Nat := log.events.length

def headOf (events : List Event) : Hash.Digest :=
  match events.getLast? with
  | some last => last.digest
  | none => genesis

def head (log : Log) : Hash.Digest := headOf log.events

def nextId (log : Log) : Except Refusal EventId :=
  if log.limit.toNat ≤ log.count then .error (.exhausted log.limit)
  else match log.events.getLast? with
    | none => .ok .first
    | some last =>
        match last.id.next? with
        | some id => .ok id
        | none => .error (.exhausted log.limit)

def stage (log : Log) (entry : Entry) : Except Refusal Event := do
  let id ← log.nextId
  return ⟨id,entry,digest log.head id entry⟩

def commit (log : Log) (event : Event) : Log := { log with events := log.events ++ [event] }

def append (log : Log) (entry : Entry) : Except Refusal (EventId × Log) := do
  let event ← log.stage entry
  return (event.id,log.commit event)

def get? (log : Log) (id : EventId) : Option Event :=
  if id.value = 0 then none else log.events[id.value.toNat - 1]?

def idAt (position : Nat) : EventId := ⟨UInt64.ofNat (position + 1)⟩

-- Each event is checked against the digest stored before it, so that a fault is
-- reported where it stands and not everywhere after it.
def firstInvalidFrom (previous : Hash.Digest) (position : Nat) : List Event → Option EventId
  | [] => none
  | e :: rest =>
      let expected := idAt position
      if e.id ≠ expected ∨ digest previous expected e.entry ≠ e.digest then some expected
      else firstInvalidFrom e.digest (position + 1) rest

def firstInvalid (log : Log) : Option EventId := firstInvalidFrom genesis 0 log.events

def chained (log : Log) : Bool := log.firstInvalid.isNone

end Log

end Harbour
