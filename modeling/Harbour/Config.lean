import Harbour.Basic
import Harbour.Document.Codec
import Harbour.Log

namespace Harbour

open Document

structure Config where
  owner : String
  maxEvents : UInt64
  dedupWindow : UInt64
deriving DecidableEq, Repr

inductive ConfigFault where
  | missing (key : String)
  | invalid (key value : String)
  | unreadable (reason : String)
deriving DecidableEq, Repr

def ConfigFault.message : ConfigFault → String
  | .missing key => s!"Missing configuration key: {key}"
  | .invalid key value => s!"Invalid value for {key}: {value}"
  | .unreadable reason => s!"Configuration parse error: {reason}"

namespace Config

def ownerKey : String := "ARRIVAL_REGISTRY_OWNER"
def maxEventsKey : String := "ARRIVAL_REGISTRY_MAX_EVENTS"
def dedupWindowKey : String := "ARRIVAL_REGISTRY_DEDUP_WINDOW"

def defaultWindow : UInt64 := 10000
def largestWindow : UInt64 := 1000000

def new (owner : String) : Config := ⟨owner,Log.unlimited,defaultWindow⟩

def codec : Codec Config :=
  (Fields.field "owner" .text .required <|
    .field "max_events" .count (.defaulted Log.unlimited) <|
    .field "dedup_window" .count (.defaulted defaultWindow) .done).record.map
    (fun (owner,events,window,()) => ⟨owner,events,window⟩)
    (fun c => (c.owner,c.maxEvents,c.dedupWindow,()))

def validate (c : Config) : Except ConfigFault Unit :=
  if Text.allBlank c.owner then .error (.invalid "owner" c.owner)
  else if c.maxEvents = 0 then .error (.invalid "max_events" "0")
  else if largestWindow < c.dedupWindow then
    .error (.invalid "dedup_window" (toString c.dedupWindow.toNat))
  else .ok ()

def checked (c : Config) : Except ConfigFault Config := do
  c.validate
  return c

def parse (document : String) : Except ConfigFault Config := do
  let c ← (codec.decode document).mapError fun fault => .unreadable fault.reason
  c.checked

-- A number set by a variable: blanks around it do not count. The fault shows
-- the text as it was set.
def setting (lookup : String → Option String) (key : String) (default : UInt64) :
    Except ConfigFault UInt64 :=
  match lookup key with
  | none => .ok default
  | some raw => (Text.readCount (Text.trim raw.toList)).mapError fun _ => .invalid key raw

def ofLookup (lookup : String → Option String) : Except ConfigFault Config := do
  let owner ← match lookup ownerKey with
    | some owner => .ok owner
    | none => .error (.missing ownerKey)
  let maxEvents ← setting lookup maxEventsKey Log.unlimited
  let dedupWindow ← setting lookup dedupWindowKey defaultWindow
  checked ⟨owner,maxEvents,dedupWindow⟩

end Config

end Harbour
