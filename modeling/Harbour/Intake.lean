import Std.Data.HashSet
import Harbour.Notice
import Harbour.Registry

namespace Harbour

-- Oldest first, with a set of the same identifiers for quick answers. A window
-- of size zero remembers nothing.
structure Window where
  size : Nat
  recent : List MessageId
  seen : Std.HashSet MessageId

namespace Window

def empty (size : Nat) : Window := ⟨size,[],∅⟩

def contains (w : Window) (m : MessageId) : Bool := w.seen.contains m

def remember (w : Window) (m : MessageId) : Window :=
  if w.size = 0 then w
  else if w.size ≤ w.recent.length then
    match w.recent with
    | oldest :: rest => ⟨w.size,rest ++ [m],(w.seen.erase oldest).insert m⟩
    | [] => ⟨w.size,[m],w.seen.insert m⟩
  else ⟨w.size,w.recent ++ [m],w.seen.insert m⟩

end Window

inductive Rejection where
  | notice (fault : NoticeFault)
  | registry (refusal : Refusal)
deriving DecidableEq, Repr

def Rejection.message : Rejection → String
  | .notice fault => "Invalid notice: " ++ fault.message
  | .registry refusal => "Registry rejected notice: " ++ refusal.message

inductive Outcome where
  | recorded (id : EventId)
  | duplicate
deriving DecidableEq, Repr

structure Intake where
  registry : Registry
  submitter : String
  window : Window
  recorded : UInt64
  duplicates : UInt64
  rejected : UInt64

namespace Intake

structure Counts where
  recorded : UInt64
  duplicates : UInt64
  rejected : UInt64
deriving DecidableEq, Repr

def Counts.after (c : Counts) : Except Rejection Outcome → Except Halt Counts
  | .ok (.recorded _) => return { c with recorded := ← Checked.add c.recorded 1 }
  | .ok .duplicate => return { c with duplicates := ← Checked.add c.duplicates 1 }
  | .error _ => return { c with rejected := ← Checked.add c.rejected 1 }

def counts (intake : Intake) : Counts := ⟨intake.recorded,intake.duplicates,intake.rejected⟩

def new (registry : Registry) (submitter : String) (window : Nat) : Intake :=
  ⟨registry,submitter,.empty window,0,0,0⟩

def ofConfig (c : Config) : Except ConfigFault Intake := do
  let registry ← Registry.ofConfig c
  return new registry c.owner c.dedupWindow.toNat

def call (intake : Intake) (n : Notice) (time : Int64) : Call :=
  ⟨intake.submitter,.record,n.id,n.details,time⟩

def reject (intake : Intake) (why : Rejection) : Except Rejection Outcome × Intake :=
  (.error why,{ intake with rejected := intake.rejected + 1 })

-- A duplicate is dropped before its content is looked at. A notice counts as
-- seen only once the registry has taken it.
def deliver (intake : Intake) (n : Notice) (time : Int64) : Except Rejection Outcome × Intake :=
  if intake.window.contains n.messageId then
    (.ok .duplicate,{ intake with duplicates := intake.duplicates + 1 })
  else
    match n.validate with
    | .error fault => intake.reject (.notice fault)
    | .ok () =>
        match intake.registry.commit (intake.call n time) with
        | .error refusal => intake.reject (.registry refusal)
        | .ok (id,registry) =>
            (.ok (.recorded id),{ intake with
              registry := registry
              window := intake.window.remember n.messageId
              recorded := intake.recorded + 1 })

def deliverText (intake : Intake) (payload : String) (time : Int64) :
    Except Rejection Outcome × Intake :=
  match Notice.parse payload with
  | .error fault => intake.reject (.notice fault)
  | .ok n => intake.deliver n time

-- A full count starts over in `deliver`. Where sums are checked, the delivery
-- that finds it full halts instead.
def checked (intake : Intake) (done : Except Rejection Outcome × Intake) :
    Except Halt (Except Rejection Outcome × Intake) := do
  let _ ← intake.counts.after done.1
  return done

def deliverChecked (intake : Intake) (n : Notice) (time : Int64) :
    Except Halt (Except Rejection Outcome × Intake) :=
  intake.checked (intake.deliver n time)

def deliverTextChecked (intake : Intake) (payload : String) (time : Int64) :
    Except Halt (Except Rejection Outcome × Intake) :=
  intake.checked (intake.deliverText payload time)

end Intake

end Harbour
