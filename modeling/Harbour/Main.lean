import Std.Time.DateTime.Timestamp
import Harbour.CommandLine
import Harbour.Notice

namespace Harbour.Environment

-- What only the machine can give. Each function asks and passes on; nothing is
-- decided here.
def milliseconds : IO Int := do
  let stamp ← Std.Time.Timestamp.now
  return stamp.toMillisecondsSinceUnixEpoch.val

def now : IO Int64 := return Int64.ofInt (← milliseconds)

def messageId : IO MessageId := do
  let octets ← IO.getRandomBytes 10
  let random := Positional.read 256 (octets.data.toList.map UInt8.toNat)
  return .version7 (UInt64.ofNat (← milliseconds).toNat) random

def notice (id : VoyageId) (details : Details) : IO Notice :=
  return .fresh (← messageId) id details

def config : IO (Except ConfigFault Config) := do
  let owner ← IO.getEnv Config.ownerKey
  let maxEvents ← IO.getEnv Config.maxEventsKey
  let dedupWindow ← IO.getEnv Config.dedupWindowKey
  return Config.ofLookup fun key =>
    if key = Config.ownerKey then owner
    else if key = Config.maxEventsKey then maxEvents
    else if key = Config.dedupWindowKey then dedupWindow
    else none

end Harbour.Environment

namespace Harbour.CommandLine

def reason : IO.Error → String
  | .noFileOrDirectory _ code details => s!"{details} (os error {code})"
  | .inappropriateType _ code details => s!"{details} (os error {code})"
  | .permissionDenied _ code details => s!"{details} (os error {code})"
  | .invalidArgument _ code details => s!"{details} (os error {code})"
  | .resourceExhausted _ code details => s!"{details} (os error {code})"
  | .otherError code details => s!"{details} (os error {code})"
  | e => toString e

def fail (complaint : String) : IO UInt32 := do
  IO.eprintln complaint
  return 1

def conclude (passed : Bool) : IO UInt32 :=
  match verdict passed with
  | none => return 0
  | some complaint => fail complaint

def perform : Action → IO UInt32
  | .refuse fault => fail (complaint fault.message)
  | .halt why => do
      IO.eprintln why.message
      return 101
  | .print report passed => do
      IO.println report
      conclude passed
  | .save path report passed => do
      match ← (IO.FS.writeFile path report).toBaseIO with
      | .ok () => conclude passed
      | .error e => fail (complaint (reason e))

def run (args : List String) : IO UInt32 := do
  match parse args with
  | .error fault => perform (.refuse fault)
  | .ok request =>
      let baseTime ← Environment.now
      let start ← IO.monoNanosNow
      let report ← IO.lazyPure fun _ => simulate request baseTime
      let stop ← IO.monoNanosNow
      perform (finish request (UInt64.ofNat (stop - start)) report)

end Harbour.CommandLine

def main (args : List String) : IO UInt32 := Harbour.CommandLine.run args
