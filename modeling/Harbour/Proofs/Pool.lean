import Harbour.Proofs.Tally

namespace Harbour

namespace Workload

def Picked (items : List String) (fallback word : String) : Prop :=
  word ∈ items ∨ items = [] ∧ word = fallback

structure Shaped (w : Workload) (op : Operation) : Prop where
  recorded : op.mode = .record → 1 ≤ op.id.value.toNat ∧ op.id.value.toNat ≤ w.poolSize.toNat
  updated : op.mode = .update → 1 ≤ op.id.value.toNat ∧ op.id.value.toNat ≤ 2 * w.poolSize.toNat
  call : Picked w.callReferences "ESC000" op.details.callReference
  port : op.details.portName = "Port"
  code : Picked w.portCodes "CASA" op.details.portCode
  vessel : op.details.vesselName = "Vessel " ++ toString op.id.value.toNat
  status : Picked w.statuses "EN_ATTENTE" op.details.status

variable {σ : Type} [Random.Dice σ] {w : Workload} {s next : σ} {op : Operation}

theorem Shaped.past (shaped : w.Shaped op) (past : w.poolSize.toNat < op.id.value.toNat) : op.mode = .update := by
  cases mode : op.mode with
  | update => rfl
  | record =>
      have inside := (shaped.recorded mode).2
      omega

end Workload

namespace Registry

def Within (r : Registry) (pool : Nat) : Prop := ∀ id : VoyageId, pool < id.value.toNat → r.holds id = false

theorem install_within {r : Registry} {pool : Nat} (within : r.Within pool) (event : Event) {w : Record}
    (inside : w.id.value.toNat ≤ pool) : (r.install event w).Within pool := by
  intro id past
  apply Bool.eq_false_iff.mpr
  intro held
  rcases (Table.mem_keys_put _ _ _ _).mp ((Table.contains_exact _ _).mp held) with rfl | old
  · omega
  · exact Bool.eq_false_iff.mp (within id past) ((Table.contains_exact _ _).mpr old)

end Registry

namespace Scenario

namespace Load

def missed (load : Load) (owner : String) (op : Operation) : Refusal :=
  if load.callerName op.caller = owner then .notFound op.id else .unauthorized (load.callerName op.caller)

variable {load : Load} {run next last : Run} {position : Nat} {op : Operation} {ops : List Operation}

theorem Moved.within {r s : Registry} {pool : Nat} (moved : load.Moved position op r s) (within : r.Within pool)
    (inside : op.id.value.toNat ≤ pool) : s.Within pool := by
  cases moved with
  | kept => exact within
  | entered event => exact Registry.install_within within event inside

end Load

end Scenario

end Harbour
