import Harbour.Proofs.Decisions
import Harbour.Proofs.Refinement
import Harbour.Proofs.Tally
import Harbour.Scenario.Acceptance

namespace Harbour

namespace Scenario

structure Script where
  name : String
  calls : List Call

namespace Acceptance

variable (a : Acceptance)

def opening : Call := ⟨a.owner,.record,notice,casablanca,a.baseTime⟩

def rewriting : Call := ⟨a.owner,.record,notice,tanger "Another Ship" "EN_ATTENTE",a.baseTime + 1⟩

def updating : Call := ⟨a.owner,.update,notice,tanger "Updated Ship" "ARRIVE",a.baseTime + 1⟩

def intruding : Call := ⟨a.intruder,.update,notice,tanger "Another Ship" "EN_ATTENTE",a.baseTime + 1⟩

def missing : Call := ⟨a.owner,.update,unknownNotice,tanger "Another Ship" "EN_ATTENTE",a.baseTime⟩

def scripts : List Script :=
  [⟨"deployment",[]⟩,⟨"record_new",[a.opening]⟩,⟨"rerecord_same_id",[a.opening,a.rewriting]⟩,
    ⟨"update_existing",[a.opening,a.updating]⟩,⟨"update_missing",[a.missing]⟩,
    ⟨"non_owner_update",[a.opening,a.intruding]⟩,⟨"ship_and_port_lookup",[a.opening]⟩,
    ⟨"existence_check",[a.opening]⟩]

def play (s : Script) : List Reply × Registry := (Registry.new a.owner).run (s.calls.map .call)

def report (s : Script) (failures : List String) : Result :=
  .ofFailures s.name (UInt64.ofNat s.calls.length) (a.play s).2 failures

def due (s : Script) : List String :=
  if s.name = "non_owner_update" ∧ a.intruder = a.owner then
    ["non-owner update should fail with Unauthorized","record should be unchanged"]
  else []

def held (h : History) : Ledger := ⟨a.owner,Log.unlimited,h,0⟩

variable {a} {h : History}

theorem new_held (a : Acceptance) : Registry.new a.owner = (a.held []).registry := rfl

theorem empty_sound (a : Acceptance) : (a.held []).Sound := Ledger.opened_sound (.new a.owner)

theorem opening_sound (a : Acceptance) : (a.held [a.opening.record]).Sound :=
  ⟨Nat.zero_le 1,show 1 ≤ Log.unlimited.toNat by decide⟩

theorem get_held {id : VoyageId} {w : Record} (last : h.latest id = some w) :
    (a.held h).registry.get id = .ok w := by
  rw [Ledger.registry,Registry.get_after,History.fetch]
  simp only [held,last]

theorem holds_held (id : VoyageId) : (a.held h).registry.holds id = decide (id ∈ h.ids) :=
  Registry.holds_after _ _ _ _ _

theorem shipEvents_held (callReference : String) :
    (a.held h).registry.shipEvents callReference = h.under Details.callReference callReference :=
  h.lookup_under Entry.callReference Details.callReference callReference fun _ _ => rfl

theorem portEvents_held (portCode : String) :
    (a.held h).registry.portEvents portCode = h.under Details.portCode portCode :=
  h.lookup_under Entry.portCode Details.portCode portCode fun _ _ => rfl

theorem inspect_held {id : VoyageId} {w : Record} (last : h.latest id = some w) (look : Record → List String) :
    inspect (a.held h).registry id look = look w := by
  rw [inspect,get_held last]

theorem opening_taken (a : Acceptance) :
    (Registry.new a.owner).commit a.opening = .ok (⟨1⟩,(a.held [a.opening.record]).registry) := by
  have owned : a.opening.caller = (a.held []).owner := rfl
  rw [new_held,Ledger.commit_own (empty_sound a) owned rfl]
  rfl

theorem deployed_exact : a.deployed = ((a.held [a.opening.record]).registry,[]) := by
  have taken := opening_taken a
  unfold opening at taken
  simp only [deployed,taken]
  rfl

theorem again_taken (call : Call) (owned : call.caller = a.owner) (about : call.id = notice) :
    (a.held [a.opening.record]).registry.apply call =
      (.ok ⟨2⟩,(a.held [a.opening.record,call.record]).registry) := by
  have known : call.id ∈ History.ids [a.opening.record] := about ▸ List.mem_singleton.mpr rfl
  have room : 1 < Log.unlimited.toNat := by decide
  rw [Ledger.apply_registry (opening_sound a),
    Ledger.write_accepted (a.held [a.opening.record]) call owned (fun absent => absent.2 known) room]
  rfl

theorem again_denied (call : Call) (stranger : call.caller ≠ a.owner) :
    (a.held [a.opening.record]).registry.apply call =
      (.error (.unauthorized call.caller),(a.held [a.opening.record]).registry) := by
  have foreign : call.caller ≠ (a.held [a.opening.record]).owner := stranger
  rw [Ledger.apply_registry (opening_sound a),Ledger.write,if_pos foreign]

theorem missing_denied :
    (Registry.new a.owner).apply a.missing = (.error (.notFound unknownNotice),Registry.new a.owner) := by
  have owned : ¬ a.missing.caller ≠ (a.held []).owner := not_not_intro rfl
  have absent : a.missing.mode = .update ∧ a.missing.id ∉ (a.held []).writes.ids := ⟨rfl,List.not_mem_nil⟩
  rw [new_held,Ledger.apply_registry (empty_sound a),Ledger.write,if_neg owned,if_pos absent]
  rfl

theorem play_opening (name : String) :
    (a.play ⟨name,[a.opening]⟩).2 = (a.held [a.opening.record]).registry := by
  change ((Registry.new a.owner).apply a.opening).2 = _
  rw [Registry.apply_of_commit,opening_taken]

theorem play_second (name : String) (call : Call) :
    (a.play ⟨name,[a.opening,call]⟩).2 = ((a.held [a.opening.record]).registry.apply call).2 := by
  rw [← play_opening name]
  rfl

theorem play_again (name : String) (call : Call) (owned : call.caller = a.owner) (about : call.id = notice) :
    (a.play ⟨name,[a.opening,call]⟩).2 = (a.held [a.opening.record,call.record]).registry := by
  rw [play_second,again_taken call owned about]

-- Every scenario reports on the registry that its script leaves. What it looks at
-- there is read off the writes.
theorem deployment_exact : a.deployment = a.report ⟨"deployment",[]⟩ [] := by
  have own : (Registry.new a.owner).owner = a.owner := rfl
  simp only [deployment,own,decide_true]
  rfl

theorem recordNew_exact : a.recordNew = a.report ⟨"record_new",[a.opening]⟩ [] := by
  have known : (a.held [a.opening.record]).registry.holds notice = true := holds_held notice
  have last : History.latest [a.opening.record] notice = some a.opening.record := rfl
  unfold recordNew
  rw [deployed_exact,report,play_opening]
  simp only [known,inspect_held last]
  rfl

theorem updateMissing_exact : a.updateMissing = a.report ⟨"update_missing",[a.missing]⟩ [] := by
  have denied : (Registry.new a.owner).apply
      ⟨a.owner,.update,unknownNotice,tanger "Another Ship" "EN_ATTENTE",a.baseTime⟩ =
        (.error (.notFound unknownNotice),Registry.new a.owner) := missing_denied
  have left : (a.play ⟨"update_missing",[a.missing]⟩).2 = Registry.new a.owner := congrArg Prod.snd denied
  unfold updateMissing
  rw [denied,report,left]
  rfl

theorem shipAndPortLookup_exact : a.shipAndPortLookup = a.report ⟨"ship_and_port_lookup",[a.opening]⟩ [] := by
  have told : (a.held [a.opening.record]).registry.pending.findSome? receiptId? = some ⟨1⟩ := rfl
  have ship : (a.held [a.opening.record]).registry.shipEvents "ESC001" = [⟨1⟩] := shipEvents_held _
  have port : (a.held [a.opening.record]).registry.portEvents "CASA" = [⟨1⟩] := portEvents_held _
  unfold shipAndPortLookup
  rw [deployed_exact,report,play_opening]
  simp only [told,ship,port]
  rfl

theorem existenceCheck_exact : a.existenceCheck = a.report ⟨"existence_check",[a.opening]⟩ [] := by
  have known : (a.held [a.opening.record]).registry.holds notice = true := holds_held _
  have unknown : (a.held [a.opening.record]).registry.holds unknownNotice = false := holds_held _
  unfold existenceCheck
  rw [deployed_exact,report,play_opening]
  simp only [known,unknown]
  rfl

section
variable (timed : Checked.after a.baseTime 1 = .ok (a.baseTime + 1))
include timed

theorem rerecordSameId_exact :
    a.rerecordSameId = .ok (a.report ⟨"rerecord_same_id",[a.opening,a.rewriting]⟩ []) := by
  have again : (a.held [a.opening.record]).registry.apply
      ⟨a.owner,.record,notice,tanger "Another Ship" "EN_ATTENTE",a.baseTime + 1⟩ =
        (.ok ⟨2⟩,(a.held [a.opening.record,a.rewriting.record]).registry) :=
    again_taken a.rewriting rfl rfl
  have last : History.latest [a.opening.record,a.rewriting.record] notice = some a.rewriting.record := rfl
  unfold rerecordSameId
  rw [deployed_exact,timed,report,play_again _ a.rewriting rfl rfl]
  simp only [bind,Except.bind,again,inspect_held last]
  rfl

theorem updateExisting_exact :
    a.updateExisting = .ok (a.report ⟨"update_existing",[a.opening,a.updating]⟩ []) := by
  have again : (a.held [a.opening.record]).registry.apply
      ⟨a.owner,.update,notice,tanger "Updated Ship" "ARRIVE",a.baseTime + 1⟩ =
        (.ok ⟨2⟩,(a.held [a.opening.record,a.updating.record]).registry) :=
    again_taken a.updating rfl rfl
  have ship : (a.held [a.opening.record,a.updating.record]).registry.shipEvents "ESC002" = [⟨2⟩] :=
    shipEvents_held _
  have last : History.latest [a.opening.record,a.updating.record] notice = some a.updating.record := rfl
  unfold updateExisting
  rw [deployed_exact,timed,report,play_again _ a.updating rfl rfl]
  simp only [bind,Except.bind,again,ship,inspect_held last]
  rfl

theorem nonOwnerUpdate_exact :
    a.nonOwnerUpdate = .ok (a.report ⟨"non_owner_update",[a.opening,a.intruding]⟩
      (a.due ⟨"non_owner_update",[a.opening,a.intruding]⟩)) := by
  unfold nonOwnerUpdate
  rw [deployed_exact,timed,report,due]
  by_cases own : a.intruder = a.owner
  · have again : (a.held [a.opening.record]).registry.apply
        ⟨a.intruder,.update,notice,tanger "Another Ship" "EN_ATTENTE",a.baseTime + 1⟩ =
          (.ok ⟨2⟩,(a.held [a.opening.record,a.intruding.record]).registry) :=
      again_taken a.intruding own rfl
    have last : History.latest [a.opening.record,a.intruding.record] notice = some a.intruding.record := rfl
    rw [if_pos ⟨rfl,own⟩,play_again _ a.intruding own rfl]
    simp only [bind,Except.bind,again,get_held last]
    rfl
  · have denied : (a.held [a.opening.record]).registry.apply
        ⟨a.intruder,.update,notice,tanger "Another Ship" "EN_ATTENTE",a.baseTime + 1⟩ =
          (.error (.unauthorized a.intruder),(a.held [a.opening.record]).registry) :=
      again_denied a.intruding own
    have last : History.latest [a.opening.record] notice = some a.opening.record := rfl
    rw [if_neg fun both => own both.2,play_second,again_denied a.intruding own]
    simp only [bind,Except.bind,denied,get_held last]
    rfl

end

structure Reported (a : Acceptance) (s : Script) (r : Result) : Prop where
  name : r.name = s.name
  operations : r.operations.toNat = s.calls.length
  events : r.eventsEmitted.toNat = (a.play s).1.countP Reply.accepted
  passed : r.passed = true ↔ (s.name = "non_owner_update" → a.intruder ≠ a.owner)
  details : r.details = if r.passed then "ok" else
    "non-owner update should fail with Unauthorized; record should be unchanged"

theorem report_counts {s : Script} (few : s.calls.length < 0x10000000000000000) (failures : List String) :
    (a.report s failures).operations.toNat = s.calls.length ∧
      (a.report s failures).eventsEmitted.toNat = (a.play s).1.countP Reply.accepted := by
  have counted : (a.play s).2.eventCount = (a.play s).1.countP Reply.accepted :=
    (Registry.run_count _ _).trans (Nat.zero_add _)
  have answered : (a.play s).1.length = s.calls.length :=
    (Registry.run_length _ _).trans (List.length_map _)
  have bound := (a.play s).1.countP_le_length (p := Reply.accepted)
  constructor
  · change (UInt64.ofNat s.calls.length).toNat = s.calls.length
    rw [UInt64.toNat_ofNat']
    exact Nat.mod_eq_of_lt few
  · change (UInt64.ofNat (a.play s).2.eventCount).toNat = _
    rw [UInt64.toNat_ofNat',counted]
    exact Nat.mod_eq_of_lt (by omega)

theorem report_due {s : Script} (few : s.calls.length < 0x10000000000000000) :
    a.Reported s (a.report s (a.due s)) := by
  obtain ⟨operations,events⟩ := report_counts few (a.due s)
  by_cases own : s.name = "non_owner_update" ∧ a.intruder = a.owner
  · rw [due,if_pos own] at operations events ⊢
    exact ⟨rfl,operations,events,
      ⟨fun passed => Bool.noConfusion passed,fun apart => absurd own.2 (apart own.1)⟩,rfl⟩
  · rw [due,if_neg own] at operations events ⊢
    exact ⟨rfl,operations,events,⟨fun _ named same => own ⟨named,same⟩,fun _ => rfl⟩,rfl⟩

theorem runAll_exact (early : a.baseTime ≠ Int64.maxValue) :
    a.runAll = .ok (a.scripts.map fun s => a.report s (a.due s)) := by
  have timed := Checked.after_one early
  rw [runAll,deployment_exact,recordNew_exact,rerecordSameId_exact timed,updateExisting_exact timed,
    updateMissing_exact,nonOwnerUpdate_exact timed,shipAndPortLookup_exact,existenceCheck_exact]
  rfl

theorem runAll_halts (late : a.baseTime = Int64.maxValue) : a.runAll = .error .overflow := by
  have stopped : Checked.after a.baseTime 1 = .error .overflow := by rw [late]; rfl
  have halted : a.rerecordSameId = .error .overflow := by
    rw [rerecordSameId,stopped]
    rfl
  rw [runAll,halted]
  rfl

theorem scripts_few : ∀ s ∈ a.scripts, s.calls.length < 0x10000000000000000 := by
  intro s present
  have listed : s.calls.length ∈ [0,1,2,2,1,2,1,1] := List.mem_map_of_mem (f := fun s => s.calls.length) present
  have small : ∀ count ∈ [0,1,2,2,1,2,1,1], count < 0x10000000000000000 := by decide
  exact small _ listed

end Acceptance

-- The suite halts at the last of all times and nowhere else.
theorem acceptance_fails_exactly (a : Acceptance) :
    ((∃ why, a.runAll = .error why) ↔ a.baseTime = Int64.maxValue) ∧
      (a.baseTime ≠ Int64.maxValue →
        ∃ results, a.runAll = .ok results ∧ List.Forall₂ a.Reported a.scripts results) := by
  refine ⟨⟨?_,fun late => ⟨_,Acceptance.runAll_halts late⟩⟩,?_⟩
  · rintro ⟨why,halted⟩
    by_contra early
    rw [Acceptance.runAll_exact early] at halted
    cases halted
  · intro early
    refine ⟨_,Acceptance.runAll_exact early,?_⟩
    rw [List.forall₂_map_right_iff,List.forall₂_same]
    exact fun s present => Acceptance.report_due (Acceptance.scripts_few s present)

theorem acceptance_fails_exactly_nameless :
    let a : Acceptance := ⟨"","",9223372036854775806⟩
    let late : Acceptance := ⟨"","",9223372036854775807⟩
    a.baseTime ≠ Int64.maxValue ∧
      (∃ results, a.runAll = .ok results ∧ List.Forall₂ a.Reported a.scripts results) ∧
      (a.scripts.map fun s => (a.play s).1.countP Reply.accepted) = [0,1,2,2,0,2,1,1] ∧
      ∃ why, late.runAll = .error why := by
  intro a late
  have early : a.baseTime ≠ Int64.maxValue := by decide
  exact ⟨early,(acceptance_fails_exactly a).2 early,rfl,(acceptance_fails_exactly late).1.mpr rfl⟩

end Scenario

end Harbour
