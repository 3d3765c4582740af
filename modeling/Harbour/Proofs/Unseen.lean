import Mathlib.Data.List.Forall2
import Harbour.Proofs.Growth
import Harbour.Proofs.Replay

namespace Harbour

def Record.masked (w : Record) : Record :=
  { w with details := { w.details with portName := "", vesselName := "", status := "" } }

def Notification.masked : Notification → Notification
  | .arrivalRecorded w => .arrivalRecorded w.masked
  | .eventRecorded receipt => .eventRecorded receipt

def Refusal.masked : Refusal → Refusal
  | .unauthorized _ => .unauthorized ""
  | .notFound id => .notFound id
  | .exhausted limit => .exhausted limit

def Reply.masked : Reply → Reply
  | .outcome answer => .outcome (answer.mapError Refusal.masked)
  | .batch notifications => .batch (notifications.map Notification.masked)

structure Call.Matches (owner other : String) (one two : Call) : Prop where
  mode : one.mode = two.mode
  id : one.id = two.id
  callReference : one.details.callReference = two.details.callReference
  portCode : one.details.portCode = two.details.portCode
  time : one.time = two.time
  owned : one.caller = owner ↔ two.caller = other

inductive Step.Matches (owner other : String) : Step → Step → Prop where
  | call : Call.Matches owner other one two → Matches owner other (.call one) (.call two)
  | drain : Matches owner other .drain .drain

theorem Call.Matches.entry {one two : Call} (alike : one.Matches owner other two) (kind : Kind) :
    one.entry kind = two.entry kind := by
  simp only [Call.entry,alike.id,alike.callReference,alike.portCode,alike.time]

theorem Call.Matches.record {one two : Call} (alike : one.Matches owner other two) :
    one.record.masked = two.record.masked := by
  simp only [Call.record,Record.masked,alike.id,alike.callReference,alike.portCode,alike.time]

namespace Registry

structure Level (r s : Registry) : Prop where
  log : r.log = s.log
  ships : r.ships = s.ships
  ports : r.ports = s.ports
  ids : r.records.keys = s.records.keys
  told : r.pending.map Notification.masked = s.pending.map Notification.masked

variable {r s : Registry}

theorem deploy_level (same : c.maxEvents = d.maxEvents) : (deploy c).Level (deploy d) where
  log := congrArg Log.empty same
  ships := rfl
  ports := rfl
  ids := rfl
  told := rfl

theorem Level.holds (level : r.Level s) (id : VoyageId) : r.holds id = s.holds id := by
  rw [Bool.eq_iff_iff]
  simp only [Registry.holds,Store.holds,Table.contains_exact,level.ids]

theorem Level.kindOf (level : r.Level s) (id : VoyageId) : r.kindOf id = s.kindOf id := by
  simp only [Registry.kindOf,level.holds]

theorem Level.install (level : r.Level s) (event : Event) {v w : Record} (same : v.masked = w.masked) :
    (r.install event v).Level (s.install event w) where
  log := by simp only [Registry.install,level.log]
  ships := by simp only [Registry.install,level.ships]
  ports := by simp only [Registry.install,level.ports]
  ids := by
    have id : v.id = w.id := by
      change v.masked.id = w.masked.id
      rw [same]
    simp only [Registry.install,Table.keys_put,level.ids,id]
  told := by
    simp only [Registry.install,List.map_append,level.told,List.map_cons,List.map_nil,Notification.masked,same]

-- A snapshot has no place for a name.
theorem Level.capture (level : r.Level s) : Snapshot.capture r = Snapshot.capture s := by
  have records : r.recordCount = s.recordCount := by
    have lengths := congrArg List.length level.ids
    rwa [Table.keys,Table.keys,List.length_map,List.length_map] at lengths
  simp only [Snapshot.capture,eventCount,level.log,level.ships,level.ports,records]

theorem apply_level (level : r.Level s) {one two : Call} (alike : one.Matches r.owner s.owner two) :
    ((r.apply one).1.mapError Refusal.masked = (s.apply two).1.mapError Refusal.masked) ∧
      (r.apply one).2.Level (s.apply two).2 := by
  rw [apply_of_commit,apply_of_commit,commit_exact,commit_exact]
  by_cases owned : one.caller = r.owner
  · have owned' := alike.owned.mp owned
    rw [if_neg (not_not_intro owned),if_neg (not_not_intro owned'),← alike.mode,← alike.id,← level.holds]
    by_cases missing : one.mode = .update ∧ r.holds one.id = false
    · rw [if_pos missing,if_pos missing]
      exact ⟨rfl,level⟩
    · rw [if_neg missing,if_neg missing,← level.log,← level.kindOf,← alike.entry]
      cases r.log.stage (one.entry (r.kindOf one.id)) with
      | error refusal => exact ⟨rfl,level⟩
      | ok event => exact ⟨rfl,level.install event alike.record⟩
  · have owned' : ¬ two.caller = s.owner := fun equal => owned (alike.owned.mpr equal)
    rw [if_pos owned,if_pos owned']
    exact ⟨rfl,level⟩

theorem step_level (level : r.Level s) {one two : Step} (alike : one.Matches r.owner s.owner two) :
    (r.step one).1.masked = (s.step two).1.masked ∧ (r.step one).2.Level (s.step two).2 := by
  cases alike with
  | call alike =>
      obtain ⟨answered,next⟩ := apply_level level alike
      exact ⟨congrArg Reply.outcome answered,next⟩
  | drain =>
      exact ⟨congrArg Reply.batch level.told,level.log,level.ships,level.ports,level.ids,rfl⟩

theorem step_owner (r : Registry) (s : Step) : (r.step s).2.owner = r.owner := by
  rcases r.step_parts s with ⟨_,pending,kept⟩ | ⟨_,event,w,installed⟩
  · rw [kept]; rfl
  · rw [installed]; rfl

theorem run_level (level : r.Level s) {mine yours : String} (owned : r.owner = mine) (owned' : s.owner = yours)
    {left right : List Step} (alike : List.Forall₂ (Step.Matches mine yours) left right) :
    (r.run left).1.map Reply.masked = (s.run right).1.map Reply.masked ∧
      (r.run left).2.Level (s.run right).2 := by
  induction alike generalizing r s with
  | nil => exact ⟨rfl,level⟩
  | cons first _ ih =>
      rw [← owned,← owned'] at first
      obtain ⟨replied,next⟩ := step_level level first
      obtain ⟨replies,last⟩ := ih next ((step_owner r _).trans owned) ((step_owner s _).trans owned')
      refine ⟨?_,last⟩
      rw [run_cons,run_cons,List.map_cons,List.map_cons,replied,replies]

end Registry

theorem Ledger.run_told (l : Ledger) {steps : List Step} (undrained : Step.drain ∉ steps) :
    (l.run steps).2.told = l.told := by
  induction steps generalizing l with
  | nil => rfl
  | cons s rest ih =>
      have later := ih (l.step s).2 fun present => undrained (List.mem_cons_of_mem _ present)
      refine later.trans ?_
      cases s with
      | drain => exact absurd List.mem_cons_self undrained
      | call call =>
          change (l.write call).2.told = l.told
          rcases l.write_cases call with ⟨refusal,refused⟩ | ⟨_,_,_,accepted⟩
          · rw [refused]
          · rw [accepted]

theorem Registry.undrained_matches (c : Config) {steps : List Step} (undrained : Step.drain ∉ steps)
    (owner : String) :
    let r := ((deploy c).run steps).2
    (Replay.validate owner r.pending (Snapshot.capture r)).matched = true := by
  intro r
  have ran : r = ((Ledger.opened c).run steps).2.registry := by
    change ((deploy c).run steps).2 = _
    rw [← Ledger.opened_registry,Ledger.run_registry (Ledger.opened_sound c)]
  rw [ran,Ledger.replay_matches (Ledger.run_sound (Ledger.opened_sound c) steps)]
  exact Ledger.run_told _ undrained

-- A replay that matches does not vouch for any of these names.
theorem names_go_unseen {left right : List Step} (same : c.maxEvents = d.maxEvents)
    (alike : List.Forall₂ (Step.Matches c.owner d.owner) left right) :
    ((Registry.deploy c).run left).1.map Reply.masked = ((Registry.deploy d).run right).1.map Reply.masked ∧
    ∀ moment,
      let r := ((Registry.deploy c).run (left.take moment)).2
      let s := ((Registry.deploy d).run (right.take moment)).2
      r.log = s.log ∧ r.ships = s.ships ∧ r.ports = s.ports ∧ Snapshot.capture r = Snapshot.capture s ∧
      (Step.drain ∉ left.take moment → ∀ owner,
        (Replay.validate owner r.pending (Snapshot.capture s)).matched = true) := by
  have start : (Registry.deploy c).Level (Registry.deploy d) := Registry.deploy_level same
  refine ⟨(Registry.run_level start rfl rfl alike).1,?_⟩
  intro moment r s
  have level : r.Level s := (Registry.run_level start rfl rfl (List.forall₂_take moment alike)).2
  refine ⟨level.log,level.ships,level.ports,level.capture,?_⟩
  intro undrained owner
  rw [← level.capture]
  exact Registry.undrained_matches c undrained owner

theorem names_go_unseen_renamed :
    let c : Config := ⟨"harbour",2,10⟩
    let d : Config := ⟨"quay",2,5⟩
    let left : List Step :=
      [.call ⟨"harbour",.record,⟨7⟩,⟨"ESC001","Casablanca","CASA","Atlas","waiting"⟩,10⟩,
        .call ⟨"quay",.record,⟨8⟩,⟨"ESC002","Casablanca","CASA","Atlas","waiting"⟩,15⟩,
        .call ⟨"harbour",.update,⟨7⟩,⟨"ESC001","Tanger","TNG","Atlas","berthed"⟩,20⟩]
    let right : List Step :=
      [.call ⟨"quay",.record,⟨7⟩,⟨"ESC001","","CASA","Rif","sunk"⟩,10⟩,
        .call ⟨"harbour",.record,⟨8⟩,⟨"ESC002","Lisboa","CASA","","waiting"⟩,15⟩,
        .call ⟨"quay",.update,⟨7⟩,⟨"ESC001","Agadir","TNG","Toubkal","sunk"⟩,20⟩]
    let r := ((Registry.deploy c).run left).2
    let s := ((Registry.deploy d).run right).2
    c.maxEvents = d.maxEvents ∧ List.Forall₂ (Step.Matches c.owner d.owner) left right ∧
      Step.drain ∉ left ∧ r.pending ≠ s.pending ∧
      ((Registry.deploy c).run left).1.map Reply.masked = ((Registry.deploy d).run right).1.map Reply.masked ∧
      r.log = s.log ∧ r.ships = s.ships ∧ r.ports = s.ports ∧ Snapshot.capture r = Snapshot.capture s ∧
      (Replay.validate "elsewhere" r.pending (Snapshot.capture s)).matched = true := by
  intro c d left right r s
  have alike : List.Forall₂ (Step.Matches c.owner d.owner) left right :=
    .cons (.call ⟨rfl,rfl,rfl,rfl,rfl,by decide⟩) (.cons (.call ⟨rfl,rfl,rfl,rfl,rfl,by decide⟩)
      (.cons (.call ⟨rfl,rfl,rfl,rfl,rfl,by decide⟩) .nil))
  have undrained : Step.drain ∉ left := by simp [left]
  have apart : r.pending ≠ s.pending := by decide
  obtain ⟨replies,moments⟩ := names_go_unseen (c := c) (d := d) rfl alike
  obtain ⟨log,ships,ports,snapshot,matched⟩ := moments 3
  exact ⟨rfl,alike,undrained,apart,replies,log,ships,ports,snapshot,matched undrained "elsewhere"⟩

end Harbour
