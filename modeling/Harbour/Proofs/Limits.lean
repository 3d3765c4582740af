import Harbour.Proofs.Ledger

namespace Harbour

def Reply.exhausted : Reply → Prop
  | .outcome (.error (.exhausted _)) => True
  | _ => False

def Registry.closed (r : Registry) (call : Call) : Refusal :=
  if call.caller ≠ r.owner then .unauthorized call.caller
  else if call.mode = .update ∧ r.holds call.id = false then .notFound call.id
  else .exhausted r.log.limit

namespace Ledger

variable {l m : Ledger}

def resized (l : Ledger) (limit : UInt64) : Ledger := { l with limit }

theorem write_resized (l : Ledger) {limit : UInt64} (larger : l.limit.toNat ≤ limit.toNat) (call : Call)
    (within : ∀ full, (l.write call).1 ≠ .error (.exhausted full)) :
    (l.resized limit).write call = ((l.write call).1,(l.write call).2.resized limit) := by
  unfold write at within ⊢
  by_cases stranger : call.caller ≠ l.owner
  · rw [if_pos stranger,if_pos (show call.caller ≠ (l.resized limit).owner from stranger)]
  · rw [if_neg stranger,if_neg (show ¬ call.caller ≠ (l.resized limit).owner from stranger)]
    rw [if_neg stranger] at within
    by_cases missing : call.mode = .update ∧ call.id ∉ l.writes.ids
    · rw [if_pos missing,
        if_pos (show call.mode = .update ∧ call.id ∉ (l.resized limit).writes.ids from missing)]
    · rw [if_neg missing,
        if_neg (show ¬ (call.mode = .update ∧ call.id ∉ (l.resized limit).writes.ids) from missing)]
      rw [if_neg missing] at within
      by_cases full : l.limit.toNat ≤ l.writes.length
      · rw [if_pos full] at within
        exact absurd rfl (within l.limit)
      · have room : ¬ (l.resized limit).limit.toNat ≤ (l.resized limit).writes.length := by
          change ¬ limit.toNat ≤ l.writes.length
          omega
        rw [if_neg full,if_neg room]
        rfl

theorem step_resized (l : Ledger) {limit : UInt64} (larger : l.limit.toNat ≤ limit.toNat) (s : Step)
    (within : ¬ (l.step s).1.exhausted) :
    (l.resized limit).step s = ((l.step s).1,(l.step s).2.resized limit) := by
  cases s with
  | drain => rfl
  | call call =>
      have unmet : ∀ full, (l.write call).1 ≠ .error (.exhausted full) := by
        intro full met
        apply within
        change Reply.exhausted (.outcome (l.write call).1)
        rw [met]
        trivial
      simp only [step,write_resized l larger call unmet]

theorem run_resized (l : Ledger) {limit : UInt64} (larger : l.limit.toNat ≤ limit.toNat) (steps : List Step)
    (count : Nat) (within : ∀ reply ∈ (l.run steps).1.take count, ¬ reply.exhausted) :
    (l.run steps).1.take count = ((l.resized limit).run steps).1.take count := by
  induction steps generalizing l count with
  | nil => rfl
  | cons s rest ih =>
      cases count with
      | zero => rfl
      | succ count =>
          change ∀ reply ∈ (l.step s).1 :: ((l.step s).2.run rest).1.take count,_ at within
          have first := step_resized l larger s (within _ List.mem_cons_self)
          have same := (step_frame l s).2
          have later := ih (l.step s).2 (same ▸ larger) count
            fun reply present => within reply (List.mem_cons_of_mem _ present)
          simp only [run,first,List.take_succ_cons,later]

structure Begins (l m : Ledger) : Prop where
  owner : l.owner = m.owner
  limit : l.limit.toNat ≤ m.limit.toNat
  writes : l.writes = m.writes.take l.limit.toNat

theorem write_full (full : l.limit.toNat ≤ l.writes.length) (call : Call) :
    l.write call = (.error (l.registry.closed call),l) := by
  unfold write Registry.closed
  have owner : l.registry.owner = l.owner := rfl
  have missing : l.registry.holds call.id = false ↔ call.id ∉ l.writes.ids := by
    rw [registry,Registry.holds_after,decide_eq_false_iff_not]
  simp only [owner,missing,if_pos full]
  split
  · rfl
  · split
    · rfl
    · rfl

theorem write_exhausted {call : Call} {limit : UInt64} (met : (l.write call).1 = .error (.exhausted limit)) :
    limit = l.limit ∧ l.limit.toNat ≤ l.writes.length := by
  unfold write at met
  split at met
  · cases met
  · split at met
    · cases met
    · split at met
      · rename_i full
        cases met
        exact ⟨rfl,full⟩
      · cases met

theorem Begins.passed (begins : l.Begins m) (full : l.limit.toNat ≤ l.writes.length) :
    l.limit.toNat ≤ m.writes.length := by
  have counted := congrArg List.length begins.writes
  rw [List.length_take] at counted
  omega

theorem Begins.level (begins : l.Begins m) (room : l.writes.length < l.limit.toNat) : m.writes = l.writes := by
  have counted := congrArg List.length begins.writes
  rw [List.length_take] at counted
  rw [begins.writes,List.take_of_length_le (by omega)]

theorem write_begins_full (begins : l.Begins m) (full : l.limit.toNat ≤ l.writes.length) (call : Call) :
    (l.write call).2.Begins (m.write call).2 := by
  rw [write_full full]
  rcases write_cases m call with ⟨refusal,refused⟩ | ⟨_,_,_,accepted⟩
  · rw [refused]
    exact begins
  · rw [accepted]
    refine ⟨begins.owner,begins.limit,?_⟩
    change l.writes = (m.writes ++ [call.record]).take l.limit.toNat
    rw [List.take_append_of_le_length (begins.passed full)]
    exact begins.writes

theorem write_begins_room (begins : l.Begins m) (room : l.writes.length < l.limit.toNat) (call : Call) :
    (l.write call).2.Begins (m.write call).2 := by
  have level := begins.level room
  have larger := begins.limit
  rcases write_cases l call with ⟨refusal,refused⟩ | ⟨owned,found,_,accepted⟩
  · rcases write_cases m call with ⟨why,turned⟩ | ⟨owned,found,_,_⟩
    · rw [refused,turned]
      exact begins
    · rw [write_accepted l call (owned.trans begins.owner.symm) (level ▸ found) room] at refused
      cases refused
  · rw [accepted,write_accepted m call (owned.trans begins.owner) (level ▸ found) (by rw [level]; omega)]
    refine ⟨begins.owner,begins.limit,?_⟩
    change l.writes ++ [call.record] = (m.writes ++ [call.record]).take l.limit.toNat
    rw [level,List.take_of_length_le]
    rw [List.length_append,List.length_singleton]
    omega

theorem step_begins (begins : l.Begins m) (s : Step) : (l.step s).2.Begins (m.step s).2 := by
  cases s with
  | drain => exact ⟨begins.owner,begins.limit,begins.writes⟩
  | call call =>
      by_cases full : l.limit.toNat ≤ l.writes.length
      · exact write_begins_full begins full call
      · exact write_begins_room begins (Nat.not_le.mp full) call

theorem run_begins (begins : l.Begins m) (steps : List Step) : (l.run steps).2.Begins (m.run steps).2 := by
  induction steps generalizing l m with
  | nil => exact begins
  | cons s rest ih => exact ih (step_begins begins s)

theorem run_full (full : l.limit.toNat ≤ l.writes.length) (steps : List Step) :
    ∃ told, (l.run steps).2 = { l with told } := by
  induction steps generalizing l with
  | nil => exact ⟨l.told,rfl⟩
  | cons s rest ih =>
      cases s with
      | drain =>
          obtain ⟨told,last⟩ := ih (l := (l.step .drain).2) full
          exact ⟨told,last⟩
      | call call =>
          obtain ⟨told,last⟩ := ih full
          refine ⟨told,?_⟩
          change ((l.write call).2.run rest).2 = _
          rw [write_full full]
          exact last

end Ledger

structure Registry.Settled (r s : Registry) : Prop where
  access : s.access = r.access
  records : s.records = r.records
  log : s.log = r.log
  ships : s.ships = r.ships
  ports : s.ports = r.ports

theorem Ledger.exhausted_settles {l : Ledger} (sound : l.Sound) {call : Call} {limit : UInt64}
    (met : (l.registry.apply call).1 = .error (.exhausted limit)) :
    limit = l.limit ∧ ∀ later, let now := (l.registry.run (.call call :: later)).2
      l.registry.Settled now ∧ ∀ next, (now.apply next).1 = .error (l.registry.closed next) := by
  rw [apply_registry sound] at met
  obtain ⟨own,full⟩ := write_exhausted met
  refine ⟨own,?_⟩
  intro later now
  obtain ⟨told,last⟩ := run_full full (.call call :: later)
  have ended := run_sound sound (.call call :: later)
  have same : now = ({ l with told } : Ledger).registry := by
    change (l.registry.run _).2 = _
    rw [run_registry sound,last]
  rw [last] at ended
  rw [same]
  refine ⟨⟨rfl,rfl,rfl,rfl,rfl⟩,?_⟩
  intro next
  rw [apply_registry ended,write_full (l := { l with told }) full]
  rfl

-- The limit decides how far a history goes and nothing else. After the first
-- call that it turns away the registry never takes in anything again.
theorem limit_truncates (same : c.owner = d.owner) (less : c.maxEvents ≤ d.maxEvents) (steps : List Step) :
    let narrow := (Registry.deploy c).run steps
    let wide := (Registry.deploy d).run steps
    (∀ count, (∀ reply ∈ narrow.1.take count, ¬ reply.exhausted) → narrow.1.take count = wide.1.take count) ∧
    narrow.2.log.events = wide.2.log.events.take c.maxEvents.toNat ∧
    narrow.2.eventCount ≤ c.maxEvents.toNat ∧
    narrow.2.log.limit = c.maxEvents ∧
    (∀ call limit, (narrow.2.apply call).1 = .error (.exhausted limit) → limit = c.maxEvents ∧
      ∀ later, let now := (narrow.2.run (.call call :: later)).2
        narrow.2.Settled now ∧ ∀ next, (now.apply next).1 = .error (narrow.2.closed next)) := by
  intro narrow wide
  have larger : c.maxEvents.toNat ≤ d.maxEvents.toNat := less
  have sound := Ledger.opened_sound c
  have ended := Ledger.run_sound sound steps
  have begins := Ledger.run_begins (l := .opened c) (m := .opened d) ⟨same,larger,List.take_nil.symm⟩ steps
  have kept : ((Ledger.opened c).run steps).2.limit = c.maxEvents := ((Ledger.opened c).run_frame steps).2
  have narrowRun : narrow = (((Ledger.opened c).run steps).1,((Ledger.opened c).run steps).2.registry) :=
    Ledger.run_registry sound steps
  have wideRun : wide = (((Ledger.opened d).run steps).1,((Ledger.opened d).run steps).2.registry) :=
    Ledger.run_registry (Ledger.opened_sound d) steps
  rw [narrowRun,wideRun]
  refine ⟨?_,?_,?_,kept,?_⟩
  · intro count within
    have resized : (Ledger.opened c).resized d.maxEvents = .opened d := by
      rw [Ledger.resized,Ledger.opened,Ledger.opened,same]
    have agree := (Ledger.opened c).run_resized larger steps count within
    rwa [resized] at agree
  · have writes := begins.writes
    rw [kept] at writes
    change History.events _ = _
    rw [writes,History.events_take]
    rfl
  · have room := ended.room
    rw [kept] at room
    change (History.events _).length ≤ _
    rw [History.events_length]
    exact room
  · intro call limit met
    obtain ⟨own,settles⟩ := Ledger.exhausted_settles ended met
    exact ⟨own.trans kept,settles⟩

theorem limit_truncates_missed :
    let details : Details := ⟨"ESC001","Casablanca","CASA","Atlas","waiting"⟩
    let c : Config := ⟨"harbour",1,10⟩
    let d : Config := ⟨"harbour",2,20⟩
    let steps : List Step := [.call ⟨"harbour",.record,⟨7⟩,details,10⟩,.drain,.call ⟨"quay",.record,⟨8⟩,details,15⟩]
    let late : Call := ⟨"harbour",.record,⟨8⟩,details,20⟩
    let narrow := (Registry.deploy c).run steps
    let wide := (Registry.deploy d).run steps
    let now := (narrow.2.run [.call late,.drain,.call late]).2
    c.owner = d.owner ∧ c.maxEvents ≤ d.maxEvents ∧ (∀ reply ∈ narrow.1.take 3, ¬ reply.exhausted) ∧
      narrow.1.take 3 = wide.1.take 3 ∧ (narrow.2.apply late).1 = .error (.exhausted 1) ∧
      (wide.2.apply late).1 = .ok ⟨2⟩ ∧ narrow.2.Settled now ∧
      (now.apply ⟨"harbour",.update,⟨8⟩,details,30⟩).1 = .error (.notFound ⟨8⟩) := by
  intro details c d steps late narrow wide now
  have less : c.maxEvents ≤ d.maxEvents := by decide
  have replies : narrow.1 = [.outcome (.ok ⟨1⟩),
      .batch [.arrivalRecorded ⟨⟨7⟩,details,10⟩,.eventRecorded ⟨⟨1⟩,⟨7⟩,"ESC001","CASA",.created⟩],
      .outcome (.error (.unauthorized "quay"))] := rfl
  have within : ∀ reply ∈ narrow.1.take 3, ¬ reply.exhausted := by
    rw [replies]
    simp [Reply.exhausted]
  obtain ⟨agree,_,_,_,forever⟩ := limit_truncates (c := c) (d := d) rfl less steps
  obtain ⟨settled,closed⟩ := (forever late 1 rfl).2 [.drain,.call late]
  exact ⟨rfl,less,within,agree 3 within,rfl,rfl,settled,closed _⟩

end Harbour
