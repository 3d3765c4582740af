import Harbour.Proofs.Ledger
import Harbour.Replay

namespace Harbour

def History.told (notifications : List Notification) : History :=
  notifications.filterMap fun
    | .arrivalRecorded w => some w
    | .eventRecorded _ => none

namespace History

-- Notifications leave in pairs, so what waits names the last writes.
theorem told_drop (h : History) {taken : Nat} (bound : taken ≤ h.length) :
    told (h.notices.drop (2 * taken)) = h.drop taken := by
  induction h using List.reverseRecOn with
  | nil => simp [told,notices]
  | append_singleton earlier w ih =>
      by_cases all : taken = earlier.length + 1
      · subst all
        have none : (notices (earlier ++ [w])).length ≤ 2 * (earlier.length + 1) := by simp
        rw [List.drop_eq_nil_of_le none,List.drop_eq_nil_of_le (by simp)]
        rfl
      · have inside : taken ≤ earlier.length := by
          rw [List.length_append,List.length_singleton] at bound
          omega
        rw [Ledger.told_drop_snoc earlier w inside,told,List.filterMap_append,
          List.drop_append_of_le_length inside]
        exact congrArg (· ++ [w]) (ih inside)

theorem told_notices (h : History) : told h.notices = h := told_drop h (Nat.zero_le _)

end History

namespace Replay

def again (owner : String) (w : Record) : Call := ⟨owner,.record,w.id,w.details,w.recordedAt⟩

def copy (owner : String) (h : History) : Ledger := ⟨owner,Log.unlimited,h,0⟩

@[simp] theorem copy_writes (owner : String) (h : History) : (copy owner h).writes = h := rfl

theorem copy_sound (owner : String) (short : h.length < 0x10000000000000000) : (copy owner h).Sound :=
  ⟨Nat.zero_le _,Nat.le_of_lt_succ short⟩

theorem copy_nil (owner : String) : Registry.new owner = (copy owner []).registry := rfl

theorem calls_told (owner : String) (notifications : List Notification) :
    notifications.filterMap (call? owner) = (History.told notifications).map (again owner) := by
  rw [History.told,List.map_filterMap]
  congr 1
  funext n
  cases n <;> rfl

theorem commit_copy (owner : String) (h : History) (w : Record) :
    (copy owner h).registry.commit (again owner w) =
      if h.length + 1 < 0x10000000000000000 then .ok (Log.idAt h.length,(copy owner (h ++ [w])).registry)
      else .error (.exhausted Log.unlimited) := by
  have largest : Log.unlimited.toNat = 0xffffffffffffffff := by decide
  have stays := Ledger.told_drop_snoc h w (Nat.zero_le h.length)
  simp only [copy,Ledger.registry]
  rw [Registry.commit_after,if_neg (by simp [again]),if_neg (by simp [again])]
  by_cases room : h.length + 1 < 0x10000000000000000
  · rw [if_neg (by omega),if_pos room,stays]
    rfl
  · rw [if_pos (by omega),if_neg room]

theorem run_copy (owner : String) (h later : History) (short : h.length < 0x10000000000000000) :
    run (copy owner h).registry (later.map (again owner)) =
      if (h ++ later).length < 0x10000000000000000 then .ok (copy owner (h ++ later)).registry
      else .error (.exhausted Log.unlimited) := by
  induction later generalizing h with
  | nil =>
      rw [List.append_nil,if_pos short]
      rfl
  | cons w rest ih =>
      rw [List.map_cons,run,commit_copy]
      by_cases room : h.length + 1 < 0x10000000000000000
      · have next := ih (h ++ [w]) (by simpa using room)
        rw [List.append_assoc] at next
        rw [if_pos room]
        exact next
      · have long : ¬ (h ++ w :: rest).length < 0x10000000000000000 := by
          rw [List.length_append,List.length_cons]; omega
        rw [if_neg room,if_neg long]
        rfl

theorem rebuild_exact (owner : String) (notifications : List Notification) :
    rebuild owner notifications =
      if (History.told notifications).length < 0x10000000000000000 then
        .ok (copy owner (History.told notifications)).registry
      else .error (.exhausted Log.unlimited) := by
  rw [rebuild,copy_nil,calls_told]
  exact run_copy owner [] _ (by decide)

theorem rebuild_short (owner : String) {notifications : List Notification}
    (short : (History.told notifications).length < 0x10000000000000000) :
    rebuild owner notifications = .ok (copy owner (History.told notifications)).registry :=
  (rebuild_exact owner notifications).trans (if_pos short)

theorem copy_pending (owner : String) (h : History) : (copy owner h).registry.pending = h.notices := rfl

theorem matched_iff (owner : String) (notifications : List Notification) (expected : Snapshot) :
    (validate owner notifications expected).matched = true ↔
      ∃ s, rebuild owner notifications = .ok s ∧ Snapshot.capture s = expected := by
  rw [validate,decide_eq_true_iff]
  cases rebuild owner notifications with
  | error refusal => simp
  | ok s => simp

end Replay

theorem Snapshot.capture_registry (l m : Ledger) (same : l.writes = m.writes) :
    capture l.registry = capture m.registry := by
  obtain ⟨owner,limit,writes,told⟩ := l
  cases same
  rfl

namespace Ledger
variable {l : Ledger}

theorem pending_length (l : Ledger) : l.registry.pending.length = 2 * l.writes.length - 2 * l.told := by
  simp [registry,Registry.after]

theorem rebuild_pending (sound : l.Sound) (owner : String) :
    Replay.rebuild owner l.registry.pending = .ok (Replay.copy owner (l.writes.drop l.told)).registry := by
  have waiting : History.told l.registry.pending = l.writes.drop l.told := History.told_drop _ sound.told
  rw [← waiting]
  apply Replay.rebuild_short
  have short := sound.short
  rw [waiting,List.length_drop]
  omega

theorem capture_count (sound : l.Sound) : (Snapshot.capture l.registry).eventCount.toNat = l.writes.length := by
  simp only [Snapshot.capture,Registry.eventCount,Log.count,registry,Registry.after,History.events_length,
    UInt64.toNat_ofNat']
  exact Nat.mod_eq_of_lt sound.short

theorem replay_matches (sound : l.Sound) (owner : String) :
    (Replay.validate owner l.registry.pending (Snapshot.capture l.registry)).matched = true ↔
      l.told = 0 := by
  rw [Replay.matched_iff,rebuild_pending sound owner]
  constructor
  · rintro ⟨s,rebuilt,same⟩
    cases rebuilt
    have told := sound.told
    have short := sound.short
    have copied : (Replay.copy owner (l.writes.drop l.told)).Sound :=
      Replay.copy_sound owner (by rw [List.length_drop]; omega)
    have counts := congrArg (fun s => s.eventCount.toNat) same
    simp only [capture_count copied,capture_count sound,Replay.copy_writes,List.length_drop] at counts
    omega
  · intro none
    exact ⟨_,rfl,Snapshot.capture_registry _ _ (by rw [none,List.drop_zero,Replay.copy_writes])⟩

theorem untouched_iff (sound : l.Sound) :
    l.registry.pending.length = 2 * l.registry.eventCount ↔ l.told = 0 := by
  have told := sound.told
  have count : l.registry.eventCount = l.writes.length := l.writes.events_length
  rw [pending_length,count]
  omega

end Ledger

-- The replay comes out the same in everything but its owner and its limit,
-- though each of its writes went in as a fresh record.
theorem replay_fidelity (path : Registry.Reached c r) (owner : String) :
    ((Replay.validate owner r.pending (Snapshot.capture r)).matched = true ↔
      r.pending.length = 2 * r.eventCount) ∧
    (r.pending.length = 2 * r.eventCount →
      ∃ s, Replay.rebuild owner r.pending = .ok s ∧
        s.records = r.records ∧ s.log.events = r.log.events ∧
        s.ships = r.ships ∧ s.ports = r.ports ∧ s.pending = r.pending) := by
  obtain ⟨l,sound,_,_,rfl⟩ := Ledger.reached_ledger path
  refine ⟨(Ledger.replay_matches sound owner).trans (Ledger.untouched_iff sound).symm,?_⟩
  intro untouched
  have none := (Ledger.untouched_iff sound).mp untouched
  have rebuilt := Ledger.rebuild_pending sound owner
  rw [none,List.drop_zero] at rebuilt
  refine ⟨_,rebuilt,rfl,rfl,rfl,rfl,?_⟩
  simp only [Replay.copy,Ledger.registry,Registry.after,none]

theorem replay_fidelity_moved :
    let details : Details := ⟨"ESC001","Casablanca","CASA","Atlas","waiting"⟩
    let moved : Details := ⟨"ESC001","Tanger","TNG","Atlas","berthed"⟩
    let steps : List Step :=
      [.call ⟨"harbour",.record,⟨7⟩,details,10⟩,.call ⟨"quay",.record,⟨8⟩,details,15⟩,
        .call ⟨"harbour",.update,⟨7⟩,moved,20⟩]
    let r := ((Registry.deploy ⟨"harbour",2,10⟩).run steps).2
    Registry.Reached ⟨"harbour",2,10⟩ r ∧ r.pending.length = 2 * r.eventCount ∧
      (Replay.validate "elsewhere" r.pending (Snapshot.capture r)).matched = true ∧
      ∃ s, Replay.rebuild "elsewhere" r.pending = .ok s ∧
        s.records = r.records ∧ s.log.events = r.log.events ∧
        s.ships = r.ships ∧ s.ports = r.ports ∧ s.pending = r.pending := by
  intro details moved steps r
  have path : Registry.Reached ⟨"harbour",2,10⟩ r := Registry.reached_run .deploy steps
  have untouched : r.pending.length = 2 * r.eventCount := by decide
  have law := replay_fidelity path "elsewhere"
  exact ⟨path,untouched,law.1.mpr untouched,law.2 untouched⟩

-- Any list of notifications can be replayed, whoever made it.
theorem replay_normalises (owner : String) (notifications : List Notification)
    (short : notifications.length < 0x10000000000000000) :
    ∃ r, Replay.rebuild owner notifications = .ok r ∧
      (∀ other, History.told other = History.told notifications → Replay.rebuild owner other = .ok r) ∧
      r.log.events.map (fun e => (e.entry.voyage,e.entry.callReference,e.entry.portCode,e.entry.committedAt)) =
        (History.told notifications).map
          (fun w => (w.id,w.details.callReference,w.details.portCode,w.recordedAt)) ∧
      History.told r.pending = History.told notifications ∧ Replay.rebuild owner r.pending = .ok r ∧
      ∀ expected, (Replay.validate owner notifications expected).replayed = some (Snapshot.capture r) := by
  have records : (History.told notifications).length < 0x10000000000000000 :=
    Nat.lt_of_le_of_lt (List.length_filterMap_le _ _) short
  have anyOther : ∀ other, History.told other = History.told notifications →
      Replay.rebuild owner other = .ok (Replay.copy owner (History.told notifications)).registry := by
    intro other same
    have rebuilt := Replay.rebuild_short owner (same ▸ records)
    rwa [same] at rebuilt
  have retold : History.told (Replay.copy owner (History.told notifications)).registry.pending =
      History.told notifications := by
    rw [Replay.copy_pending,History.told_notices]
  have rebuilt := anyOther notifications rfl
  refine ⟨_,rebuilt,anyOther,?_,retold,anyOther _ retold,?_⟩
  · exact History.words_events
      (fun entry => (entry.voyage,entry.callReference,entry.portCode,entry.committedAt)) _ (fun _ _ => rfl) _
  · intro expected
    simp only [Replay.validate,rebuilt]

theorem replay_normalises_forged :
    let landed : Record := ⟨⟨7⟩,⟨"ESC001","Casablanca","CASA","Atlas","waiting"⟩,30⟩
    let moved : Record := ⟨⟨7⟩,⟨"ESC002","Tanger","TNG","Atlas","berthed"⟩,20⟩
    let receipt : Receipt := ⟨⟨9⟩,⟨8⟩,"ESC003","AGA",.updated⟩
    let notifications : List Notification :=
      [.eventRecorded receipt,.arrivalRecorded landed,.arrivalRecorded moved,.eventRecorded receipt]
    notifications.length < 0x10000000000000000 ∧
      ∃ r, Replay.rebuild "harbour" notifications = .ok r ∧
        Replay.rebuild "harbour" [.arrivalRecorded landed,.arrivalRecorded moved] = .ok r ∧
        r.log.events.map (fun e => (e.entry.voyage,e.entry.callReference,e.entry.portCode,e.entry.committedAt)) =
          [(⟨7⟩,"ESC001","CASA",30),(⟨7⟩,"ESC002","TNG",20)] ∧
        History.told r.pending = [landed,moved] ∧ Replay.rebuild "harbour" r.pending = .ok r ∧
        ∀ expected, (Replay.validate "harbour" notifications expected).replayed = some (Snapshot.capture r) := by
  intro landed moved receipt notifications
  have short : notifications.length < 0x10000000000000000 := by decide
  obtain ⟨r,rebuilt,others,events,told,again,replayed⟩ := replay_normalises "harbour" notifications short
  exact ⟨short,r,rebuilt,others _ rfl,events,told,again,replayed⟩

end Harbour
