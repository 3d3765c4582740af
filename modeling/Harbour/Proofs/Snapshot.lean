import Harbour.Proofs.Preimage
import Harbour.Proofs.Replay

namespace Harbour

namespace Log

def octetsAt (events : List Event) (position : Nat) (e : Event) : List UInt8 :=
  preimage (headOf (events.take position)) e.id e.entry

-- Different octets were hashed at one position of two logs, and the hash did
-- not tell them apart. The octets are the logs' own, so no counting gives this.
def Collide (left right : List Event) : Prop :=
  ∃ position a b, left[position]? = some a ∧ right[position]? = some b ∧
    octetsAt left position a ≠ octetsAt right position b ∧
    a.digest = Hash.sha256 (octetsAt left position a) ∧
    b.digest = Hash.sha256 (octetsAt right position b) ∧ a.digest = b.digest

theorem Collide.snoc {left right : List Event} (collide : Collide left right) (e f : Event) :
    Collide (left ++ [e]) (right ++ [f]) := by
  obtain ⟨position,a,b,atLeft,atRight,apart,hashed⟩ := collide
  have insideLeft := (List.getElem?_eq_some_iff.mp atLeft).1
  have insideRight := (List.getElem?_eq_some_iff.mp atRight).1
  refine ⟨position,a,b,?_,?_,?_⟩
  · rwa [List.getElem?_append_left insideLeft]
  · rwa [List.getElem?_append_left insideRight]
  · simp only [octetsAt,List.take_append_of_le_length (Nat.le_of_lt insideLeft),
      List.take_append_of_le_length (Nat.le_of_lt insideRight)]
    exact ⟨apart,hashed⟩

theorem octetsAt_link (events : List Event) (e : Entry) :
    octetsAt (events ++ [link events e]) events.length (link events e) =
      preimage (headOf events) (idAt events.length) e := by
  rw [octetsAt,List.take_left]
  rfl

theorem Collide.last {left right : List Event} {e f : Entry} (level : left.length = right.length)
    (apart : preimage (headOf left) (idAt left.length) e ≠ preimage (headOf right) (idAt right.length) f)
    (same : (link left e).digest = (link right f).digest) :
    Collide (left ++ [link left e]) (right ++ [link right f]) := by
  have hashedLeft := octetsAt_link left e
  have hashedRight := octetsAt_link right f
  rw [← level] at hashedRight apart
  refine ⟨left.length,link left e,link right f,by simp,by simp [level],?_,?_,?_,same⟩
  · rw [hashedLeft]
    exact fun equal => apart (equal.trans hashedRight)
  · rw [hashedLeft]; rfl
  · rw [hashedRight,level]; rfl

-- The induction goes down both chains from their common head. As long as the
-- octets agree, so do the entries and the digests before them.
theorem chain_pinned {es fs : List Entry} (left : ∀ e ∈ es, e.Short) (right : ∀ f ∈ fs, f.Short)
    (lengths : es.length = fs.length) (heads : headOf (chain es) = headOf (chain fs)) :
    es = fs ∨ Collide (chain es) (chain fs) := by
  induction es using List.reverseRecOn generalizing fs with
  | nil => exact .inl (List.length_eq_zero_iff.mp lengths.symm).symm
  | append_singleton es e ih =>
      cases fs using List.reverseRecOn with
      | nil => simp at lengths
      | append_singleton fs f =>
          have level : es.length = fs.length := by simpa using lengths
          have levelChains : (chain es).length = (chain fs).length := by simpa using level
          rw [chain_snoc,chain_snoc,headOf_snoc,headOf_snoc] at heads
          rw [chain_snoc,chain_snoc]
          by_cases octets : preimage (headOf (chain es)) (idAt (chain es).length) e =
              preimage (headOf (chain fs)) (idAt (chain fs).length) f
          · obtain ⟨before,_,same⟩ := preimage_injective (left e (by simp)) (right f (by simp)) octets
            subst same
            have earlier := ih (fun e present => left e (List.mem_append_left _ present))
              (fun f present => right f (List.mem_append_left _ present)) level before
            rcases earlier with same | collide
            · exact .inl (by rw [same])
            · exact .inr (collide.snoc _ _)
          · exact .inr (.last levelChains octets heads)

def Short (log : Log) : Prop := ∀ e ∈ log.events, e.entry.Short

end Log

def Details.Short (d : Details) : Prop :=
  d.callReference.utf8ByteSize < 0x10000000000000000 ∧ d.portCode.utf8ByteSize < 0x10000000000000000

namespace History

theorem entries_short (h : History) (short : ∀ w ∈ h, w.details.Short) : ∀ e ∈ h.entries, e.Short := by
  intro e present
  obtain ⟨⟨w,position⟩,member,rfl⟩ := List.mem_map.mp present
  exact short w (List.fst_mem_of_mem_zipIdx member)

theorem ids_events (h : History) : h.ids = h.events.map fun e => e.entry.voyage :=
  (words_events Entry.voyage Record.id (fun _ _ => rfl) h).symm

theorem latest_events (h : History) (id : VoyageId) :
    (h.latest id).map (fun w => (w.details.callReference,w.details.portCode,w.recordedAt)) =
      (h.events.reverse.find? fun e => e.entry.voyage = id).map
        fun e => (e.entry.callReference,e.entry.portCode,e.entry.committedAt) := by
  induction h using List.reverseRecOn with
  | nil => rfl
  | append_singleton earlier w ih =>
      rw [latest_snoc,events_snoc,List.reverse_append,List.reverse_singleton,List.singleton_append,
        List.find?_cons]
      by_cases same : w.id = id
      · simp [same,Log.link,entry]
      · have other : ¬ id = w.id := fun equal => same equal.symm
        simp [same,other,Log.link,entry,ih]

end History

-- Names of ports and vessels, the status, the owner and the limit may still
-- differ: no event tells them.
structure Registry.Agree (r s : Registry) : Prop where
  events : r.log.events = s.log.events
  ships : ∀ callReference, r.shipEvents callReference = s.shipEvents callReference
  ports : ∀ portCode, r.portEvents portCode = s.portEvents portCode
  known : ∀ id, r.holds id = s.holds id
  records : ∀ id a b, r.get id = .ok a → s.get id = .ok b →
    a.details.callReference = b.details.callReference ∧ a.details.portCode = b.details.portCode ∧
      a.recordedAt = b.recordedAt

namespace Ledger

theorem latest_of_get {l : Ledger} {id : VoyageId} (found : l.registry.get id = .ok w) :
    l.writes.latest id = some w := by
  rw [registry,Registry.get_after,History.fetch] at found
  cases last : l.writes.latest id with
  | none => simp [last] at found
  | some v =>
      simp only [last,Except.ok.injEq] at found
      rw [found]

theorem agree_of_events {l m : Ledger} (same : l.writes.events = m.writes.events) :
    l.registry.Agree m.registry := by
  refine ⟨same,?_,?_,?_,?_⟩
  · intro key
    simp only [Registry.shipEvents,registry,Registry.after,same]
  · intro key
    simp only [Registry.portEvents,registry,Registry.after,same]
  · intro id
    simp only [registry,Registry.holds_after,History.ids_events,same]
  · intro id a b atLeft atRight
    have left := l.writes.latest_events id
    have right := m.writes.latest_events id
    rw [latest_of_get atLeft,same] at left
    rw [latest_of_get atRight,← left] at right
    have equal := Option.some.inj right
    simp only [Prod.mk.injEq] at equal
    exact ⟨equal.1.symm,equal.2.1.symm,equal.2.2.symm⟩

theorem short_entries {l : Ledger} (short : l.registry.log.Short) : ∀ e ∈ l.writes.entries, e.Short := by
  rw [← History.entries_events]
  intro e present
  obtain ⟨event,member,rfl⟩ := List.mem_map.mp present
  exact short event member

theorem snapshot_pins {l m : Ledger} (soundLeft : l.Sound) (soundRight : m.Sound)
    (left : ∀ e ∈ l.writes.entries, e.Short) (right : ∀ e ∈ m.writes.entries, e.Short)
    (same : Snapshot.capture l.registry = Snapshot.capture m.registry) :
    l.writes.events = m.writes.events ∨ Log.Collide l.writes.events m.writes.events := by
  have counts : l.writes.length = m.writes.length := by
    rw [← capture_count soundLeft,← capture_count soundRight,same]
  have heads : Log.headOf l.writes.events = Log.headOf m.writes.events :=
    Event.digestText_injective (congrArg Snapshot.headDigest same)
  have lengths : l.writes.entries.length = m.writes.entries.length := by simpa using counts
  rcases Log.chain_pinned left right lengths heads with entries | collide
  · exact .inl (congrArg Log.chain entries)
  · exact .inr collide

end Ledger

-- Two registries with one snapshot agree, or their logs hold a collision of the hash.
theorem snapshot_pins_log (path : Registry.Reached c r) (short : r.log.Short) :
    (∀ (d : Config) (s : Registry), Registry.Reached d s → s.log.Short →
      Snapshot.capture r = Snapshot.capture s →
        r.Agree s ∨ Log.Collide r.log.events s.log.events) ∧
    (∀ (owner : String) (notifications : List Notification),
      (∀ w ∈ History.told notifications, w.details.Short) →
      (Replay.validate owner notifications (Snapshot.capture r)).matched = true →
        ∃ s, Replay.rebuild owner notifications = .ok s ∧
          (s.log.events = r.log.events ∨ Log.Collide s.log.events r.log.events)) := by
  obtain ⟨l,sound,_,_,rfl⟩ := Ledger.reached_ledger path
  refine ⟨?_,?_⟩
  · intro d s otherPath otherShort same
    obtain ⟨m,otherSound,_,_,rfl⟩ := Ledger.reached_ledger otherPath
    rcases Ledger.snapshot_pins sound otherSound (Ledger.short_entries short)
      (Ledger.short_entries otherShort) same with events | collide
    · exact .inl (Ledger.agree_of_events events)
    · exact .inr collide
  · intro owner notifications told matched
    obtain ⟨s,rebuilt,same⟩ := (Replay.matched_iff _ _ _).mp matched
    refine ⟨s,rebuilt,?_⟩
    rw [Replay.rebuild_exact] at rebuilt
    by_cases room : (History.told notifications).length < 0x10000000000000000
    · rw [if_pos room] at rebuilt
      cases rebuilt
      exact Ledger.snapshot_pins (Replay.copy_sound owner room) sound (History.entries_short _ told)
        (Ledger.short_entries short) same
    · rw [if_neg room] at rebuilt
      cases rebuilt

theorem snapshot_pins_log_moved :
    let landed : Details := ⟨"ESC001","Casablanca","CASA","Atlas","waiting"⟩
    let forged : Details := ⟨"ESC001","","CASA","Rif","late"⟩
    let moved : Details := ⟨"ESC002","Tanger","TNG","Atlas","berthed"⟩
    let r := ((Registry.deploy ⟨"harbour",5,10⟩).run
      [.call ⟨"harbour",.record,⟨7⟩,landed,10⟩,.call ⟨"harbour",.update,⟨7⟩,moved,20⟩]).2
    let s := ((Registry.deploy ⟨"quay",9,10⟩).run
      [.call ⟨"quay",.record,⟨7⟩,forged,10⟩,.drain,.call ⟨"quay",.record,⟨7⟩,moved,20⟩]).2
    let notifications := [.arrivalRecorded ⟨⟨7⟩,forged,10⟩,.arrivalRecorded ⟨⟨7⟩,moved,20⟩]
    Registry.Reached ⟨"harbour",5,10⟩ r ∧ r.log.Short ∧
      Registry.Reached ⟨"quay",9,10⟩ s ∧ s.log.Short ∧ Snapshot.capture r = Snapshot.capture s ∧
      (∀ w ∈ History.told notifications, w.details.Short) ∧
      (Replay.validate "pilot" notifications (Snapshot.capture r)).matched = true ∧
      (r.Agree s ∨ Log.Collide r.log.events s.log.events) ∧
      ∃ t, Replay.rebuild "pilot" notifications = .ok t ∧
        (t.log.events = r.log.events ∨ Log.Collide t.log.events r.log.events) := by
  intro landed forged moved r s notifications
  have path : Registry.Reached ⟨"harbour",5,10⟩ r := Registry.reached_run .deploy _
  have otherPath : Registry.Reached ⟨"quay",9,10⟩ s := Registry.reached_run .deploy _
  have short : r.log.Short := by unfold Log.Short Entry.Short; decide
  have otherShort : s.log.Short := by unfold Log.Short Entry.Short; decide
  have told : ∀ w ∈ History.told notifications, w.details.Short := by unfold Details.Short; decide
  have same : Snapshot.capture r = Snapshot.capture s := rfl
  have matched : (Replay.validate "pilot" notifications (Snapshot.capture r)).matched = true :=
    (Replay.matched_iff _ _ _).mpr ⟨(Replay.copy "pilot" (History.told notifications)).registry,rfl,rfl⟩
  have law := snapshot_pins_log path short
  exact ⟨path,short,otherPath,otherShort,same,told,matched,law.1 _ s otherPath otherShort same,
    law.2 "pilot" notifications told matched⟩

end Harbour
