import Harbour.Proofs.Integrity
import Harbour.Proofs.Snapshot

namespace Harbour

namespace Log

inductive Appended : Log → Prop where
  | empty (limit : UInt64) : Appended (.empty limit)
  | append {id : EventId} (e : Entry) : Appended log → log.append e = .ok (id,next) → Appended next

theorem appended_chain (built : Appended log) :
    ∃ entries, entries.length ≤ log.limit.toNat ∧ log.events = chain entries := by
  induction built with
  | empty limit => exact ⟨[],Nat.zero_le _,rfl⟩
  | @append log next id e _ appended ih =>
      obtain ⟨entries,room,built⟩ := ih
      have whole : log = ⟨log.limit,chain entries⟩ := by rw [← built]
      rw [append,whole,stage_chain] at appended
      by_cases full : log.limit.toNat ≤ entries.length
      · rw [if_pos full] at appended; cases appended
      · rw [if_neg full] at appended
        cases appended
        refine ⟨entries ++ [e],?_,(chain_snoc entries e).symm⟩
        rw [List.length_append,List.length_singleton]
        exact Nat.lt_of_not_le full

theorem appended_valid (built : Appended log) :
    log.firstInvalid = none ∧ log.events.length < 0x10000000000000000 := by
  obtain ⟨entries,room,grown⟩ := appended_chain built
  have limit := log.limit.toNat_lt
  rw [firstInvalid,grown,chain_length]
  exact ⟨firstInvalid_chain log.limit entries,by omega⟩

theorem chain_appended (limit : UInt64) (entries : List Entry) (room : entries.length ≤ limit.toNat) :
    Appended ⟨limit,chain entries⟩ := by
  induction entries using List.reverseRecOn with
  | nil => exact .empty limit
  | append_singleton earlier e ih =>
      rw [List.length_append,List.length_singleton] at room
      have staged := stage_chain limit earlier e
      rw [if_neg (by omega)] at staged
      have appended : (Log.mk limit (chain earlier)).append e =
          .ok (idAt (chain earlier).length,⟨limit,chain (earlier ++ [e])⟩) := by
        rw [append,staged,chain_snoc]
        rfl
      exact .append e (ih (by omega)) appended

-- The digest before the event is the one that is stored there; the identifier
-- is the one that belongs there, which need not be its own.
def checkedOctets (events : List Event) (position : Nat) (e : Event) : List UInt8 :=
  preimage (headOf (events.take position)) (idAt position) e.entry

def CollideAt (left right : List Event) (position : Nat) : Prop :=
  ∃ a b, left[position]? = some a ∧ right[position]? = some b ∧
    checkedOctets left position a ≠ checkedOctets right position b ∧
    Hash.sha256 (checkedOctets left position a) = Hash.sha256 (checkedOctets right position b)

def Blames (log : Log) (position : Nat) : Prop :=
  ∃ id, log.firstInvalid = some id ∧ id.value.toNat = position + 1

variable {previous : Hash.Digest} {position : Nat} {front rest : List Event} {e f : Event}

theorem reported_inside {id : EventId} (reported : firstInvalidFrom previous position rest = some id) :
    ∃ further, further < rest.length ∧ id = idAt (position + further) := by
  induction rest generalizing previous position with
  | nil => cases reported
  | cons e later ih =>
      rw [firstInvalidFrom] at reported
      split at reported
      · cases reported
        exact ⟨0,Nat.succ_pos _,rfl⟩
      · obtain ⟨further,inside,same⟩ := ih reported
        refine ⟨further + 1,Nat.succ_lt_succ inside,?_⟩
        rw [same,Nat.add_right_comm,Nat.add_assoc]

theorem octets_front (front rest : List Event) (e : Event) :
    checkedOctets (front ++ e :: rest) front.length e = preimage (headOf front) (idAt front.length) e.entry := by
  rw [checkedOctets,List.take_left]

theorem octets_next (front rest : List Event) (e g : Event) :
    checkedOctets (front ++ e :: g :: rest) (front.length + 1) g =
      preimage e.digest (idAt (front.length + 1)) g.entry := by
  have before : (front ++ e :: g :: rest).take (front.length + 1) = front ++ [e] := by
    rw [List.append_cons,List.take_left' (by simp)]
  rw [checkedOctets,before,headOf_snoc]

theorem link_hashed (fits : f = link front f.entry) :
    f.digest = Hash.sha256 (preimage (headOf front) (idAt front.length) f.entry) := by
  have hashed : (link front f.entry).digest = digest (headOf front) (idAt front.length) f.entry := rfl
  rw [← fits] at hashed
  exact hashed

-- Two events that both fit at a place, with one digest between them.
theorem collide_here (own : e = link front e.entry) (fits : f = link front f.entry) (other : f ≠ e)
    (same : f.digest = e.digest) (short : e.entry.Short) :
    CollideAt (front ++ e :: rest) (front ++ f :: rest) front.length := by
  refine ⟨e,f,by simp,by simp,?_,?_⟩
  · rw [octets_front,octets_front]
    intro equal
    have entries := (preimage_injective short (preimage_short short equal) equal).2.2
    apply other
    rw [fits,own,entries]
  · rw [octets_front,octets_front,← link_hashed own,← link_hashed fits,same]

-- One event that fits behind either of two others, whose digests differ.
theorem collide_next {g : Event} (apart : f.digest ≠ e.digest) (short : g.entry.Short)
    (behind : digest e.digest (idAt (front.length + 1)) g.entry = g.digest)
    (hashed : digest f.digest (idAt (front.length + 1)) g.entry = g.digest) :
    CollideAt (front ++ e :: g :: rest) (front ++ f :: g :: rest) (front.length + 1) := by
  refine ⟨g,g,by simp,by simp,?_,?_⟩
  · rw [octets_next,octets_next]
    intro equal
    exact apart (preimage_injective short short equal).1.symm
  · rw [octets_next,octets_next]
    exact behind.trans hashed.symm

theorem forgery_found (passed : firstInvalidFrom genesis 0 (front ++ e :: rest) = none) (other : f ≠ e)
    (short : ∀ x ∈ front ++ e :: rest, x.entry.Short) :
    firstInvalidFrom genesis 0 (front ++ f :: rest) = some (idAt front.length) ∨
      (rest ≠ [] ∧ firstInvalidFrom genesis 0 (front ++ f :: rest) = some (idAt (front.length + 1))) ∨
      (rest = [] ∧ f = link front f.entry ∧ firstInvalidFrom genesis 0 (front ++ f :: rest) = none ∧
        f.digest ≠ e.digest) ∨
      CollideAt (front ++ e :: rest) (front ++ f :: rest) front.length ∨
      CollideAt (front ++ e :: rest) (front ++ f :: rest) (front.length + 1) := by
  obtain ⟨own,follows⟩ := linked passed
  have checked := check_step (valid_front passed) f rest
  by_cases fits : f = link front f.entry
  · rw [if_pos fits] at checked
    -- Both events fit here with different octets, so all turns on their digests.
    by_cases same : f.digest = e.digest
    · exact .inr (.inr (.inr (.inl (collide_here own fits other same (short e (by simp))))))
    · cases rest with
      | nil => exact .inr (.inr (.inl ⟨rfl,fits,checked,same⟩))
      | cons g later =>
          -- The next event was hashed behind the digest that is gone.
          rw [firstInvalidFrom] at follows checked
          split at follows
          · cases follows
          · rename_i valid
            simp only [not_or,not_not] at valid
            by_cases hashed : digest f.digest (idAt (front.length + 1)) g.entry = g.digest
            · exact .inr (.inr (.inr (.inr (collide_next same (short g (by simp)) valid.2 hashed))))
            · rw [if_pos (.inr hashed)] at checked
              exact .inr (.inl ⟨List.cons_ne_nil _ _,checked⟩)
  · rw [if_neg fits] at checked
    exact .inl checked

theorem blames_of_reported {log : Log} (reported : log.firstInvalid = some (idAt position))
    (inside : position + 1 < 0x10000000000000000) : log.Blames position := ⟨_,reported,idAt_value inside⟩

theorem nothing_earlier {log : Log} (whole : log.events = front ++ rest)
    (passed : firstInvalidFrom genesis 0 front = none) (small : log.events.length < 0x10000000000000000)
    (blamed : log.Blames position) : front.length ≤ position := by
  obtain ⟨id,reported,numbered⟩ := blamed
  rw [firstInvalid,whole,firstInvalidFrom_append genesis 0 front _ passed] at reported
  obtain ⟨further,inside,same⟩ := reported_inside reported
  rw [whole,List.length_append] at small
  rw [same,idAt_value (by omega)] at numbered
  omega

end Log

-- Two cases are left: the last event can be replaced unseen, but not under the
-- same head; or the hash took two different texts, which the two lists had it
-- work on there, for the same.
theorem tampering_located {log : Log} (built : log.Appended) (short : log.Short) {position : Nat} {e forged : Event}
    (present : log.events[position]? = some e) (other : forged ≠ e) :
    let altered : Log := { log with events := log.events.set position forged }
    (altered.Blames position ∨
      (position + 1 < log.events.length ∧ altered.Blames (position + 1)) ∨
      (position + 1 = log.events.length ∧ forged = Log.link (log.events.take position) forged.entry ∧
        altered.firstInvalid = none ∧ altered.head ≠ log.head) ∨
      Log.CollideAt log.events altered.events position ∨
      Log.CollideAt log.events altered.events (position + 1)) ∧
    ∀ blamed, altered.Blames blamed → position ≤ blamed := by
  intro altered
  obtain ⟨passed,small⟩ := Log.appended_valid built
  obtain ⟨inside,same⟩ := List.getElem?_eq_some_iff.mp present
  obtain ⟨front,rest,split,rfl,replaced⟩ := @List.exists_of_set _ _ forged _ inside
  rw [same] at split
  have lengths : log.events.length = front.length + rest.length + 1 := by
    rw [split,List.length_append,List.length_cons]
    omega
  rw [Log.firstInvalid,split] at passed
  have texts : ∀ x ∈ front ++ e :: rest, x.entry.Short := split ▸ short
  have checked : altered.firstInvalid = Log.firstInvalidFrom genesis 0 (front ++ forged :: rest) :=
    congrArg _ replaced
  constructor
  · change _ ∨ _ ∨ _ ∨ Log.CollideAt _ (log.events.set _ _) _ ∨ Log.CollideAt _ (log.events.set _ _) _
    rw [replaced,split,List.take_left]
    rcases Log.forgery_found passed other texts with
      found | ⟨further,found⟩ | ⟨last,fits,unseen,apart⟩ | collide | collide
    · exact .inl (Log.blames_of_reported (checked.trans found) (by omega))
    · have next := List.length_pos_iff.mpr further
      exact .inr (.inl ⟨by rw [← split]; omega,Log.blames_of_reported (checked.trans found) (by omega)⟩)
    · subst last
      refine .inr (.inr (.inl ⟨by simp,fits,checked.trans unseen,?_⟩))
      have after : altered.head = forged.digest := by
        rw [Log.head,← Log.headOf_snoc front forged]
        exact congrArg Log.headOf replaced
      have before : log.head = e.digest := by rw [Log.head,split,Log.headOf_snoc]
      rw [after,before]
      exact apart
    · exact .inr (.inr (.inr (.inl collide)))
    · exact .inr (.inr (.inr (.inr collide)))
  · intro blamed
    exact Log.nothing_earlier replaced (Log.valid_front passed) (by rw [List.length_set]; exact small)

theorem tampering_located_recomputed :
    let called (portCode : String) : Entry := ⟨⟨7⟩,"ESC001",portCode,.updated,10⟩
    let log : Log := ⟨3,Log.chain [called "CASA",called "TNG",called "AGA"]⟩
    let told := Log.link (log.events.take 1) (called "TNG")
    let forged := Log.link (log.events.take 1) (called "NDR")
    let altered : Log := { log with events := log.events.set 1 forged }
    log.Appended ∧ log.Short ∧ log.events[1]? = some told ∧ forged ≠ told ∧
      (altered.Blames 1 ∨ (1 + 1 < log.events.length ∧ altered.Blames 2) ∨
        (1 + 1 = log.events.length ∧ forged = Log.link (log.events.take 1) forged.entry ∧
          altered.firstInvalid = none ∧ altered.head ≠ log.head) ∨
        Log.CollideAt log.events altered.events 1 ∨ Log.CollideAt log.events altered.events 2) ∧
      ∀ blamed, altered.Blames blamed → 1 ≤ blamed := by
  intro called log told forged altered
  have built : log.Appended := Log.chain_appended 3 _ (by decide)
  have short : log.Short := by unfold Log.Short Entry.Short; decide
  have present : log.events[1]? = some told := rfl
  have other : forged ≠ told := by
    intro same
    exact absurd (congrArg (fun e => e.entry.portCode) same) (by decide)
  exact ⟨built,short,present,other,tampering_located built short present other⟩

end Harbour
