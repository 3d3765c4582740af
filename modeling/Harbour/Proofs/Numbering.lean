import Harbour.Proofs.Integrity

namespace Harbour

namespace Log

def offer (log : Log) (e : Entry) : Except Refusal EventId × Log :=
  match log.append e with
  | .ok (id,next) => (.ok id,next)
  | .error refusal => (.error refusal,log)

def offers (log : Log) : List Entry → List (Except Refusal EventId) × Log
  | [] => ([],log)
  | e :: rest =>
      let (answer,next) := log.offer e
      let (answers,last) := next.offers rest
      (answer :: answers,last)

def held (limit : UInt64) (entries : List Entry) : Log := ⟨limit,chain (entries.take limit.toNat)⟩

def answerAt (limit : UInt64) (position : Nat) : Except Refusal EventId :=
  if position < limit.toNat then .ok (idAt position) else .error (.exhausted limit)

variable {limit : UInt64} {entries : List Entry} {log : Log}

theorem held_nil (limit : UInt64) : empty limit = held limit [] := by simp [held,empty]

theorem held_count (limit : UInt64) (entries : List Entry) (room : entries.length ≤ limit.toNat) :
    (held limit entries).events.length = entries.length := by
  simp only [held,chain_length,List.length_take]
  exact Nat.min_eq_right room

-- Offers that came too late left nothing behind, so that the log looks the same
-- whether or not it is full already.
theorem held_next (limit : UInt64) (earlier : List Entry) (e : Entry) :
    held limit (earlier ++ [e]) =
      if earlier.length < limit.toNat then (held limit earlier).commit (link (held limit earlier).events e)
      else held limit earlier := by
  by_cases room : earlier.length < limit.toNat
  · have whole : (earlier ++ [e]).take limit.toNat = earlier ++ [e] :=
      List.take_of_length_le (by rw [List.length_append,List.length_singleton]; exact room)
    have front : earlier.take limit.toNat = earlier := List.take_of_length_le (Nat.le_of_lt room)
    simp only [held,whole,front,if_pos room,chain_snoc,commit]
  · have cut : (earlier ++ [e]).take limit.toNat = earlier.take limit.toNat :=
      List.take_append_of_le_length (Nat.le_of_not_lt room)
    simp only [held,cut,if_neg room]

theorem nextId_held (limit : UInt64) (earlier : List Entry) :
    (held limit earlier).nextId = answerAt limit earlier.length := by
  unfold held answerAt
  rw [nextId_chain,List.length_take]
  by_cases room : earlier.length < limit.toNat
  · have count : min limit.toNat earlier.length = earlier.length := Nat.min_eq_right (Nat.le_of_lt room)
    rw [count,if_pos room,if_neg (Nat.not_le.mpr room)]
  · have count : min limit.toNat earlier.length = limit.toNat := Nat.min_eq_left (Nat.le_of_not_lt room)
    rw [count,if_neg room,if_pos (Nat.le_refl _)]

theorem offer_nextId (log : Log) (e : Entry) :
    log.offer e = match log.nextId with
      | .ok id => (.ok id,log.commit ⟨id,e,digest log.head id e⟩)
      | .error refusal => (.error refusal,log) := by
  unfold offer append stage
  cases log.nextId with
  | ok id => rfl
  | error refusal => rfl

theorem offer_held (limit : UInt64) (earlier : List Entry) (e : Entry) :
    (held limit earlier).offer e = (answerAt limit earlier.length,held limit (earlier ++ [e])) := by
  rw [offer_nextId,nextId_held,held_next]
  unfold answerAt
  by_cases room : earlier.length < limit.toNat
  · have count := held_count limit earlier (Nat.le_of_lt room)
    simp only [if_pos room,link,count]
    rfl
  · simp only [if_neg room]

theorem offers_held (limit : UInt64) (earlier rest : List Entry) :
    (held limit earlier).offers rest =
      ((List.range' earlier.length rest.length).map (answerAt limit),held limit (earlier ++ rest)) := by
  induction rest generalizing earlier with
  | nil => simp [offers]
  | cons e rest ih =>
      have later := ih (earlier ++ [e])
      simp only [List.length_append,List.length_singleton,List.append_assoc,List.singleton_append] at later
      simp only [offers,offer_held,later,List.length_cons,List.range'_succ,List.map_cons]

theorem offers_exact (limit : UInt64) (entries : List Entry) :
    (empty limit).offers entries = ((List.range entries.length).map (answerAt limit),held limit entries) := by
  have all := offers_held limit [] entries
  rwa [← held_nil,List.nil_append,List.length_nil,← List.range_eq_range'] at all

theorem get?_isSome (log : Log) (id : EventId) :
    (log.get? id).isSome = true ↔ 1 ≤ id.value.toNat ∧ id.value.toNat ≤ log.count := by
  unfold get? count
  by_cases zero : id.value = 0
  · simp [zero]
  · have positive : id.value.toNat ≠ 0 := fun none => zero (UInt64.toNat_inj.mp none)
    simp only [if_neg zero,isSome_getElem?]
    omega

theorem get?_position {id : EventId} {e : Event} (found : log.get? id = some e) :
    log.events[id.value.toNat - 1]? = some e ∧ idAt (id.value.toNat - 1) = id := by
  have inside := (get?_isSome log id).mp (by rw [found]; rfl)
  unfold get? at found
  split at found
  · cases found
  · exact ⟨found,by rw [idAt,Nat.sub_add_cancel inside.1,UInt64.ofNat_toNat]⟩

theorem chain_entry_at {position : Nat} {e : Event} (present : (chain entries)[position]? = some e) :
    entries[position]? = some e.entry := by
  have faces := congrArg (·[position]?) (chain_faces entries)
  simp only [List.getElem?_map,present,List.getElem?_zipIdx,Option.map_some] at faces
  cases stands : entries[position]? with
  | none => simp [stands] at faces
  | some entry =>
      simp only [stands,Option.map_some,Option.some.injEq,Prod.mk.injEq] at faces
      rw [faces.2]

theorem digest_at {events : List Event} (passed : firstInvalidFrom genesis 0 events = none) {position : Nat}
    {e : Event} (present : events[position]? = some e) :
    e.digest = digest (headOf (events.take position)) (idAt position) e.entry := by
  obtain ⟨inside,same⟩ := List.getElem?_eq_some_iff.mp present
  have split : events = events.take position ++ e :: events.drop (position + 1) := by
    rw [← same,← List.drop_eq_getElem_cons inside,List.take_append_drop]
  have length : (events.take position).length = position := List.length_take_of_le (Nat.le_of_lt inside)
  rw [split] at passed
  have hashed : (link (events.take position) e.entry).digest =
    digest (headOf (events.take position)) (idAt (events.take position).length) e.entry := rfl
  rwa [← (linked passed).1,length] at hashed

theorem headOf_take {events : List Event} {position : Nat} {d : Event} (present : events[position]? = some d) :
    headOf (events.take (position + 1)) = d.digest := by
  rw [List.take_add_one,present]
  exact headOf_snoc _ _

-- What is staged is what the log would number next, also by the time that it
-- is committed.
structure Offered (limit : UInt64) (position : Nat) (e : Entry) (before after : Log)
    (answer : Except Refusal EventId) : Prop where
  numbered : position + 1 ≤ limit.toNat → ∃ event, answer = .ok event.id ∧
    event.id.value.toNat = position + 1 ∧ event.entry = e ∧ after = before.commit event
  refused : limit.toNat < position + 1 → answer = .error (.exhausted limit) ∧ after = before
  foreseen : before.nextId = answer
  staged : ∀ event, before.stage e = .ok event → before.nextId = .ok event.id

structure Keeps (log : Log) (entries : List Entry) : Prop where
  found : ∀ id, (log.get? id).isSome = true ↔ 1 ≤ id.value.toNat ∧ id.value.toNat ≤ log.count
  placed : ∀ id e, log.get? id = some e →
    log.events[id.value.toNat - 1]? = some e ∧ e.id = id ∧ entries[id.value.toNat - 1]? = some e.entry
  first : ∀ e, log.events[0]? = some e → e.digest = digest genesis e.id e.entry
  linked : ∀ (position : Nat) (d e : Event), log.events[position]? = some d →
    log.events[position + 1]? = some e → e.digest = digest d.digest e.id e.entry
  head : log.head = (log.events.getLast?.map Event.digest).getD genesis
  valid : log.firstInvalid = none

theorem held_keeps (limit : UInt64) (entries : List Entry) : (held limit entries).Keeps entries := by
  have passed : (held limit entries).firstInvalid = none := firstInvalid_chain limit _
  refine ⟨get?_isSome _,?_,?_,?_,?_,passed⟩
  · intro id e found
    obtain ⟨stands,same⟩ := get?_position found
    have accepted := chain_entry_at stands
    rw [List.getElem?_take] at accepted
    split at accepted
    · exact ⟨stands,(chain_id_at stands).trans same,accepted⟩
    · cases accepted
  · intro e present
    have hashed := digest_at passed present
    rwa [← chain_id_at present] at hashed
  · intro position d e before present
    have hashed := digest_at passed present
    rwa [headOf_take before,← chain_id_at present] at hashed
  · unfold head headOf
    cases (held limit entries).events.getLast? with
    | none => rfl
    | some last => rfl

theorem stage_nextId {e : Entry} {event : Event} (staged : log.stage e = .ok event) :
    log.nextId = .ok event.id := by
  obtain ⟨id,numbered,same⟩ := bind_ok.mp staged
  cases same
  exact numbered

theorem offered_at {position : Nat} {e : Entry} (stands : entries[position]? = some e) :
    Offered limit position e (held limit (entries.take position)) (held limit (entries.take (position + 1)))
      (answerAt limit position) := by
  have inside := (List.getElem?_eq_some_iff.mp stands).1
  have length : (entries.take position).length = position := List.length_take_of_le (Nat.le_of_lt inside)
  have next : entries.take (position + 1) = entries.take position ++ [e] := by
    rw [List.take_add_one,stands]
    rfl
  have bound := limit.toNat_lt
  refine ⟨?_,?_,?_,fun event => stage_nextId⟩
  · intro within
    have room : position < limit.toNat := within
    have count : (held limit (entries.take position)).events.length = position :=
      (held_count limit _ (length.symm ▸ Nat.le_of_lt room)).trans length
    refine ⟨link (held limit (entries.take position)).events e,?_,?_,rfl,?_⟩
    · simp only [answerAt,if_pos room,link,count]
    · simp only [link,count]
      exact idAt_value (by omega)
    · rw [next,held_next,length,if_pos room]
  · intro full
    have late : ¬ position < limit.toNat := by omega
    refine ⟨if_neg late,?_⟩
    rw [next,held_next,length,if_neg late]
  · rw [nextId_held,length]

end Log

theorem log_numbers_and_links (limit : UInt64) (entries : List Entry) :
    (∀ position e, entries[position]? = some e →
      ∃ answer, ((Log.empty limit).offers entries).1[position]? = some answer ∧
        Log.Offered limit position e ((Log.empty limit).offers (entries.take position)).2
          ((Log.empty limit).offers (entries.take (position + 1))).2 answer) ∧
    ((Log.empty limit).offers entries).2.Keeps entries := by
  simp only [Log.offers_exact]
  refine ⟨?_,Log.held_keeps limit entries⟩
  intro position e stands
  have inside := (List.getElem?_eq_some_iff.mp stands).1
  refine ⟨Log.answerAt limit position,?_,Log.offered_at stands⟩
  rw [List.getElem?_map,List.getElem?_range inside]
  rfl

theorem log_numbers_and_links_full :
    let landed : Entry := ⟨⟨7⟩,"ESC001","CASA",.created,10⟩
    let moved : Entry := ⟨⟨7⟩,"ESC002","TNG",.updated,20⟩
    let log := ((Log.empty 1).offers [landed,moved,landed]).2
    [landed,moved,landed][1]? = some moved ∧
      (∃ answer, ((Log.empty 1).offers [landed,moved,landed]).1[1]? = some answer ∧
        Log.Offered 1 1 moved ((Log.empty 1).offers [landed]).2 ((Log.empty 1).offers [landed,moved]).2 answer) ∧
      log.Keeps [landed,moved,landed] ∧ log.count = 1 ∧ (log.get? ⟨0xffffffffffffffff⟩).isSome = false := by
  intro landed moved log
  obtain ⟨each,whole⟩ := log_numbers_and_links 1 [landed,moved,landed]
  have beyond : ¬ (log.get? ⟨0xffffffffffffffff⟩).isSome = true := by
    rw [whole.found]
    decide
  exact ⟨rfl,each 1 moved rfl,whole,rfl,Bool.eq_false_iff.mpr beyond⟩

end Harbour
