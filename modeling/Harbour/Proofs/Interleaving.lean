import Mathlib.Data.List.Count
import Harbour.Proofs.Grouping

namespace Harbour

section Shares
variable {ι α : Type} [DecidableEq ι]

def share (client : ι) (moves : List (ι × α)) : List (ι × α) := moves.filter fun m => m.1 = client

def Interleaves (plan : ι → List α) (schedule : List (ι × α)) : Prop :=
  ∀ k, share k schedule = (plan k).map (Prod.mk k)

theorem share_own (k : ι) (a : α) (rest : List (ι × α)) : share k ((k,a) :: rest) = (k,a) :: share k rest :=
  List.filter_cons_of_pos (by simp)

theorem share_other {j k : ι} (other : j ≠ k) (a : α) (rest : List (ι × α)) :
    share k ((j,a) :: rest) = share k rest :=
  List.filter_cons_of_neg (by simpa using other)

theorem planned {plan : ι → List α} {schedule : List (ι × α)} (mixed : Interleaves plan schedule)
    (present : (k,a) ∈ schedule) : a ∈ plan k := by
  have own : (k,a) ∈ share k schedule := List.mem_filter.mpr ⟨present,by simp⟩
  rw [mixed k,List.mem_map] at own
  obtain ⟨b,member,same⟩ := own
  cases same
  exact member

theorem perm_of_shares [DecidableEq α] {one two : List (ι × α)} (same : ∀ k, share k one = share k two) :
    one.Perm two := by
  rw [List.perm_iff_count]
  rintro ⟨k,a⟩
  have counted := congrArg (List.count (k,a)) (same k)
  rwa [share,share,List.count_filter (by simp),List.count_filter (by simp)] at counted

end Shares

variable {ι σ ε : Type}

def play (apply : σ → Call → Except Refusal EventId × σ) (s : σ) :
    List (ι × Call) → List (ι × Call × Except Refusal EventId) × σ
  | [] => ([],s)
  | (client,call) :: rest =>
      let (answer,next) := apply s call
      let (answers,last) := play apply next rest
      ((client,call,answer) :: answers,last)

def writesOf (answers : List (ι × Call × Except Refusal ε)) : List (ι × Record) :=
  answers.filterMap fun (client,call,answer) => if answer.isOk then some (client,call.record) else none

def numbers (answers : List (ι × Call × Except Refusal EventId)) : List EventId :=
  answers.filterMap fun (_,_,answer) => answer.toOption

theorem share_writesOf [DecidableEq ι] (k : ι) (answers : List (ι × Call × Except Refusal ε)) :
    share k (writesOf answers) = writesOf (share k answers) := by
  induction answers with
  | nil => rfl
  | cons first rest ih =>
      obtain ⟨j,call,answer⟩ := first
      by_cases own : j = k
      · subst own
        rw [share_own]
        cases answer with
        | error refusal => exact ih
        | ok said => exact (share_own _ _ _).trans (congrArg _ ih)
      · rw [share_other own]
        cases answer with
        | error refusal => exact ih
        | ok said => exact (share_other own _ _).trans ih

theorem writesOf_play {apply : σ → Call → Except Refusal EventId × σ} {s : σ} {moves : List (ι × Call)}
    (present : (k,w) ∈ writesOf (play apply s moves).1) : ∃ call, (k,call) ∈ moves ∧ call.record = w := by
  induction moves generalizing s with
  | nil => cases present
  | cons first rest ih =>
      obtain ⟨j,call⟩ := first
      have parts : (k,w) = (j,call.record) ∨ (k,w) ∈ writesOf (play apply (apply s call).2 rest).1 := by
        change _ ∈ writesOf ((j,call,(apply s call).1) :: _) at present
        cases answer : (apply s call).1 with
        | error refusal => rw [answer] at present; exact .inr present
        | ok id => rw [answer] at present; exact List.mem_cons.mp present
      rcases parts with here | later
      · cases here
        exact ⟨call,List.mem_cons_self,rfl⟩
      · obtain ⟨made,member,same⟩ := ih later
        exact ⟨made,List.mem_cons_of_mem _ member,same⟩

namespace History

def verdict (owner : String) (h : History) (call : Call) : Except Refusal Entry :=
  if call.caller ≠ owner then .error (.unauthorized call.caller)
  else if call.mode = .update ∧ call.id ∉ h.ids then .error (.notFound call.id)
  else .ok (h.entry call.record)

def extend (owner : String) (h : History) (call : Call) : History :=
  if (h.verdict owner call).isOk then h ++ [call.record] else h

def trial (owner : String) (h : History) : List (ι × Call) → List (ι × Call × Except Refusal (Option Entry))
  | [] => []
  | (client,call) :: rest =>
      (client,call,(h.verdict owner call).map some) :: (h.extend owner call).trial owner rest

theorem verdict_entry {owner : String} {h : History} {call : Call} {e : Entry}
    (accepted : h.verdict owner call = .ok e) : ∃ kind, e = call.entry kind := by
  unfold verdict at accepted
  split at accepted
  · cases accepted
  · split at accepted
    · cases accepted
    · cases accepted
      exact ⟨_,rfl⟩

theorem trial_entry {owner : String} {h : History} {moves : List (ι × Call)}
    (accepted : (k,call,.ok found) ∈ h.trial owner moves) : ∃ kind, found = some (call.entry kind) := by
  induction moves generalizing h with
  | nil => cases accepted
  | cons first rest ih =>
      obtain ⟨j,made⟩ := first
      rcases List.mem_cons.mp accepted with here | later
      · simp only [Prod.mk.injEq] at here
        obtain ⟨_,rfl,said⟩ := here
        cases told : h.verdict owner call with
        | error refusal => rw [told] at said; cases said
        | ok e =>
            obtain ⟨kind,rfl⟩ := verdict_entry told
            rw [told] at said
            cases said
            exact ⟨kind,rfl⟩
      · exact ih later

-- A verdict depends on whether there was a write for the notice before and on
-- no other write, so the writes for other notices may be left out.
theorem verdict_filter (owner : String) (h : History) (call : Call) {own : VoyageId → Bool}
    (mine : own call.id = true) : verdict owner (h.filter fun w => own w.id) call = h.verdict owner call := by
  have known : call.id ∈ ids (h.filter fun w => own w.id) ↔ call.id ∈ h.ids := by
    simp only [ids,List.mem_map,List.mem_filter]
    constructor
    · rintro ⟨w,⟨member,_⟩,same⟩
      exact ⟨w,member,same⟩
    · rintro ⟨w,member,same⟩
      exact ⟨w,⟨member,same ▸ mine⟩,same⟩
  unfold verdict entry
  by_cases old : call.id ∈ h.ids
  · simp [Call.record,old,known.mpr old]
  · simp [Call.record,old,mt known.mp old]

theorem extend_own (owner : String) (h : History) (call : Call) {own : VoyageId → Bool}
    (mine : own call.id = true) :
    (h.extend owner call).filter (fun w => own w.id) = extend owner (h.filter fun w => own w.id) call := by
  unfold extend
  rw [verdict_filter owner h call mine]
  split
  · rw [List.filter_append,List.filter_cons_of_pos (by exact mine),List.filter_nil]
  · rfl

theorem extend_other (owner : String) (h : History) (call : Call) {own : VoyageId → Bool}
    (other : own call.id = false) :
    (h.extend owner call).filter (fun w => own w.id) = h.filter fun w => own w.id := by
  unfold extend
  split
  · rw [List.filter_append,List.filter_cons_of_neg (by exact Bool.eq_false_iff.mp other),List.filter_nil,
      List.append_nil]
  · rfl

theorem trial_alone [DecidableEq ι] (owner : String) (h : History) (k : ι) (own : VoyageId → Bool)
    (moves : List (ι × Call)) (apart : ∀ m ∈ moves, own m.2.id = true ↔ m.1 = k) :
    share k (h.trial owner moves) = trial owner (h.filter fun w => own w.id) (share k moves) := by
  induction moves generalizing h with
  | nil => rfl
  | cons first rest ih =>
      obtain ⟨j,call⟩ := first
      have here := apart (j,call) List.mem_cons_self
      have later := ih (h.extend owner call) fun m member => apart m (List.mem_cons_of_mem _ member)
      rw [trial]
      by_cases same : j = k
      · subst same
        have mine : own call.id = true := here.mpr rfl
        rw [share_own,share_own,later,trial,extend_own owner h call mine,verdict_filter owner h call mine]
      · -- What another client writes is filtered out before this one looks at it.
        have other : own call.id = false := Bool.eq_false_iff.mpr fun mine => same (here.mp mine)
        rw [share_other same,share_other same,later,extend_other owner h call other]

theorem latest_none {h : History} {id : VoyageId} : h.latest id = none ↔ id ∉ h.ids := by
  simp [latest,ids]

theorem latest_share [DecidableEq ι] (k : ι) (id : VoyageId) (writes : List (ι × Record))
    (apart : ∀ m ∈ writes, m.2.id = id → m.1 = k) :
    latest (writes.map Prod.snd) id = latest ((share k writes).map Prod.snd) id := by
  induction writes using List.reverseRecOn with
  | nil => rfl
  | append_singleton earlier m ih =>
      obtain ⟨j,w⟩ := m
      have before := ih fun m member => apart m (List.mem_append_left _ member)
      have here := apart (j,w) (List.mem_append_right _ List.mem_cons_self)
      rw [List.map_append,List.map_singleton,latest_snoc,before,share,share,List.filter_append,
        List.map_append]
      by_cases same : j = k
      · rw [List.filter_cons_of_pos (by simpa using same),List.filter_nil,List.map_singleton,latest_snoc]
      · have other : ¬ id = w.id := fun equal => same (here equal.symm)
        rw [if_neg other,List.filter_cons_of_neg (by simpa using same),List.filter_nil,List.map_nil,
          List.append_nil]

theorem latest_shares [DecidableEq ι] (id : VoyageId) {one two : List (ι × Record)}
    (same : ∀ k, share k one = share k two)
    (apart : ∀ m ∈ one, ∀ n ∈ one, m.2.id = n.2.id → m.1 = n.1) :
    latest (one.map Prod.snd) id = latest (two.map Prod.snd) id := by
  have perm := perm_of_shares same
  by_cases known : ∃ m ∈ one, m.2.id = id
  · obtain ⟨m,present,rfl⟩ := known
    rw [latest_share m.1 _ one fun n member equal => apart n member m present equal,
      latest_share m.1 _ two fun n member equal => apart n (perm.mem_iff.mpr member) m present equal,same]
  · have unwritten : id ∉ ids (one.map Prod.snd) := by
      intro written
      simp only [ids,List.map_map,List.mem_map] at written
      obtain ⟨m,present,equal⟩ := written
      exact known ⟨m,present,equal⟩
    have mapped : (ids (one.map Prod.snd)).Perm (ids (two.map Prod.snd)) := (perm.map _).map _
    rw [latest_none.mpr unwritten,latest_none.mpr fun written => unwritten (mapped.mem_iff.mpr written)]

end History

theorem Index.alike_of_perm (keyOf : Entry → String) {one two : List Event}
    (perm : (one.map fun e => keyOf e.entry).Perm (two.map fun e => keyOf e.entry)) :
    (ofEvents keyOf one).keyCount = (ofEvents keyOf two).keyCount ∧
      ∀ key, ((ofEvents keyOf one).lookup key).length = ((ofEvents keyOf two).lookup key).length := by
  have size : ∀ events, (ofEvents keyOf events).keyCount = (events.map fun e => keyOf e.entry).dedup.length :=
    fun events => Table.size_eq_dedup _ _ (mem_keys_ofEvents keyOf events)
  have held : ∀ events key, ((ofEvents keyOf events).lookup key).length =
      (events.map fun e => keyOf e.entry).count key := by
    intro events key
    rw [History.lookup_ofEvents,List.length_map,← List.countP_eq_length_filter,List.count_eq_countP,
      List.countP_map]
    rfl
  refine ⟨?_,?_⟩
  · rw [size,size,perm.dedup.length_eq]
  · intro key
    rw [held,held,perm.count_eq]

-- Identifiers, digests and the order of the log are apart.
structure Registry.Alike (r s : Registry) : Prop where
  records : ∀ id, r.get id = s.get id
  eventCount : r.eventCount = s.eventCount
  recordCount : r.recordCount = s.recordCount
  shipKeys : r.ships.keyCount = s.ships.keyCount
  portKeys : r.ports.keyCount = s.ports.keyCount
  shipEvents : ∀ key, (r.shipEvents key).length = (s.shipEvents key).length
  portEvents : ∀ key, (r.portEvents key).length = (s.portEvents key).length

namespace Registry

def heard (r : Registry) (answers : List (ι × Call × Except Refusal EventId)) :
    List (ι × Call × Except Refusal (Option Entry)) :=
  answers.map fun (client,call,answer) => (client,call,answer.map fun id => (r.event? id).map Event.entry)

structure Logged [DecidableEq ι] (r : Registry) (answers : List (ι × Call × Except Refusal EventId)) : Prop where
  entries : ∀ k call id, (k,call,.ok id) ∈ answers → ∃ kind, (r.event? id).map Event.entry = some (call.entry kind)
  ordered : ∀ k, (numbers (share k answers)).Sublist (r.log.events.map Event.id)

theorem writesOf_heard (r : Registry) (answers : List (ι × Call × Except Refusal EventId)) :
    writesOf (r.heard answers) = writesOf answers := by
  rw [writesOf,writesOf,heard,List.filterMap_map]
  congr 1
  funext m
  obtain ⟨k,call,answer⟩ := m
  cases answer <;> rfl

end Registry

namespace Ledger

variable {l m : Ledger}

theorem alike_of_perm (perm : l.writes.Perm m.writes) (last : ∀ id, l.writes.latest id = m.writes.latest id) :
    l.registry.Alike m.registry := by
  have keys : ∀ (keyOf : Entry → String) (ownKey : Record → String),
      (∀ earlier w, keyOf (History.entry earlier w) = ownKey w) →
      (l.writes.events.map fun e => keyOf e.entry).Perm (m.writes.events.map fun e => keyOf e.entry) := by
    intro keyOf ownKey follows
    rw [History.words_events keyOf ownKey follows,History.words_events keyOf ownKey follows]
    exact perm.map ownKey
  obtain ⟨shipKeys,shipEvents⟩ :=
    Index.alike_of_perm _ (keys Entry.callReference (fun w => w.details.callReference) fun _ _ => rfl)
  obtain ⟨portKeys,portEvents⟩ :=
    Index.alike_of_perm _ (keys Entry.portCode (fun w => w.details.portCode) fun _ _ => rfl)
  refine ⟨?_,?_,?_,shipKeys,portKeys,shipEvents,portEvents⟩
  · intro id
    rw [registry,registry,Registry.get_after,Registry.get_after,History.fetch,History.fetch,last]
  · change l.writes.events.length = m.writes.events.length
    rw [History.events_length,History.events_length,perm.length_eq]
  · change l.writes.table.size = m.writes.table.size
    rw [Table.size_eq_dedup _ _ l.writes.mem_table_keys,Table.size_eq_dedup _ _ m.writes.mem_table_keys]
    exact (perm.map Record.id).dedup.length_eq

theorem alike_of_shares [DecidableEq ι] {one two : List (ι × Record)} (left : l.writes = one.map Prod.snd)
    (right : m.writes = two.map Prod.snd) (same : ∀ k, share k one = share k two)
    (apart : ∀ m ∈ one, ∀ n ∈ one, m.2.id = n.2.id → m.1 = n.1) : l.registry.Alike m.registry := by
  refine alike_of_perm ?_ ?_
  · rw [left,right]
    exact (perm_of_shares same).map Prod.snd
  · intro id
    rw [left,right]
    exact History.latest_shares id same apart

theorem play_registry (sound : l.Sound) (moves : List (ι × Call)) :
    play Registry.apply l.registry moves = ((play write l moves).1,(play write l moves).2.registry) ∧
      (play write l moves).2.Sound := by
  induction moves generalizing l with
  | nil => exact ⟨rfl,sound⟩
  | cons first rest ih =>
      obtain ⟨k,call⟩ := first
      obtain ⟨same,ended⟩ := ih (step_sound sound (.call call))
      refine ⟨?_,ended⟩
      simp only [play,apply_registry sound]
      rw [show play Registry.apply (l.write call).2.registry rest = _ from same]
      rfl

theorem write_verdict (l : Ledger) (call : Call) (room : l.writes.length < l.limit.toNat) :
    (∃ refusal, l.writes.verdict l.owner call = .error refusal ∧ l.write call = (.error refusal,l)) ∨
      (l.writes.verdict l.owner call = .ok (l.writes.entry call.record) ∧
        l.write call = (.ok (Log.idAt l.writes.length),{ l with writes := l.writes ++ [call.record] })) := by
  unfold write History.verdict
  by_cases stranger : call.caller ≠ l.owner
  · exact .inl ⟨_,if_pos stranger,if_pos stranger⟩
  · rw [if_neg stranger,if_neg stranger]
    by_cases missing : call.mode = .update ∧ call.id ∉ l.writes.ids
    · exact .inl ⟨_,if_pos missing,if_pos missing⟩
    · rw [if_neg missing,if_neg missing,if_neg (Nat.not_le.mpr room)]
      exact .inr ⟨rfl,rfl⟩

theorem play_writes (l : Ledger) (moves : List (ι × Call)) :
    (play write l moves).2.writes = l.writes ++ (writesOf (play write l moves).1).map Prod.snd := by
  induction moves generalizing l with
  | nil => exact (List.append_nil _).symm
  | cons first rest ih =>
      obtain ⟨k,call⟩ := first
      rw [play]
      rcases write_cases l call with ⟨refusal,refused⟩ | ⟨_,_,_,accepted⟩
      · rw [refused]
        exact ih l
      · rw [accepted]
        refine (ih _).trans ?_
        exact List.append_assoc l.writes [call.record] _

theorem play_numbers (l : Ledger) (moves : List (ι × Call)) :
    (play write l moves).2.writes.events.map Event.id =
      l.writes.events.map Event.id ++ numbers (play write l moves).1 := by
  induction moves generalizing l with
  | nil => exact (List.append_nil _).symm
  | cons first rest ih =>
      obtain ⟨k,call⟩ := first
      rw [play]
      rcases write_cases l call with ⟨refusal,refused⟩ | ⟨_,_,_,accepted⟩
      · rw [refused]
        exact ih l
      · rw [accepted]
        refine (ih _).trans ?_
        have numbered : (Log.link l.writes.events (l.writes.entry call.record)).id = Log.idAt l.writes.length := by
          rw [← l.writes.events_length]; rfl
        rw [History.events_snoc,List.map_append,List.map_singleton,numbered,List.append_assoc]
        rfl

theorem play_heard (l : Ledger) (moves : List (ι × Call))
    (room : l.writes.length + moves.length ≤ l.limit.toNat) :
    (play write l moves).2.registry.heard (play write l moves).1 = l.writes.trial l.owner moves := by
  induction moves generalizing l with
  | nil => rfl
  | cons first rest ih =>
      obtain ⟨k,call⟩ := first
      rw [List.length_cons] at room
      rw [play,History.trial,History.extend]
      rcases write_verdict l call (by omega) with ⟨refusal,verdict,refused⟩ | ⟨verdict,accepted⟩
      · rw [refused,verdict]
        exact congrArg _ (ih l (by omega))
      · rw [accepted,verdict]
        have later := ih { l with writes := l.writes ++ [call.record] } (by simp; omega)
        -- The log is read at the end, with all that was written in between.
        have whole := play_writes { l with writes := l.writes ++ [call.record] } rest
        have bound := l.limit.toNat_lt
        have found := event_found l.writes call.record _
          (whole.trans (List.append_assoc _ [call.record] _)) (by omega)
        have said := congrArg (fun e => (k,call,(Except.ok e : Except Refusal (Option Entry)))) found
        exact congrArg₂ List.cons said later

theorem play_logged [DecidableEq ι] (l : Ledger) (moves : List (ι × Call))
    (room : l.writes.length + moves.length ≤ l.limit.toNat) :
    (play write l moves).2.registry.Logged (play write l moves).1 := by
  refine ⟨?_,?_⟩
  · intro k call id accepted
    have heard := List.mem_map_of_mem (f := fun (m : ι × Call × Except Refusal EventId) =>
      (m.1,m.2.1,m.2.2.map fun id => ((play write l moves).2.registry.event? id).map Event.entry)) accepted
    change _ ∈ (play write l moves).2.registry.heard _ at heard
    rw [play_heard l moves room] at heard
    exact History.trial_entry heard
  · intro k
    have part : (numbers (share k (play write l moves).1)).Sublist (numbers (play write l moves).1) :=
      List.filter_sublist.filterMap _
    change List.Sublist _ ((play write l moves).2.writes.events.map Event.id)
    rw [play_numbers]
    exact part.trans (List.sublist_append_right _ _)

end Ledger

section Clients
variable [DecidableEq ι] {plan : ι → List Call} {c : Config}

theorem heard_alone (apart : ∀ j k, ∀ a ∈ plan j, ∀ b ∈ plan k, a.id = b.id → j = k)
    (mixed : Interleaves plan schedule) (room : schedule.length ≤ c.maxEvents.toNat) (k : ι) :
    let played := play Ledger.write (.opened c) schedule
    share k (played.2.registry.heard played.1) = History.trial c.owner [] ((plan k).map (Prod.mk k)) := by
  intro played
  have heard := Ledger.play_heard (.opened c) schedule (by simpa [Ledger.opened] using room)
  have own : ∀ m ∈ schedule, decide (m.2.id ∈ (plan k).map Call.id) = true ↔ m.1 = k := by
    rintro ⟨j,call⟩ present
    have member := planned mixed present
    rw [decide_eq_true_iff,List.mem_map]
    constructor
    · rintro ⟨a,used,same⟩
      exact (apart k j a used call member same).symm
    · rintro rfl
      exact ⟨call,member,rfl⟩
  rw [heard,History.trial_alone _ _ k (fun id => decide (id ∈ (plan k).map Call.id)) schedule own,mixed k]
  rfl

theorem writes_apart {apply : σ → Call → Except Refusal EventId × σ} {s : σ}
    (apart : ∀ j k, ∀ a ∈ plan j, ∀ b ∈ plan k, a.id = b.id → j = k) (mixed : Interleaves plan schedule) :
    ∀ m ∈ writesOf (play apply s schedule).1, ∀ n ∈ writesOf (play apply s schedule).1,
      m.2.id = n.2.id → m.1 = n.1 := by
  rintro ⟨j,w⟩ present ⟨k,v⟩ other same
  obtain ⟨a,made,rfl⟩ := writesOf_play present
  obtain ⟨b,made',rfl⟩ := writesOf_play other
  exact apart j k a (planned mixed made) b (planned mixed made') same

end Clients

-- No two clients may use one voyage notice, and there has to be room for all
-- calls. Each client then hears the same, numbers apart.
theorem interleaving_irrelevant [DecidableEq ι] (c : Config) (plan : ι → List Call)
    (apart : ∀ j k, ∀ a ∈ plan j, ∀ b ∈ plan k, a.id = b.id → j = k)
    (one : Interleaves plan left) (two : Interleaves plan right) (room : left.length ≤ c.maxEvents.toNat) :
    let first := play Registry.apply (.deploy c) left
    let second := play Registry.apply (.deploy c) right
    (∀ k, share k (first.2.heard first.1) = share k (second.2.heard second.1)) ∧
    first.2.Alike second.2 ∧
    first.2.Logged first.1 ∧
    second.2.Logged second.1 := by
  intro first second
  have shuffled : left.Perm right := perm_of_shares fun k => (one k).trans (two k).symm
  have sameRoom : right.length ≤ c.maxEvents.toNat := shuffled.length_eq ▸ room
  have firstRun : first = _ := (Ledger.play_registry (Ledger.opened_sound c) left).1
  have secondRun : second = _ := (Ledger.play_registry (Ledger.opened_sound c) right).1
  rw [firstRun,secondRun]
  have heard := fun k => (heard_alone apart one room k).trans (heard_alone apart two sameRoom k).symm
  refine ⟨heard,?_,Ledger.play_logged _ left (by simpa [Ledger.opened] using room),
    Ledger.play_logged _ right (by simpa [Ledger.opened] using sameRoom)⟩
  have shares : ∀ k, share k (writesOf (play Ledger.write (.opened c) left).1) =
      share k (writesOf (play Ledger.write (.opened c) right).1) := by
    intro k
    rw [← Registry.writesOf_heard _ (play Ledger.write (.opened c) left).1,
      ← Registry.writesOf_heard _ (play Ledger.write (.opened c) right).1,share_writesOf,share_writesOf,heard]
  exact Ledger.alike_of_shares (Ledger.play_writes _ left) (Ledger.play_writes _ right) shares
    (writes_apart apart one)

theorem interleaving_irrelevant_renumbered :
    let here : Details := ⟨"ESC001","Casablanca","CASA","Atlas","waiting"⟩
    let there : Details := ⟨"ESC002","Tanger","TNG","Rif","berthed"⟩
    let a : Call := ⟨"harbour",.record,⟨7⟩,here,10⟩
    let b : Call := ⟨"harbour",.update,⟨7⟩,there,20⟩
    let early : Call := ⟨"harbour",.update,⟨8⟩,here,10⟩
    let late : Call := ⟨"harbour",.record,⟨8⟩,there,5⟩
    let stranger : Call := ⟨"quay",.record,⟨8⟩,here,30⟩
    let plan : Bool → List Call := fun second => if second then [early,late,stranger] else [a,b]
    let left := [(false,a),(false,b),(true,early),(true,late),(true,stranger)]
    let right := [(true,early),(true,late),(false,a),(true,stranger),(false,b)]
    let c : Config := ⟨"harbour",5,10⟩
    let first := play Registry.apply (.deploy c) left
    let second := play Registry.apply (.deploy c) right
    (∀ j k, ∀ a ∈ plan j, ∀ b ∈ plan k, a.id = b.id → j = k) ∧
      Interleaves plan left ∧ Interleaves plan right ∧ left.length ≤ c.maxEvents.toNat ∧
      numbers (share true first.1) = [⟨3⟩] ∧ numbers (share true second.1) = [⟨1⟩] ∧
      (∀ k, share k (first.2.heard first.1) = share k (second.2.heard second.1)) ∧
      first.2.Alike second.2 ∧ first.2.Logged first.1 ∧ second.2.Logged second.1 := by
  intro here there a b early late stranger plan left right c first second
  have apart : ∀ j k, ∀ a ∈ plan j, ∀ b ∈ plan k, a.id = b.id → j = k := by decide
  have one : Interleaves plan left := by
    intro k
    cases k <;> rfl
  have two : Interleaves plan right := by
    intro k
    cases k <;> rfl
  have room : left.length ≤ c.maxEvents.toNat := by decide
  exact ⟨apart,one,two,room,rfl,rfl,interleaving_irrelevant c plan apart one two room⟩

end Harbour
