import Harbour.Proofs.Run

namespace Harbour

-- What lies in the store, the log and the indices is not kept but read off the
-- writes. The last field counts the writes whose notifications have been taken out.
structure Ledger where
  owner : String
  limit : UInt64
  writes : History
  told : Nat

namespace Ledger

def opened (c : Config) : Ledger := ⟨c.owner,c.maxEvents,[],0⟩

def write (l : Ledger) (call : Call) : Except Refusal EventId × Ledger :=
  if call.caller ≠ l.owner then (.error (.unauthorized call.caller),l)
  else if call.mode = .update ∧ call.id ∉ l.writes.ids then (.error (.notFound call.id),l)
  else if l.limit.toNat ≤ l.writes.length then (.error (.exhausted l.limit),l)
  else (.ok ⟨UInt64.ofNat (l.writes.length + 1)⟩,{ l with writes := l.writes ++ [call.record] })

def drain (l : Ledger) : List Notification × Ledger :=
  (l.writes.notices.drop (2 * l.told),{ l with told := l.writes.length })

def step (l : Ledger) : Step → Reply × Ledger
  | .call call => (.outcome (l.write call).1,(l.write call).2)
  | .drain => (.batch l.drain.1,l.drain.2)

def run (l : Ledger) : List Step → List Reply × Ledger
  | [] => ([],l)
  | s :: rest =>
      let (reply,next) := l.step s
      let (replies,last) := next.run rest
      (reply :: replies,last)

def registry (l : Ledger) : Registry :=
  .after l.owner l.limit l.writes (l.writes.notices.drop (2 * l.told))

structure Sound (l : Ledger) : Prop where
  told : l.told ≤ l.writes.length
  room : l.writes.length ≤ l.limit.toNat

variable {l : Ledger}

theorem Sound.short (sound : l.Sound) : l.writes.length < 0x10000000000000000 :=
  Nat.lt_of_le_of_lt sound.room l.limit.toNat_lt

theorem opened_sound (c : Config) : (opened c).Sound := ⟨Nat.le_refl _,Nat.zero_le _⟩

theorem opened_registry (c : Config) : (opened c).registry = .deploy c := rfl

theorem write_accepted (l : Ledger) (call : Call) (owned : call.caller = l.owner)
    (found : ¬ (call.mode = .update ∧ call.id ∉ l.writes.ids)) (room : l.writes.length < l.limit.toNat) :
    l.write call = (.ok (Log.idAt l.writes.length),{ l with writes := l.writes ++ [call.record] }) := by
  rw [write,if_neg (not_not_intro owned),if_neg found,if_neg (Nat.not_le.mpr room)]
  rfl

theorem write_cases (l : Ledger) (call : Call) :
    (∃ refusal, l.write call = (.error refusal,l)) ∨
      (call.caller = l.owner ∧ ¬ (call.mode = .update ∧ call.id ∉ l.writes.ids) ∧
        l.writes.length < l.limit.toNat ∧
        l.write call = (.ok (Log.idAt l.writes.length),{ l with writes := l.writes ++ [call.record] })) := by
  by_cases stranger : call.caller = l.owner
  · by_cases missing : call.mode = .update ∧ call.id ∉ l.writes.ids
    · exact .inl ⟨_,by rw [write,if_neg (not_not_intro stranger),if_pos missing]⟩
    · by_cases full : l.limit.toNat ≤ l.writes.length
      · exact .inl ⟨_,by rw [write,if_neg (not_not_intro stranger),if_neg missing,if_pos full]⟩
      · have room := Nat.not_le.mp full
        exact .inr ⟨stranger,missing,room,write_accepted l call stranger missing room⟩
  · exact .inl ⟨_,by rw [write,if_pos stranger]⟩

theorem step_frame (l : Ledger) (s : Step) : (l.step s).2.owner = l.owner ∧ (l.step s).2.limit = l.limit := by
  cases s with
  | drain => exact ⟨rfl,rfl⟩
  | call call =>
      change (l.write call).2.owner = l.owner ∧ (l.write call).2.limit = l.limit
      rcases write_cases l call with ⟨refusal,refused⟩ | ⟨_,_,_,accepted⟩
      · rw [refused]; exact ⟨rfl,rfl⟩
      · rw [accepted]; exact ⟨rfl,rfl⟩

theorem step_sound (sound : l.Sound) (s : Step) : (l.step s).2.Sound := by
  cases s with
  | drain => exact ⟨Nat.le_refl _,sound.room⟩
  | call call =>
      change (l.write call).2.Sound
      rcases write_cases l call with ⟨refusal,refused⟩ | ⟨_,_,room,accepted⟩
      · rw [refused]; exact sound
      · rw [accepted]
        have told := sound.told
        refine ⟨?_,?_⟩ <;> simp only [List.length_append,List.length_singleton] <;> omega

theorem run_sound (sound : l.Sound) (steps : List Step) : (l.run steps).2.Sound := by
  induction steps generalizing l with
  | nil => exact sound
  | cons s rest ih => exact ih (step_sound sound s)

theorem run_frame (l : Ledger) (steps : List Step) :
    (l.run steps).2.owner = l.owner ∧ (l.run steps).2.limit = l.limit := by
  induction steps generalizing l with
  | nil => exact ⟨rfl,rfl⟩
  | cons s rest ih =>
      obtain ⟨owner,limit⟩ := ih (l.step s).2
      exact ⟨owner.trans (step_frame l s).1,limit.trans (step_frame l s).2⟩

theorem told_drop_snoc (h : History) (w : Record) {told : Nat} (bound : told ≤ h.length) :
    (History.notices (h ++ [w])).drop (2 * told) = h.notices.drop (2 * told) ++
      [.arrivalRecorded w,.eventRecorded (Log.link h.events (h.entry w)).receipt] := by
  rw [History.notices_snoc,List.drop_append_of_le_length]
  rw [History.notices_length]; omega

theorem apply_registry (sound : l.Sound) (call : Call) :
    l.registry.apply call = ((l.write call).1,(l.write call).2.registry) := by
  rw [Registry.apply_of_commit,registry,Registry.commit_after,write]
  by_cases stranger : call.caller ≠ l.owner
  · simp only [if_pos stranger]; rfl
  · by_cases missing : call.mode = .update ∧ call.id ∉ l.writes.ids
    · simp only [if_neg stranger,if_pos missing]; rfl
    · by_cases full : l.limit.toNat ≤ l.writes.length
      · simp only [if_neg stranger,if_neg missing,if_pos full]; rfl
      · simp only [if_neg stranger,if_neg missing,if_neg full,registry,told_drop_snoc _ _ sound.told]
        rfl

theorem commit_cases (sound : l.Sound) (call : Call) :
    (∃ refusal, l.registry.commit call = .error refusal ∧ (l.write call).2 = l) ∨
      (l.registry.commit call = .ok (Log.idAt l.writes.length,(l.write call).2.registry) ∧
        (l.write call).2 = { l with writes := l.writes ++ [call.record] }) := by
  have applied := apply_registry sound call
  rw [Registry.apply_of_commit] at applied
  rcases write_cases l call with ⟨why,refused⟩ | ⟨_,_,_,accepted⟩
  · rw [refused] at applied ⊢
    cases written : l.registry.commit call with
    | error refusal => exact .inl ⟨refusal,rfl,rfl⟩
    | ok result => rw [written] at applied; cases applied
  · rw [accepted] at applied ⊢
    cases written : l.registry.commit call with
    | error refusal => rw [written] at applied; cases applied
    | ok result =>
        obtain ⟨id,next⟩ := result
        rw [written] at applied
        cases applied
        exact .inr ⟨rfl,rfl⟩

theorem event_found (h : History) (w : Record) (later : History) (same : l.writes = h ++ w :: later)
    (small : h.length + 1 < 0x10000000000000000) :
    (l.registry.event? (Log.idAt h.length)).map Event.entry = some (h.entry w) := by
  change ((Log.mk l.limit l.writes.events).get? (Log.idAt h.length)).map Event.entry = _
  rw [Log.get?_idAt _ small,same,History.event_at]
  rfl

theorem drain_registry (l : Ledger) : l.registry.drain = (l.drain.1,l.drain.2.registry) := by
  have nothing : l.writes.notices.drop (2 * l.writes.length) = [] := by
    rw [← l.writes.notices_length,List.drop_length]
  simp only [registry,drain,Registry.drain_after,nothing]

theorem step_registry (sound : l.Sound) (s : Step) :
    l.registry.step s = ((l.step s).1,(l.step s).2.registry) := by
  cases s with
  | call call => simp only [Registry.step,step,apply_registry sound]
  | drain => simp only [Registry.step,step,drain_registry]

theorem run_registry (sound : l.Sound) (steps : List Step) :
    l.registry.run steps = ((l.run steps).1,(l.run steps).2.registry) := by
  induction steps generalizing l with
  | nil => rfl
  | cons s rest ih => simp only [Registry.run,run,step_registry sound,ih (step_sound sound s)]

-- Every state of a registry is that of a ledger, with room for what it holds.
theorem reached_ledger (path : Registry.Reached c r) :
    ∃ l : Ledger, l.Sound ∧ l.owner = c.owner ∧ l.limit = c.maxEvents ∧ r = l.registry := by
  induction path with
  | deploy => exact ⟨opened c,opened_sound c,rfl,rfl,rfl⟩
  | step s prior ih =>
      obtain ⟨l,sound,owner,limit,rfl⟩ := ih
      obtain ⟨sameOwner,sameLimit⟩ := step_frame l s
      exact ⟨(l.step s).2,step_sound sound s,sameOwner.trans owner,sameLimit.trans limit,
        by rw [step_registry sound]⟩

end Ledger

end Harbour
