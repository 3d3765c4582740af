import Harbour.Proofs.Effects

namespace Harbour

theorem Index.lookup_grows (index : Index) (key other : String) (id : EventId) :
    index.lookup other <+: (index.append key id).lookup other := by
  rw [lookup_append]
  split
  · rename_i same
    rw [same]
    exact List.prefix_append _ _
  · exact List.prefix_refl _

theorem Log.get_grows {log next : Log} {id : EventId} (grown : log.events <+: next.events)
    (found : log.get? id = some e) : next.get? id = some e := by
  obtain ⟨later,whole⟩ := grown
  unfold get? at found ⊢
  split at found
  · cases found
  · rename_i numbered
    rw [if_neg numbered,← whole,List.getElem?_append_left (List.getElem?_eq_some_iff.mp found).1]
    exact found

namespace Registry

structure Extends (r s : Registry) : Prop where
  events : r.log.events <+: s.log.events
  found : ∀ id e, r.event? id = some e → s.event? id = some e
  ships : ∀ key, r.shipEvents key <+: s.shipEvents key
  ports : ∀ key, r.portEvents key <+: s.portEvents key
  records : ∀ id, r.holds id = true → s.holds id = true

theorem Extends.refl (r : Registry) : r.Extends r :=
  ⟨List.prefix_refl _,fun _ _ found => found,fun _ => List.prefix_refl _,fun _ => List.prefix_refl _,
    fun _ held => held⟩

theorem Extends.trans (one : Extends r s) (two : Extends s t) : Extends r t where
  events := one.events.trans two.events
  found id e found := two.found id e (one.found id e found)
  ships key := (one.ships key).trans (two.ships key)
  ports key := (one.ports key).trans (two.ports key)
  records id held := two.records id (one.records id held)

theorem install_extends (r : Registry) (event : Event) (w : Record) : r.Extends (r.install event w) where
  events := List.prefix_append _ _
  found _ _ found := Log.get_grows (List.prefix_append _ _) found
  ships key := r.ships.lookup_grows _ key _
  ports key := r.ports.lookup_grows _ key _
  records id held := by
    rw [holds,Store.holds,Table.contains_exact] at held ⊢
    exact (Table.mem_keys_put _ _ _ _).mpr (.inr held)

theorem commit_enters {r next : Registry} {call : Call} {id : EventId} (written : r.commit call = .ok (id,next)) :
    call.caller = r.owner ∧ ∃ event, event.entry = call.entry (r.kindOf call.id) ∧
      next = r.install event call.record := by
  rw [commit_exact] at written
  split at written
  · cases written
  · rename_i owned
    split at written
    · cases written
    · cases staged : r.log.stage (call.entry (r.kindOf call.id)) with
      | error why => simp [staged,Except.map] at written
      | ok event =>
          simp only [staged,Except.map,Except.ok.injEq,Prod.mk.injEq] at written
          exact ⟨not_not.mp owned,event,Log.stage_entry staged,written.2.symm⟩

end Registry

def Reply.accepted : Reply → Bool
  | .outcome (.ok _) => true
  | _ => false

def Intake.Reply.accepted : Intake.Reply → Bool
  | .delivery (.ok (.recorded _)) => true
  | .registry reply => reply.accepted
  | _ => false

namespace Registry

theorem step_parts (r : Registry) (s : Step) :
    ((r.step s).1.accepted = false ∧ ∃ pending, (r.step s).2 = { r with pending }) ∨
      ((r.step s).1.accepted = true ∧ ∃ event w, (r.step s).2 = r.install event w) := by
  cases s with
  | drain => exact .inl ⟨rfl,[],rfl⟩
  | call call =>
      simp only [step,apply_of_commit]
      cases written : r.commit call with
      | error refusal => exact .inl ⟨rfl,r.pending,rfl⟩
      | ok result =>
          obtain ⟨_,event,_,installed⟩ := commit_enters written
          exact .inr ⟨rfl,event,call.record,installed⟩

theorem step_extends (r : Registry) (s : Step) : r.Extends (r.step s).2 := by
  rcases r.step_parts s with ⟨_,pending,kept⟩ | ⟨_,event,w,installed⟩
  · have same := Extends.refl r
    rw [kept]
    exact ⟨same.events,same.found,same.ships,same.ports,same.records⟩
  · rw [installed]; exact r.install_extends event w

theorem step_count (r : Registry) (s : Step) :
    (r.step s).2.eventCount = r.eventCount + if (r.step s).1.accepted then 1 else 0 := by
  rcases r.step_parts s with ⟨refused,pending,kept⟩ | ⟨accepted,event,w,installed⟩
  · rw [kept,refused]; rfl
  · rw [installed,accepted,if_pos rfl]; exact List.length_append

theorem run_count (r : Registry) (steps : List Step) :
    (r.run steps).2.eventCount = r.eventCount + (r.run steps).1.countP Reply.accepted := by
  induction steps generalizing r with
  | nil => rfl
  | cons s rest ih =>
      rw [run_cons,List.countP_cons,ih,step_count]
      omega

theorem run_length (r : Registry) (steps : List Step) : (r.run steps).1.length = steps.length := by
  induction steps generalizing r with
  | nil => rfl
  | cons s rest ih => exact congrArg (· + 1) (ih _)

theorem run_extends (r : Registry) (steps : List Step) : r.Extends (r.run steps).2 := by
  induction steps generalizing r with
  | nil => exact .refl r
  | cons s rest ih => exact (r.step_extends s).trans (ih _)

theorem run_append (r : Registry) (earlier later : List Step) :
    (r.run (earlier ++ later)).2 = ((r.run earlier).2.run later).2 := by
  induction earlier generalizing r with
  | nil => rfl
  | cons s rest ih => exact ih _

end Registry

namespace Intake

theorem step_parts (intake : Intake) (s : Step) :
    ((intake.step s).1.accepted = false ∧ (intake.step s).2.registry = intake.registry) ∨
      ∃ past, (intake.step s).2.registry = (intake.registry.step past).2 ∧
        (intake.step s).1.accepted = (intake.registry.step past).1.accepted := by
  cases delivers : s.delivers with
  | false =>
      obtain ⟨past,rfl⟩ := undelivered delivers
      exact .inr ⟨past,rfl,rfl⟩
  | true =>
      rcases intake.delivery_cases delivers with ⟨answer,idle,replied,_,kept⟩ | ⟨n,time,id,next,_,written,taken⟩
      · refine .inl ⟨?_,(uncounted_parts kept).1⟩
        rw [replied]
        cases answer with
        | error why => rfl
        | ok outcome =>
            cases outcome with
            | recorded id => exact absurd rfl (idle id)
            | duplicate => rfl
      · refine .inr ⟨.call (intake.call n time),?_,?_⟩
        · simp only [taken,Registry.step,Registry.apply_of_commit,written]
        · simp only [taken,Registry.step,Registry.apply_of_commit,written]; rfl

theorem step_extends (intake : Intake) (s : Step) : intake.registry.Extends (intake.step s).2.registry := by
  rcases intake.step_parts s with ⟨_,same⟩ | ⟨past,same,_⟩
  · rw [same]; exact .refl _
  · rw [same]; exact intake.registry.step_extends past

theorem step_count (intake : Intake) (s : Step) :
    (intake.step s).2.registry.eventCount =
      intake.registry.eventCount + if (intake.step s).1.accepted then 1 else 0 := by
  rcases intake.step_parts s with ⟨idle,same⟩ | ⟨past,same,replied⟩
  · rw [same,idle]; rfl
  · rw [same,replied]; exact intake.registry.step_count past

theorem run_extends (intake : Intake) (steps : List Step) : intake.registry.Extends (intake.run steps).2.registry := by
  induction steps generalizing intake with
  | nil => exact .refl _
  | cons s rest ih => exact (intake.step_extends s).trans (ih _)

theorem run_append (intake : Intake) (earlier later : List Step) :
    (intake.run (earlier ++ later)).2 = ((intake.run earlier).2.run later).2 := by
  induction earlier generalizing intake with
  | nil => rfl
  | cons s rest ih => exact ih _

end Intake

-- Nothing is asked of the state in which the run begins.
theorem history_only_grows (r : Registry) (intake : Intake) :
    (∀ earlier later, (r.run earlier).2.Extends (r.run (earlier ++ later)).2) ∧
    (∀ earlier s, (r.run (earlier ++ [s])).2.eventCount = (r.run earlier).2.eventCount +
      if ((r.run earlier).2.step s).1.accepted then 1 else 0) ∧
    (∀ earlier later, (intake.run earlier).2.registry.Extends (intake.run (earlier ++ later)).2.registry) ∧
    (∀ earlier s, (intake.run (earlier ++ [s])).2.registry.eventCount =
      (intake.run earlier).2.registry.eventCount + if ((intake.run earlier).2.step s).1.accepted then 1 else 0) := by
  refine ⟨?_,?_,?_,?_⟩
  · intro earlier later
    rw [Registry.run_append]
    exact Registry.run_extends _ later
  · intro earlier s
    rw [Registry.run_append]
    exact Registry.step_count _ s
  · intro earlier later
    rw [Intake.run_append]
    exact Intake.run_extends _ later
  · intro earlier s
    rw [Intake.run_append]
    exact Intake.step_count _ s

end Harbour
