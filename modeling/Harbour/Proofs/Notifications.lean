import Harbour.Proofs.Refinement

namespace Harbour

def Step.call? : Step → Option Call
  | .call made => some made
  | .drain => none

def Reply.outcome? : Reply → Option (Except Refusal EventId)
  | .outcome answer => some answer
  | .batch _ => none

def Reply.drained : Reply → List Notification
  | .outcome _ => []
  | .batch notifications => notifications

def written? : Step × Reply → Option Record
  | (.call call,.outcome (.ok _)) => some call.record
  | _ => none

def calls (steps : List Step) : List Call := steps.filterMap Step.call?

namespace Ledger

variable {l : Ledger}

def taken (l : Ledger) : List Notification := l.writes.notices.take (2 * l.told)

theorem taken_pending (l : Ledger) : l.taken ++ l.registry.pending = l.writes.notices :=
  List.take_append_drop (2 * l.told) l.writes.notices

theorem taken_write (sound : l.Sound) (call : Call) : (l.write call).2.taken = l.taken := by
  rcases write_cases l call with ⟨refusal,refused⟩ | ⟨_,_,_,accepted⟩
  · rw [refused]
  · have told := sound.told
    have inside : 2 * l.told ≤ l.writes.notices.length := by
      rw [History.notices_length]; omega
    rw [accepted]
    simp only [taken,History.notices_snoc]
    exact List.take_append_of_le_length inside

theorem step_taken (sound : l.Sound) (s : Step) :
    (l.step s).2.taken = l.taken ++ (l.step s).1.drained := by
  cases s with
  | call call =>
      change (l.write call).2.taken = l.taken ++ []
      rw [List.append_nil,taken_write sound]
  | drain =>
      have all : l.writes.notices.take (2 * l.writes.length) = l.writes.notices := by
        rw [← l.writes.notices_length,List.take_length]
      change l.writes.notices.take (2 * l.writes.length) = l.taken ++ l.writes.notices.drop (2 * l.told)
      rw [all,taken,List.take_append_drop]

theorem run_taken (sound : l.Sound) (steps : List Step) :
    (l.run steps).2.taken = l.taken ++ (l.run steps).1.flatMap Reply.drained := by
  induction steps generalizing l with
  | nil => simp [run]
  | cons s rest ih =>
      simp only [run,List.flatMap_cons]
      rw [ih (step_sound sound s),step_taken sound,List.append_assoc]

theorem step_writes (l : Ledger) (s : Step) :
    (l.step s).2.writes = l.writes ++ (written? (s,(l.step s).1)).toList := by
  cases s with
  | call call =>
      change (l.write call).2.writes = l.writes ++ (written? (.call call,.outcome (l.write call).1)).toList
      rcases write_cases l call with ⟨refusal,refused⟩ | ⟨_,_,_,accepted⟩
      · rw [refused]; simp [written?]
      · rw [accepted]; rfl
  | drain => simp [step,drain,written?]

theorem run_writes (l : Ledger) (steps : List Step) :
    (l.run steps).2.writes = l.writes ++ (steps.zip (l.run steps).1).filterMap written? := by
  induction steps generalizing l with
  | nil => simp [run]
  | cons s rest ih =>
      simp only [run,List.zip_cons_cons]
      rw [ih,step_writes]
      cases put : written? (s,(l.step s).1) <;> simp [put]

end Ledger

namespace Registry

def quiet (r : Registry) : Registry := r.drain.2

variable {r s : Registry}

-- No call looks at what waits, and what it adds there is the same either way.
theorem apply_drained (r : Registry) (call : Call) :
    (r.quiet.apply call).1 = (r.apply call).1 ∧ (r.quiet.apply call).2.quiet = (r.apply call).2.quiet := by
  rw [apply_of_commit,apply_of_commit,commit_exact r.quiet,commit_exact r]
  by_cases stranger : call.caller ≠ r.owner
  · rw [if_pos stranger,if_pos (show call.caller ≠ r.quiet.owner from stranger)]
    exact ⟨rfl,rfl⟩
  · rw [if_neg stranger,if_neg (show ¬ call.caller ≠ r.quiet.owner from stranger)]
    by_cases missing : call.mode = .update ∧ r.holds call.id = false
    · rw [if_pos missing,if_pos (show call.mode = .update ∧ r.quiet.holds call.id = false from missing)]
      exact ⟨rfl,rfl⟩
    · rw [if_neg missing,if_neg (show ¬ (call.mode = .update ∧ r.quiet.holds call.id = false) from missing)]
      have staged : r.quiet.log.stage (call.entry (r.quiet.kindOf call.id)) =
        r.log.stage (call.entry (r.kindOf call.id)) := rfl
      rw [staged]
      cases r.log.stage (call.entry (r.kindOf call.id)) with
      | error refusal => exact ⟨rfl,rfl⟩
      | ok event => exact ⟨rfl,rfl⟩

theorem apply_quiet (same : r.quiet = s.quiet) (call : Call) :
    (r.apply call).1 = (s.apply call).1 ∧ (r.apply call).2.quiet = (s.apply call).2.quiet := by
  obtain ⟨answerLeft,nextLeft⟩ := r.apply_drained call
  obtain ⟨answerRight,nextRight⟩ := s.apply_drained call
  rw [← answerLeft,← nextLeft,← answerRight,← nextRight,same]
  exact ⟨rfl,rfl⟩

theorem run_calls (same : r.quiet = s.quiet) (steps : List Step) :
    (r.run steps).1.filterMap Reply.outcome? = (s.run ((calls steps).map .call)).1.filterMap Reply.outcome? ∧
      (r.run steps).2.quiet = (s.run ((calls steps).map .call)).2.quiet := by
  induction steps generalizing r s with
  | nil => exact ⟨rfl,same⟩
  | cons step rest ih =>
      cases step with
      | drain => exact ih (r := r.drain.2) same
      | call call =>
          obtain ⟨answers,next⟩ := apply_quiet same call
          obtain ⟨later,last⟩ := ih next
          refine ⟨?_,last⟩
          change (r.apply call).1 :: _ = (s.apply call).1 :: _
          rw [answers]
          exact congrArg _ later

end Registry

-- When and how often the list is drained is seen by nothing else.
theorem notifications_told_once (c : Config) (steps : List Step) :
    let replies := ((Registry.deploy c).run steps).1
    let r := ((Registry.deploy c).run steps).2
    let writes : History := ((Registry.deploy c).transcript steps).filterMap written?
    writes.length = r.eventCount ∧
    r.log.events.map (fun e => (e.id,e.entry)) =
      (writes.zipIdx.map fun (w,position) => (Log.idAt position,History.entry (writes.take position) w)) ∧
    replies.flatMap Reply.drained ++ r.pending =
      ((writes.zip r.log.events).flatMap fun (w,e) => [.arrivalRecorded w,.eventRecorded e.receipt]) ∧
    ∀ other : List Step, calls other = calls steps →
      let s := ((Registry.deploy c).run other).2
      ((Registry.deploy c).run other).1.filterMap Reply.outcome? = replies.filterMap Reply.outcome? ∧
        s.records = r.records ∧ s.log = r.log ∧ s.ships = r.ships ∧ s.ports = r.ports := by
  intro replies r writes
  have sound := Ledger.opened_sound c
  have ran : (Registry.deploy c).run steps =
      (((Ledger.opened c).run steps).1,((Ledger.opened c).run steps).2.registry) :=
    Ledger.run_registry sound steps
  have known : ((Ledger.opened c).run steps).2.writes = writes := by
    rw [Ledger.run_writes]
    simp only [writes,Registry.transcript,ran]
    rfl
  have events : r.log.events = writes.events := by
    rw [← known]
    simp only [r,ran]
    rfl
  have count : r.eventCount = writes.length := by
    rw [Registry.eventCount,Log.count,events,History.events_length]
  refine ⟨count.symm,?_,?_,?_⟩
  · rw [events]
    exact writes.events_faces
  · have told := Ledger.run_taken sound steps
    have whole := ((Ledger.opened c).run steps).2.taken_pending
    rw [told,known] at whole
    rw [events]
    simp only [replies,r,ran]
    exact whole
  · intro other same s
    obtain ⟨answers,rest⟩ := Registry.run_calls (r := .deploy c) (s := .deploy c) rfl steps
    obtain ⟨answers',rest'⟩ := Registry.run_calls (r := .deploy c) (s := .deploy c) rfl other
    rw [same] at answers' rest'
    refine ⟨answers'.trans answers.symm,?_⟩
    have quiet : s.quiet = r.quiet := rest'.trans rest.symm
    simp only [Registry.quiet,Registry.drain,Registry.mk.injEq] at quiet
    exact ⟨quiet.2.1,quiet.2.2.1,quiet.2.2.2.1,quiet.2.2.2.2.1⟩

theorem notifications_told_once_overwritten :
    let landed : Details := ⟨"ESC001","Casablanca","CASA","Atlas","waiting"⟩
    let moved : Details := ⟨"ESC002","Tanger","TNG","Atlas","berthed"⟩
    let first : Step := .call ⟨"harbour",.record,⟨7⟩,landed,10⟩
    let stranger : Step := .call ⟨"quay",.update,⟨7⟩,landed,15⟩
    let second : Step := .call ⟨"harbour",.update,⟨7⟩,moved,20⟩
    let steps := [first,stranger,second,.drain]
    let other := [.drain,first,.drain,stranger,.drain,.drain,second]
    let start := Registry.deploy ⟨"harbour",2,10⟩
    calls other = calls steps ∧
      (start.run steps).1.flatMap Reply.drained =
        [.arrivalRecorded ⟨⟨7⟩,landed,10⟩,.eventRecorded ⟨⟨1⟩,⟨7⟩,"ESC001","CASA",.created⟩,
          .arrivalRecorded ⟨⟨7⟩,moved,20⟩,.eventRecorded ⟨⟨2⟩,⟨7⟩,"ESC002","TNG",.updated⟩] ∧
      (start.run other).1.filterMap Reply.outcome? = (start.run steps).1.filterMap Reply.outcome? ∧
      (start.run other).2.records = (start.run steps).2.records ∧
      (start.run other).2.log = (start.run steps).2.log ∧
      (start.run other).2.ships = (start.run steps).2.ships ∧
      (start.run other).2.ports = (start.run steps).2.ports := by
  intro landed moved first stranger second steps other start
  have same : calls other = calls steps := rfl
  exact ⟨same,rfl,(notifications_told_once _ steps).2.2.2 other same⟩

end Harbour
