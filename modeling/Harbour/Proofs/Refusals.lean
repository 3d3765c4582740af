import Harbour.Proofs.Run

namespace Harbour

-- What is done to a registry where it stands, one write after another. A refusal
-- ends it there; nothing that was written by then is undone.
abbrev InPlace := ExceptT Refusal (StateM Registry)

namespace InPlace

def enter (event : Event) (record : Record) : InPlace EventId := do
  modify fun r => { r with log := r.log.commit event }
  modify fun r => { r with ships := r.ships.append record.details.callReference event.id }
  modify fun r => { r with ports := r.ports.append record.details.portCode event.id }
  modify fun r => { r with pending := r.pending ++ [.arrivalRecorded record] }
  modify fun r => { r with pending := r.pending ++ [.eventRecorded event.receipt] }
  modify fun r => { r with records := r.records.put record.id record }
  return event.id

-- The event is ready before the first of the writes, and none of the checks
-- comes after it.
def commit (call : Call) : InPlace EventId := do
  let r ← get
  MonadExcept.ofExcept (r.access.authorize call.caller)
  if call.mode = .update ∧ ¬ r.holds call.id then throw (.notFound call.id)
  let event ← MonadExcept.ofExcept (r.log.stage (call.entry (r.kindOf call.id)))
  enter event call.record

theorem run_bind {σ ε α β : Type} (x : ExceptT ε (StateM σ) α) (f : α → ExceptT ε (StateM σ) β) (s : σ) :
    (x >>= f).run s = match x.run s with
      | (.ok a,next) => (f a).run next
      | (.error why,next) => (.error why,next) := by
  change ExceptT.bindCont f (x.run s).1 (x.run s).2 = _
  cases x.run s with
  | mk answer next => cases answer <;> rfl

theorem run_get {σ ε β : Type} (f : σ → ExceptT ε (StateM σ) β) (s : σ) :
    (get >>= f : ExceptT ε (StateM σ) β).run s = (f s).run s := rfl

theorem run_ofExcept (answer : Except Refusal α) (r : Registry) :
    (MonadExcept.ofExcept answer : InPlace α).run r = (answer,r) := by
  cases answer <;> rfl

theorem enter_exact (r : Registry) (event : Event) (record : Record)
    (ship : event.entry.callReference = record.details.callReference)
    (port : event.entry.portCode = record.details.portCode) :
    (enter event record).run r = (.ok event.id,r.install event record) := by
  have written : (enter event record).run r = (.ok event.id,{
      access := r.access
      records := r.records.put record.id record
      log := r.log.commit event
      ships := r.ships.append record.details.callReference event.id
      ports := r.ports.append record.details.portCode event.id
      pending := (r.pending ++ [.arrivalRecorded record]) ++ [.eventRecorded event.receipt] }) := rfl
  rw [written,List.append_assoc,Registry.install,ship,port]
  rfl

theorem commit_exact (r : Registry) (call : Call) : (commit call).run r = r.apply call := by
  rw [Registry.apply_of_commit,Registry.commit,commit,run_get,run_bind,run_ofExcept]
  cases r.access.authorize call.caller with
  | error refusal => rfl
  | ok =>
      by_cases missing : call.mode = .update ∧ ¬ r.holds call.id
      · simp only [if_pos missing]
        rfl
      · simp only [if_neg missing]
        rw [run_bind,run_ofExcept]
        cases staged : r.log.stage (call.entry (r.kindOf call.id)) with
        | error refusal => rfl
        | ok event =>
            have entered := Log.stage_entry staged
            change (enter event call.record).run r = _
            rw [enter_exact r event call.record (by rw [entered]; rfl) (by rw [entered]; rfl)]
            rfl

end InPlace

inductive Thinned : List (Step × Reply) → List (Step × Reply) → Prop where
  | nil : Thinned [] []
  | keep (move : Step × Reply) : Thinned whole kept → Thinned (move :: whole) (move :: kept)
  | erase (call : Call) (refusal : Refusal) : Thinned whole kept →
      Thinned ((.call call,.outcome (.error refusal)) :: whole) kept

namespace Registry

theorem run_thinned (r : Registry) (steps : List Step) (thinned : Thinned (r.transcript steps) kept) :
    r.run (kept.map Prod.fst) = (kept.map Prod.snd,(r.run steps).2) := by
  induction steps generalizing r kept with
  | nil => cases thinned; rfl
  | cons s rest ih =>
      rw [transcript_cons] at thinned
      generalize replied : (r.step s).1 = reply at thinned
      cases thinned with
      | keep move later =>
          rw [List.map_cons,run_cons,ih _ later,replied]
          rfl
      | erase call refusal later =>
          have refused : (r.apply call).1 = .error refusal := Reply.outcome.inj replied
          have unchanged : (r.step (.call call)).2 = r := apply_refused refused
          rw [unchanged] at later
          rw [run_cons,unchanged]
          exact ih r later

end Registry

-- A commit that is refused has written nothing by then, although it writes in place.
theorem refusals_leave_no_trace (r : Registry) :
    (∀ call, (InPlace.commit call).run r = r.apply call) ∧
    (∀ call refusal next, (InPlace.commit call).run r = (.error refusal,next) → next = r) ∧
    (∀ steps kept, Thinned (r.transcript steps) kept →
      r.run (kept.map Prod.fst) = (kept.map Prod.snd,(r.run steps).2)) := by
  refine ⟨InPlace.commit_exact r,?_,fun steps kept => r.run_thinned steps⟩
  intro call refusal next stopped
  rw [InPlace.commit_exact] at stopped
  have refused : (r.apply call).1 = .error refusal := by rw [stopped]
  have unchanged := Registry.apply_refused refused
  rwa [stopped] at unchanged

theorem refusals_leave_no_trace_thinned :
    let details : Details := ⟨"ESC001","Casablanca","CASA","Atlas","waiting"⟩
    let first : Step := .call ⟨"harbour",.record,⟨7⟩,details,10⟩
    let stranger : Call := ⟨"quay",.record,⟨7⟩,details,15⟩
    let missing : Step := .call ⟨"harbour",.update,⟨8⟩,details,20⟩
    let late : Call := ⟨"harbour",.record,⟨9⟩,details,30⟩
    let r := Registry.deploy ⟨"harbour",1,10⟩
    let steps := [first,.call stranger,missing,.drain,.call late]
    let told := [.arrivalRecorded ⟨⟨7⟩,details,10⟩,.eventRecorded ⟨⟨1⟩,⟨7⟩,"ESC001","CASA",.created⟩]
    let kept := [(first,.outcome (.ok ⟨1⟩)),(missing,.outcome (.error (.notFound ⟨8⟩))),(.drain,.batch told)]
    Thinned (r.transcript steps) kept ∧
      ((InPlace.commit late).run (r.run steps).2).1 = .error (.exhausted 1) ∧
      ((InPlace.commit late).run (r.run steps).2).2 = (r.run steps).2 ∧
      r.run (kept.map Prod.fst) = (kept.map Prod.snd,(r.run steps).2) := by
  intro details first stranger missing late r steps told kept
  have thinned : Thinned (r.transcript steps) kept :=
    .keep _ (.erase stranger _ (.keep _ (.keep _ (.erase late _ .nil))))
  have refused : (InPlace.commit late).run (r.run steps).2 =
      (.error (.exhausted 1),((InPlace.commit late).run (r.run steps).2).2) := rfl
  exact ⟨thinned,rfl,(refusals_leave_no_trace _).2.1 late _ _ refused,
    (refusals_leave_no_trace r).2.2 steps kept thinned⟩

end Harbour
