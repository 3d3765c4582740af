import Harbour.Proofs.Deduplication
import Harbour.Proofs.Effects
import Harbour.Proofs.Ledger
import Harbour.Proofs.Text
import Harbour.Proofs.Usage

namespace Harbour

def Details.FirstBlank (d : Details) (name : String) : Prop :=
  ∃ before text after,
    [("callReference",d.callReference),("portName",d.portName),("portCode",d.portCode),
      ("vesselName",d.vesselName),("status",d.status)] = before ++ (name,text) :: after ∧
    Text.Blank text ∧ ∀ field ∈ before, ¬ Text.Blank field.2

namespace Notice

theorem firstBlank_iff (d : Details) (name : String) :
    d.FirstBlank name ↔ ∃ text, (required d).find? (fun field => Text.allBlank field.2) = some (name,text) := by
  simp only [List.find?_eq_some_iff_append,Bool.not_eq_true',Bool.eq_false_iff,ne_eq,Text.allBlank_exact]
  constructor
  · rintro ⟨before,text,after,split,blank,others⟩
    exact ⟨text,blank,before,after,split,others⟩
  · rintro ⟨text,blank,before,after,split,others⟩
    exact ⟨before,text,after,split,blank,others⟩

theorem validate_error_iff (n : Notice) (fault : NoticeFault) :
    n.validate = .error fault ↔ ∃ name, n.details.FirstBlank name ∧ fault = .blankField name := by
  simp only [firstBlank_iff,validate]
  cases (required n.details).find? fun field => Text.allBlank field.2 with
  | none => simp
  | some field =>
      obtain ⟨first,text⟩ := field
      simp [eq_comm]

theorem validate_ok_iff (n : Notice) : n.validate = .ok () ↔ ∀ name, ¬ n.details.FirstBlank name := by
  simp only [firstBlank_iff,validate]
  cases (required n.details).find? fun field => Text.allBlank field.2 with
  | none => simp
  | some field =>
      obtain ⟨first,text⟩ := field
      simp

end Notice

theorem History.fetch_last (h : History) (w : Record) : fetch (h ++ [w]) w.id = .ok w := by
  rw [fetch,latest_snoc,if_pos rfl]

namespace Ledger

variable {l : Ledger}

theorem commit_own (sound : l.Sound) {call : Call} (owned : call.caller = l.owner) (mode : call.mode = .record) :
    l.registry.commit call =
      if l.limit.toNat ≤ l.writes.length then .error (.exhausted l.limit)
      else .ok (Log.idAt l.writes.length,({ l with writes := l.writes ++ [call.record] } : Ledger).registry) := by
  have written : ¬ (call.mode = .update ∧ call.id ∉ l.writes.ids) := by
    rw [mode]
    exact fun update => Mode.noConfusion update.1
  rw [registry,Registry.commit_after,if_neg (not_not_intro owned),if_neg written]
  simp only [registry,told_drop_snoc _ _ sound.told]

end Ledger

namespace Intake

-- Each row asks that those before it do not apply.
inductive Decided (remembered : List MessageId) (count : Nat) (limit : UInt64) (n : Notice) :
    Except Rejection Outcome → Prop where
  | duplicate (known : n.messageId ∈ remembered) : Decided remembered count limit n (.ok .duplicate)
  | blank (fresh : n.messageId ∉ remembered) (first : n.details.FirstBlank name) :
      Decided remembered count limit n (.error (.notice (.blankField name)))
  | exhausted (fresh : n.messageId ∉ remembered) (filled : ∀ name, ¬ n.details.FirstBlank name)
      (full : count = limit.toNat) : Decided remembered count limit n (.error (.registry (.exhausted limit)))
  | recorded {id : EventId} (fresh : n.messageId ∉ remembered) (filled : ∀ name, ¬ n.details.FirstBlank name)
      (room : count ≠ limit.toNat) (next : id.value.toNat = count + 1) :
      Decided remembered count limit n (.ok (.recorded id))

variable {intake : Intake} {l : Ledger} {width : Nat} {ids : List MessageId}

theorem Decided.unique {count : Nat} {limit : UInt64} {n : Notice} {one two : Except Rejection Outcome}
    (first : Decided ids count limit n one) (second : Decided ids count limit n two) : one = two := by
  cases first with
  | duplicate known =>
      cases second with
      | duplicate => rfl
      | blank fresh => exact absurd known fresh
      | exhausted fresh => exact absurd known fresh
      | recorded fresh => exact absurd known fresh
  | blank fresh first =>
      cases second with
      | duplicate known => exact absurd known fresh
      | blank _ other =>
          obtain ⟨text,found⟩ := (Notice.firstBlank_iff _ _).mp first
          obtain ⟨words,again⟩ := (Notice.firstBlank_iff _ _).mp other
          rw [found] at again
          cases again
          rfl
      | exhausted _ filled => exact absurd first (filled _)
      | recorded _ filled => exact absurd first (filled _)
  | exhausted fresh filled full =>
      cases second with
      | duplicate known => exact absurd known fresh
      | blank _ first => exact absurd first (filled _)
      | exhausted => rfl
      | recorded _ _ room => exact absurd full room
  | @recorded id fresh filled room next =>
      cases second with
      | duplicate known => exact absurd known fresh
      | blank _ first => exact absurd first (filled _)
      | exhausted _ _ full => exact absurd full room
      | @recorded other _ _ _ again =>
          have values : id.value = other.value := UInt64.toNat_inj.mp (next.trans again.symm)
          cases id; cases other; cases values
          rfl

theorem deliver_decided (held : intake.Deduplicates width ids) (sound : l.Sound)
    (same : intake.registry = l.registry) (owned : intake.submitter = l.owner) (n : Notice) (time : Int64) :
    Decided (ids.rtake width) intake.registry.eventCount l.limit n (intake.deliver n time).1 := by
  have count : intake.registry.eventCount = l.writes.length := by
    rw [same]
    exact l.writes.events_length
  have room := sound.room
  by_cases known : n.messageId ∈ ids.rtake width
  · rw [(duplicate_exact held n time).mpr known]
    exact .duplicate known
  · have new : ¬ intake.window.contains n.messageId :=
      fun seen => known ((Window.contains_exact held.window _).mp seen)
    cases valid : n.validate with
    | error fault =>
        obtain ⟨name,first,rfl⟩ := (Notice.validate_error_iff n fault).mp valid
        simp only [deliver,if_neg new,valid,reject]
        exact .blank known first
    | ok =>
        have filled := (Notice.validate_ok_iff n).mp valid
        have written := Ledger.commit_own sound (show (intake.call n time).caller = l.owner from owned) rfl
        rw [← same] at written
        rw [count]
        by_cases full : l.limit.toNat ≤ l.writes.length
        · rw [if_pos full] at written
          simp only [deliver,if_neg new,valid,written,reject]
          exact .exhausted known filled (by omega)
        · rw [if_neg full] at written
          rw [deliver_taken new valid written]
          have limit := l.limit.toNat_lt
          exact .recorded known filled (by omega) (Log.idAt_value (by omega))

theorem recorded_holds (sound : l.Sound) (same : intake.registry = l.registry) (owned : intake.submitter = l.owner)
    {n : Notice} {time : Int64} {id : EventId} (answered : (intake.deliver n time).1 = .ok (.recorded id)) :
    (intake.deliver n time).2.registry.get n.id = .ok ⟨n.id,n.details,time⟩ ∧
      ∃ e, (intake.deliver n time).2.registry.event? id = some e ∧
        (e.entry.kind = .created ↔ intake.registry.holds n.id = false) := by
  rcases intake.deliver_cases n time with ⟨_,dropped⟩ | ⟨_,why,rejected⟩ | ⟨_,_,other,next,written,taken⟩
  · rw [dropped] at answered; cases answered
  · rw [rejected] at answered; cases answered
  · rw [taken] at answered ⊢
    cases answered
    have own := Ledger.commit_own sound (show (intake.call n time).caller = l.owner from owned) rfl
    rw [← same,written] at own
    split at own
    · cases own
    · rename_i room
      cases own
      have limit := l.limit.toNat_lt
      constructor
      · change Registry.get (Registry.after _ _ _ _) n.id = _
        rw [Registry.get_after]
        exact l.writes.fetch_last (intake.call n time).record
      · have logged : (Registry.event? (Ledger.registry { l with writes := l.writes ++ [(intake.call n time).record] })
            (Log.idAt l.writes.length)).map Event.entry = some (l.writes.entry (intake.call n time).record) :=
          Ledger.event_found l.writes _ [] rfl (by omega)
        obtain ⟨e,found,entered⟩ := Option.map_eq_some_iff.mp logged
        refine ⟨e,found,?_⟩
        rw [entered,same,Ledger.registry,Registry.holds_after,decide_eq_false_iff_not]
        change (if n.id ∈ l.writes.ids then Kind.updated else Kind.created) = .created ↔ _
        split <;> simp [*]

theorem refused_full {count : Nat} {limit : UInt64}
    (decided : ∀ n time, Decided ids count limit n (intake.deliver n time).1) {s : Step} {refusal : Refusal}
    (replied : (intake.step s).1 = .delivery (.error (.registry refusal))) : refusal = .exhausted limit := by
  cases delivers : s.delivers with
  | false =>
      obtain ⟨past,rfl⟩ := undelivered delivers
      cases replied
  | true =>
      cases brings : s.brings? with
      | none =>
          obtain ⟨fault,unread⟩ := step_unread intake delivers brings
          rw [unread] at replied
          cases replied
      | some brought =>
          obtain ⟨n,time⟩ := brought
          rw [step_brings intake brings] at replied
          have row := decided n time
          rw [Reply.delivery.inj replied] at row
          cases row
          rfl

theorem run_submitter (intake : Intake) (steps : List Step) :
    (intake.run steps).2.submitter = intake.submitter := by
  induction steps generalizing intake with
  | nil => rfl
  | cons s rest ih => exact (ih (intake.step s).2).trans (intake.step_submitter s)

theorem ofConfig_accepts {c : Config} (valid : c.validate = .ok ()) :
    ofConfig c = .ok (.new (.deploy c) c.owner c.dedupWindow.toNat) := by
  unfold ofConfig Registry.ofConfig Config.checked
  rw [valid]
  rfl

end Intake

-- The intake writes as the owner and may always record, so that nothing but
-- the limit stops a notice that is neither known nor blank.
theorem notice_decided {c : Config} (valid : c.validate = .ok ()) :
    ∃ start, Intake.ofConfig c = .ok start ∧ ∀ (steps : List Intake.Step) (n : Notice) (time : Int64),
      let history := (start.run steps).1
      let now := (start.run steps).2
      let remembered := (Intake.recordings history).rtake c.dedupWindow.toNat
      let next := (now.deliver n time).2
      (∀ answer, (now.deliver n time).1 = answer ↔
        Intake.Decided remembered now.registry.eventCount c.maxEvents n answer) ∧
      (∀ id, (now.deliver n time).1 = .ok (.recorded id) →
        next.registry.get n.id = .ok ⟨n.id,n.details,time⟩ ∧
        ∃ e, next.registry.event? id = some e ∧ (e.entry.kind = .created ↔ now.registry.holds n.id = false)) ∧
      ∀ s refusal, (now.step s).1 = .delivery (.error (.registry refusal)) → refusal = .exhausted c.maxEvents := by
  have accepted := Intake.ofConfig_accepts valid
  refine ⟨_,accepted,?_⟩
  intro steps n time history now remembered next
  have held := Intake.run_deduplicates (Intake.built_deduplicates (.config accepted)) steps
  rw [List.nil_append] at held
  have owned : now.submitter = c.owner := Intake.run_submitter _ steps
  have path : Registry.Reached c now.registry := Intake.run_reached .deploy steps
  obtain ⟨l,sound,owner,limit,same⟩ := Ledger.reached_ledger path
  rw [← owner] at owned
  have decided := Intake.deliver_decided held sound same owned
  rw [limit] at decided
  refine ⟨?_,fun id => Intake.recorded_holds sound same owned,fun s refusal => Intake.refused_full decided⟩
  intro answer
  constructor
  · rintro rfl
    exact decided n time
  · exact (decided n time).unique

theorem notice_decided_overlapping :
    let details : Details := ⟨"ESC001","Casablanca","CASA","Atlas","waiting"⟩
    let silent : Details := ⟨"ESC001","Casablanca"," \u3000","","waiting"⟩
    let c : Config := ⟨"harbour",1,10⟩
    let first : Intake.Step := .deliver (.fresh ⟨1⟩ ⟨7⟩ details) 10
    c.validate = .ok () ∧ ∃ start, Intake.ofConfig c = .ok start ∧
      let now := (start.run [first]).2
      (now.deliver (.fresh ⟨1⟩ ⟨7⟩ silent) 20).1 = .ok .duplicate ∧
      (now.deliver (.fresh ⟨2⟩ ⟨7⟩ silent) 20).1 = .error (.notice (.blankField "portCode")) ∧
      (now.deliver (.fresh ⟨2⟩ ⟨7⟩ details) 20).1 = .error (.registry (.exhausted 1)) := by
  intro details silent c first
  have valid : c.validate = .ok () := by decide
  obtain ⟨start,accepted,law⟩ := notice_decided valid
  have same := (Except.ok.inj ((Intake.ofConfig_accepts valid).symm.trans accepted)).symm
  let one : Intake := { start with
    registry := (start.registry.apply ⟨"harbour",.record,⟨7⟩,details,10⟩).2
    window := start.window.remember ⟨1⟩
    recorded := 1 }
  have recorded : start.deliver (.fresh ⟨1⟩ ⟨7⟩ details) 10 = (.ok (.recorded ⟨1⟩),one) := by
    subst same
    exact Intake.deliver_taken (by simp [Intake.new,Window.empty,Window.contains]) (by decide) rfl
  have ran : start.run [first] = ([(first,.delivery (.ok (.recorded ⟨1⟩)))],one) := by
    simp only [Intake.run,Intake.step,first,recorded]
  have full : one.registry.eventCount = 1 := by subst same; rfl
  have rows := law [first]
  simp only [ran,full] at rows
  have filled : ∀ name, ¬ details.FirstBlank name :=
    (Notice.validate_ok_iff (.fresh ⟨2⟩ ⟨7⟩ details)).mp (by decide)
  have blank : silent.FirstBlank "portCode" := by
    obtain ⟨name,found,named⟩ :=
      (Notice.validate_error_iff (.fresh ⟨2⟩ ⟨7⟩ silent) (.blankField "portCode")).mp (by decide)
    cases named
    exact found
  refine ⟨valid,start,accepted,?_⟩
  rw [ran]
  exact ⟨((rows _ _).1 _).mpr (.duplicate (by decide)),((rows _ _).1 _).mpr (.blank (by decide) blank),
    ((rows _ _).1 _).mpr (.exhausted (by decide) filled rfl)⟩

end Harbour
