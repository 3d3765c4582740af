import Harbour.Proofs.Deliveries
import Harbour.Proofs.Refusals

namespace Harbour

-- A delivery carried out where the intake stands. Its registry writes in place
-- too, and what that has written when it refuses stays written.
abbrev Standing := ExceptT Rejection (StateM Intake)

namespace Standing

def within (x : InPlace α) : Standing (Except Refusal α) := fun intake =>
  (.ok (x.run intake.registry).1,{ intake with registry := (x.run intake.registry).2 })

def reject (why : Rejection) : Standing Outcome := do
  modify fun intake => { intake with rejected := intake.rejected + 1 }
  throw why

def deliver (n : Notice) (time : Int64) : Standing Outcome := do
  let intake ← get
  if intake.window.contains n.messageId then
    modify fun intake => { intake with duplicates := intake.duplicates + 1 }
    return .duplicate
  else
    match n.validate with
    | .error fault => reject (.notice fault)
    | .ok () =>
        match ← within (InPlace.commit (intake.call n time)) with
        | .error refusal => reject (.registry refusal)
        | .ok id =>
            modify fun intake => { intake with window := intake.window.remember n.messageId }
            modify fun intake => { intake with recorded := intake.recorded + 1 }
            return .recorded id

def deliverText (payload : String) (time : Int64) : Standing Outcome :=
  match Notice.parse payload with
  | .error fault => reject (.notice fault)
  | .ok n => deliver n time

theorem run_within (x : InPlace α) (intake : Intake) :
    (within x).run intake = (.ok (x.run intake.registry).1,{ intake with registry := (x.run intake.registry).2 }) :=
  rfl

theorem deliver_exact (intake : Intake) (n : Notice) (time : Int64) :
    (deliver n time).run intake = intake.deliver n time := by
  unfold deliver Intake.deliver
  rw [InPlace.run_get]
  by_cases known : intake.window.contains n.messageId
  · rw [if_pos known,if_pos known]
    rfl
  · rw [if_neg known,if_neg known]
    cases n.validate with
    | error fault => rfl
    | ok =>
        change (within _ >>= _).run intake = _
        rw [InPlace.run_bind,run_within,InPlace.commit_exact,Registry.apply_of_commit]
        cases intake.registry.commit (intake.call n time) with
        | error refusal => rfl
        | ok result => rfl

theorem deliverText_exact (intake : Intake) (payload : String) (time : Int64) :
    (deliverText payload time).run intake = intake.deliverText payload time := by
  unfold deliverText Intake.deliverText
  cases Notice.parse payload with
  | error fault => rfl
  | ok n => exact deliver_exact intake n time

end Standing

namespace Intake

namespace Counts

def zero : Counts := ⟨0,0,0⟩

def moved (c : Counts) : Except Rejection Outcome → Counts
  | .ok (.recorded _) => { c with recorded := c.recorded + 1 }
  | .ok .duplicate => { c with duplicates := c.duplicates + 1 }
  | .error _ => { c with rejected := c.rejected + 1 }

def total (c : Counts) : Nat := c.recorded.toNat + c.duplicates.toNat + c.rejected.toNat

theorem after_moved {c : Counts} (room : c.total + 1 < 0x10000000000000000) (answer : Except Rejection Outcome) :
    c.after answer = .ok (c.moved answer) ∧ (c.moved answer).total = c.total + 1 := by
  unfold total at room ⊢
  rcases answer with why | ⟨id⟩ | _
  · obtain ⟨added,more⟩ := Checked.add_one (show c.rejected.toNat + 1 < 0x10000000000000000 by omega)
    simp only [after,moved,added,more,bind,Except.bind]
    exact ⟨rfl,rfl⟩
  · obtain ⟨added,more⟩ := Checked.add_one (show c.recorded.toNat + 1 < 0x10000000000000000 by omega)
    simp only [after,moved,added,more,bind,Except.bind]
    exact ⟨rfl,by omega⟩
  · obtain ⟨added,more⟩ := Checked.add_one (show c.duplicates.toNat + 1 < 0x10000000000000000 by omega)
    simp only [after,moved,added,more,bind,Except.bind]
    exact ⟨rfl,by omega⟩

end Counts

def uncounted (intake : Intake) : Intake := { intake with recorded := 0, duplicates := 0, rejected := 0 }

def effect? (submitter : String) : Step × Reply → Option (Harbour.Step × Harbour.Reply)
  | (.registry s,.registry reply) => some (s,reply)
  | (s,.delivery (.ok (.recorded id))) => s.brings?.map fun (n,time) =>
      (.call ⟨submitter,.record,n.id,n.details,time⟩,.outcome (.ok id))
  | _ => none

def Idle (answer : Except Rejection Outcome) : Prop := ∀ id, answer ≠ .ok (.recorded id)

inductive Pruned : List (Step × Reply) → List (Step × Reply) → Prop where
  | nil : Pruned [] []
  | keep (move : Step × Reply) : Pruned whole kept → Pruned (move :: whole) (move :: kept)
  | erase (s : Step) (idle : Idle answer) : Pruned whole kept → Pruned ((s,.delivery answer) :: whole) kept

variable {intake start : Intake} {s : Step}

theorem delivery_cases (intake : Intake) (delivers : s.delivers = true) :
    (∃ answer, Idle answer ∧ (intake.step s).1 = .delivery answer ∧
      (intake.step s).2.counts = intake.counts.moved answer ∧ (intake.step s).2.uncounted = intake.uncounted) ∨
    (∃ n time id next, s.brings? = some (n,time) ∧
      intake.registry.commit (intake.call n time) = .ok (id,next) ∧
      intake.step s = (.delivery (.ok (.recorded id)),{ intake with
        registry := next
        window := intake.window.remember n.messageId
        recorded := intake.recorded + 1 })) := by
  have rejection : ∀ why, Idle (.error why) := by intro why id same; cases same
  cases brings : s.brings? with
  | none =>
      obtain ⟨fault,unread⟩ := step_unread intake delivers brings
      rw [unread]
      exact .inl ⟨_,rejection _,rfl,rfl,rfl⟩
  | some brought =>
      obtain ⟨n,time⟩ := brought
      rw [step_brings intake brings]
      rcases intake.deliver_cases n time with ⟨_,dropped⟩ | ⟨_,why,rejected⟩ | ⟨_,_,id,next,written,taken⟩
      · rw [dropped]
        refine .inl ⟨_,?_,rfl,rfl,rfl⟩
        intro id same; cases same
      · rw [rejected]
        exact .inl ⟨_,rejection why,rfl,rfl,rfl⟩
      · rw [taken]
        exact .inr ⟨n,time,id,next,rfl,written,rfl⟩

theorem delivery_counts (intake : Intake) (delivers : s.delivers = true) :
    ∃ answer, (intake.step s).1 = .delivery answer ∧ (intake.step s).2.counts = intake.counts.moved answer ∧
      (Idle answer → (intake.step s).2.uncounted = intake.uncounted) := by
  rcases delivery_cases intake delivers with ⟨answer,_,replied,counted,kept⟩ | ⟨n,time,id,next,_,_,taken⟩
  · exact ⟨answer,replied,counted,fun _ => kept⟩
  · rw [taken]
    exact ⟨_,rfl,rfl,fun idle => absurd rfl (idle id)⟩

theorem step_total (intake : Intake) (s : Step)
    (room : intake.counts.total + (if s.delivers then 1 else 0) < 0x10000000000000000) :
    (intake.step s).2.counts.total = intake.counts.total + if s.delivers then 1 else 0 := by
  cases delivers : s.delivers with
  | false =>
      obtain ⟨past,rfl⟩ := undelivered delivers
      rfl
  | true =>
      obtain ⟨answer,_,counted,_⟩ := delivery_counts intake delivers
      rw [delivers] at room
      rw [counted]
      exact (Counts.after_moved room answer).2

theorem run_total (intake : Intake) (steps : List Step)
    (room : intake.counts.total + steps.countP Step.delivers < 0x10000000000000000) :
    (intake.run steps).2.counts.total = intake.counts.total + steps.countP Step.delivers := by
  induction steps generalizing intake with
  | nil => rfl
  | cons s rest ih =>
      rw [List.countP_cons] at room ⊢
      have one := step_total intake s (by omega)
      have later := ih (intake.step s).2 (by omega)
      change ((intake.step s).2.run rest).2.counts.total = _
      omega

theorem built_counts (built : Built start width) : start.counts = .zero := by
  obtain ⟨registry,submitter,rfl⟩ := built_new built
  rfl

theorem run_counted (built : Built start width) {steps : List Step}
    (few : steps.countP Step.delivers < 0x10000000000000000) :
    (start.run steps).2.counts.total = steps.countP Step.delivers := by
  have none : start.counts.total = 0 := congrArg Counts.total (built_counts built)
  have sum := run_total start steps (by omega)
  rwa [none,Nat.zero_add] at sum

theorem run_after (built : Built start width) {steps : List Step}
    (few : steps.countP Step.delivers + 1 < 0x10000000000000000) (answer : Except Rejection Outcome) :
    (start.run steps).2.counts.after answer = .ok ((start.run steps).2.counts.moved answer) := by
  have sum : (start.run steps).2.counts.total = _ := run_counted built (Nat.lt_of_succ_lt few)
  exact (Counts.after_moved (by omega) answer).1

theorem run_checked (built : Built start width) {steps : List Step}
    (few : steps.countP Step.delivers + 1 < 0x10000000000000000) (done : Except Rejection Outcome × Intake) :
    (start.run steps).2.checked done = .ok done := by
  simp only [checked,run_after built few,bind,Except.bind]
  rfl

theorem uncounted_parts {one two : Intake} (same : one.uncounted = two.uncounted) :
    one.registry = two.registry ∧ one.submitter = two.submitter ∧ one.window = two.window := by
  simp only [uncounted,mk.injEq] at same
  exact ⟨same.1,same.2.1,same.2.2.1⟩

theorem deliver_uncounted (intake : Intake) (n : Notice) (time : Int64) :
    (intake.uncounted.deliver n time).1 = (intake.deliver n time).1 ∧
      (intake.uncounted.deliver n time).2.uncounted = (intake.deliver n time).2.uncounted := by
  unfold deliver
  by_cases known : intake.window.contains n.messageId
  · rw [if_pos known,if_pos (show intake.uncounted.window.contains n.messageId from known)]
    exact ⟨rfl,rfl⟩
  · rw [if_neg known,if_neg (show ¬ intake.uncounted.window.contains n.messageId from known)]
    cases n.validate with
    | error fault => exact ⟨rfl,rfl⟩
    | ok =>
        have same : intake.uncounted.registry.commit (intake.uncounted.call n time) =
          intake.registry.commit (intake.call n time) := rfl
        simp only [same]
        cases intake.registry.commit (intake.call n time) with
        | error refusal => exact ⟨rfl,rfl⟩
        | ok result => exact ⟨rfl,rfl⟩

theorem step_uncounted (intake : Intake) (s : Step) :
    (intake.uncounted.step s).1 = (intake.step s).1 ∧
      (intake.uncounted.step s).2.uncounted = (intake.step s).2.uncounted := by
  cases s with
  | registry s => exact ⟨rfl,rfl⟩
  | deliver n time =>
      obtain ⟨answers,next⟩ := deliver_uncounted intake n time
      exact ⟨congrArg Reply.delivery answers,next⟩
  | payload text time =>
      simp only [step,deliverText]
      cases Notice.parse text with
      | error fault => exact ⟨rfl,rfl⟩
      | ok n =>
          obtain ⟨answers,next⟩ := deliver_uncounted intake n time
          exact ⟨congrArg Reply.delivery answers,next⟩

theorem step_alike {one two : Intake} (same : one.uncounted = two.uncounted) (s : Step) :
    (one.step s).1 = (two.step s).1 ∧ (one.step s).2.uncounted = (two.step s).2.uncounted := by
  obtain ⟨answerOne,nextOne⟩ := one.step_uncounted s
  obtain ⟨answerTwo,nextTwo⟩ := two.step_uncounted s
  rw [← answerOne,← nextOne,← answerTwo,← nextTwo,same]
  exact ⟨rfl,rfl⟩

theorem run_pruned {one two : Intake} (same : one.uncounted = two.uncounted) (steps : List Step)
    (pruned : Pruned (one.run steps).1 kept) :
    (two.run (kept.map Prod.fst)).1 = kept ∧
      (two.run (kept.map Prod.fst)).2.uncounted = (one.run steps).2.uncounted := by
  induction steps generalizing one two kept with
  | nil => cases pruned; exact ⟨rfl,same.symm⟩
  | cons s rest ih =>
      change Pruned ((s,(one.step s).1) :: ((one.step s).2.run rest).1) kept at pruned
      obtain ⟨answers,next⟩ := step_alike same s
      generalize replied : (one.step s).1 = reply at pruned
      cases pruned with
      | keep move later =>
          obtain ⟨history,last⟩ := ih next later
          refine ⟨?_,last⟩
          change (s,(two.step s).1) :: ((two.step s).2.run _).1 = _
          rw [history,← answers,replied]
      | erase s idle later =>
          have delivers : s.delivers = true := by
            cases s with
            | deliver n time => rfl
            | payload text time => rfl
            | registry past => cases replied
          obtain ⟨answer,answered,_,kept⟩ := delivery_counts one delivers
          rw [replied] at answered
          cases answered
          exact ih ((kept idle).trans same) later

theorem step_submitter (intake : Intake) (s : Step) : (intake.step s).2.submitter = intake.submitter := by
  cases delivers : s.delivers with
  | false =>
      obtain ⟨past,rfl⟩ := undelivered delivers
      rfl
  | true =>
      rcases delivery_cases intake delivers with ⟨_,_,_,_,kept⟩ | ⟨_,_,_,_,_,_,taken⟩
      · exact (uncounted_parts kept).2.1
      · rw [taken]

theorem step_effect (intake : Intake) (s : Step) (rest : List Harbour.Step) :
    let done := (effect? intake.submitter (s,(intake.step s).1)).toList
    intake.registry.run (done.map Prod.fst ++ rest) =
      (done.map Prod.snd ++ ((intake.step s).2.registry.run rest).1,((intake.step s).2.registry.run rest).2) := by
  intro done
  cases delivers : s.delivers with
  | false =>
      obtain ⟨past,rfl⟩ := undelivered delivers
      rfl
  | true =>
      rcases delivery_cases intake delivers with
        ⟨answer,idle,replied,_,kept⟩ | ⟨n,time,id,next,brings,written,taken⟩
      · have none : effect? intake.submitter (s,.delivery answer) = none := by
          cases answer with
          | error why => cases s <;> rfl
          | ok outcome =>
              cases outcome with
              | recorded id => exact absurd rfl (idle id)
              | duplicate => cases s <;> rfl
        simp only [done,replied,none,(uncounted_parts kept).1]
        rfl
      · have called : effect? intake.submitter (s,.delivery (.ok (.recorded id))) =
            some (.call (intake.call n time),.outcome (.ok id)) := by
          cases s with
          | registry s => cases brings
          | deliver m issued => cases brings; rfl
          | payload text issued => simp only [effect?,brings]; rfl
        simp only [done,taken,called,Option.toList_some,List.map_cons,List.map_nil,List.singleton_append]
        rw [Registry.run_cons,Registry.step,Registry.apply_of_commit,written]

theorem run_effects (intake : Intake) (steps : List Step) :
    intake.registry.run (((intake.run steps).1.filterMap (effect? intake.submitter)).map Prod.fst) =
      (((intake.run steps).1.filterMap (effect? intake.submitter)).map Prod.snd,(intake.run steps).2.registry) := by
  induction steps generalizing intake with
  | nil => rfl
  | cons s rest ih =>
      have later := ih (intake.step s).2
      rw [step_submitter] at later
      have split : (intake.run (s :: rest)).1.filterMap (effect? intake.submitter) =
          (effect? intake.submitter (s,(intake.step s).1)).toList ++
            ((intake.step s).2.run rest).1.filterMap (effect? intake.submitter) := by
        change List.filterMap _ ((s,(intake.step s).1) :: _) = _
        rw [List.filterMap_cons]
        cases effect? intake.submitter (s,(intake.step s).1) <;> rfl
      rw [split,List.map_append,List.map_append,step_effect,later]
      rfl

-- Whatever is delivered, only what is recorded leaves more than a count
-- behind, although a delivery writes in place. As long as a word can count the
-- deliveries, no checked sum halts.
theorem only_recorded_take_effect (built : Built start width) (steps : List Step) :
    let history := (start.run steps).1
    let now := (start.run steps).2
    let done := history.filterMap (effect? start.submitter)
    let delivered := steps.countP Step.delivers
    (∀ n time, (Standing.deliver n time).run now = now.deliver n time) ∧
    (∀ payload time, (Standing.deliverText payload time).run now = now.deliverText payload time) ∧
    (delivered + 1 < 0x10000000000000000 →
      (∀ n time, now.deliverChecked n time = .ok (now.deliver n time)) ∧
      ∀ payload time, now.deliverTextChecked payload time = .ok (now.deliverText payload time)) ∧
    (∀ s, s.delivers = true → ∃ answer, (now.step s).1 = .delivery answer ∧
      (delivered + 1 < 0x10000000000000000 → now.counts.after answer = .ok (now.step s).2.counts) ∧
      (Idle answer → (now.step s).2.registry = now.registry ∧ (now.step s).2.window = now.window)) ∧
    (delivered < 0x10000000000000000 →
      now.recorded.toNat + now.duplicates.toNat + now.rejected.toNat = delivered) ∧
    (∀ kept, Pruned history kept →
      let other := start.run (kept.map Prod.fst)
      other.1 = kept ∧ other.2.registry = now.registry ∧ other.2.window = now.window) ∧
    start.registry.run (done.map Prod.fst) = (done.map Prod.snd,now.registry) := by
  intro history now done delivered
  refine ⟨Standing.deliver_exact now,Standing.deliverText_exact now,?_,?_,run_counted built,?_,run_effects start steps⟩
  · intro few
    exact ⟨fun _ _ => run_checked built few _,fun _ _ => run_checked built few _⟩
  · intro s delivers
    obtain ⟨answer,replied,moved,kept⟩ := delivery_counts now delivers
    refine ⟨answer,replied,?_,?_⟩
    · intro few
      rw [moved,run_after built few]
    · intro idle
      obtain ⟨registry,_,window⟩ := uncounted_parts (kept idle)
      exact ⟨registry,window⟩
  · intro kept pruned
    obtain ⟨same,last⟩ := run_pruned (rfl : start.uncounted = start.uncounted) steps pruned
    obtain ⟨registry,_,window⟩ := uncounted_parts last
    exact ⟨same,registry,window⟩

theorem only_recorded_take_effect_pruned :
    let details : Details := ⟨"ESC001","Casablanca","CASA","Atlas","waiting"⟩
    let blank : Details := ⟨"ESC001","","CASA","Atlas","waiting"⟩
    let told := [.arrivalRecorded ⟨⟨7⟩,details,10⟩,.eventRecorded ⟨⟨1⟩,⟨7⟩,"ESC001","CASA",.created⟩]
    let start := Intake.new (.deploy ⟨"harbour",1,10⟩) "harbour" 1
    let first : Step := .deliver (.fresh ⟨1⟩ ⟨7⟩ details) 10
    let steps := [first,.deliver (.fresh ⟨1⟩ ⟨7⟩ blank) 20,.payload "no notice" 30,.registry .drain,
      .deliver (.fresh ⟨2⟩ ⟨8⟩ details) 40]
    let kept := [(first,.delivery (.ok (.recorded ⟨1⟩))),(.registry .drain,.registry (.batch told))]
    let now := (start.run steps).2
    let other := start.run (kept.map Prod.fst)
    Built start 1 ∧ Pruned (start.run steps).1 kept ∧
      now.recorded.toNat + now.duplicates.toNat + now.rejected.toNat = 4 ∧
      other.1 = kept ∧ other.2.registry = now.registry ∧ other.2.window = now.window := by
  intro details blank told start first steps kept now other
  let one : Intake := { start with
    registry := (start.registry.apply ⟨"harbour",.record,⟨7⟩,details,10⟩).2
    window := start.window.remember ⟨1⟩
    recorded := 1 }
  let three : Intake := { one with registry := one.registry.drain.2, duplicates := 1, rejected := 1 }
  have built : Built start 1 := .new _ _ _
  have recorded : start.deliver (.fresh ⟨1⟩ ⟨7⟩ details) 10 = (.ok (.recorded ⟨1⟩),one) :=
    deliver_taken (by simp [start,new,Window.empty,Window.contains]) (by decide) rfl
  have known : one.window.contains ⟨1⟩ = true := by
    simp [one,start,new,Window.empty,Window.contains,Window.remember]
  have fresh : ¬ three.window.contains ⟨2⟩ = true := by
    simp [three,one,start,new,Window.empty,Window.contains,Window.remember]
  have dropped : one.deliver (.fresh ⟨1⟩ ⟨7⟩ blank) 20 = (.ok .duplicate,{ one with duplicates := 1 }) :=
    if_pos known
  obtain ⟨fault,garbled⟩ : ∃ fault, ({ one with duplicates := 1 } : Intake).deliverText "no notice" 30 =
      (.error (.notice (.malformed fault)),{ one with duplicates := 1, rejected := 1 }) := ⟨_,rfl⟩
  have full : three.registry.commit (three.call (.fresh ⟨2⟩ ⟨8⟩ details) 40) = .error (.exhausted 1) := rfl
  have late : three.deliver (.fresh ⟨2⟩ ⟨8⟩ details) 40 = three.reject (.registry (.exhausted 1)) := by
    have valid : (Notice.fresh ⟨2⟩ ⟨8⟩ details).validate = .ok () := by decide
    simp only [deliver,valid,full]
    exact if_neg fresh
  have pruned : Pruned (start.run steps).1 kept := by
    simp only [steps,first,run,step]
    rw [recorded,dropped,garbled]
    refine .keep _ (.erase _ ?_ (.erase _ ?_ (.keep _ (.erase _ ?_ .nil))))
    · intro id same; cases same
    · intro id same; cases same
    · change Idle (three.deliver (.fresh ⟨2⟩ ⟨8⟩ details) 40).1
      rw [late]
      intro id same; cases same
  obtain ⟨_,_,_,_,counted,erased,_⟩ := only_recorded_take_effect built steps
  obtain ⟨same,registry,window⟩ := erased kept pruned
  exact ⟨built,pruned,counted (by decide),same,registry,window⟩

end Intake

end Harbour
