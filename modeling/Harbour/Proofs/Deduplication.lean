import Harbour.Proofs.Deliveries
import Harbour.Proofs.Window

namespace Harbour.Intake

def recordings (history : List (Step × Reply)) : List MessageId := history.filterMap recorded?

structure Deduplicates (intake : Intake) (width : Nat) (ids : List MessageId) : Prop where
  window : intake.window.Tracks width ids
  spaced : Window.Spaced width ids

variable {intake start : Intake} {width : Nat} {ids : List MessageId}

theorem built_deduplicates (built : Built intake width) : intake.Deduplicates width [] := by
  refine ⟨?_,Window.spaced_nil width⟩
  rw [built_window built]
  exact Window.empty_tracks width

theorem duplicate_exact (held : intake.Deduplicates width ids) (n : Notice) (time : Int64) :
    (intake.deliver n time).1 = .ok .duplicate ↔ n.messageId ∈ ids.rtake width := by
  rw [← Window.contains_exact held.window]
  rcases intake.deliver_cases n time with ⟨known,dropped⟩ | ⟨new,why,rejected⟩ | ⟨new,_,id,next,_,taken⟩
  · rw [dropped]; exact ⟨fun _ => known,fun _ => rfl⟩
  · rw [rejected]
    constructor
    · intro same; cases same
    · intro known; exact absurd known new
  · rw [taken]
    constructor
    · intro same; cases same
    · intro known; exact absurd known new

theorem step_deduplicates (held : intake.Deduplicates width ids) (s : Step) :
    (intake.step s).2.Deduplicates width (ids ++ (recorded? (s,(intake.step s).1)).toList) := by
  cases brings : s.notice? with
  | none =>
      rw [recorded_unread brings,Option.toList_none,List.append_nil]
      refine ⟨?_,held.spaced⟩
      rw [step_window intake brings]
      exact held.window
  | some n =>
      obtain ⟨time,same⟩ := step_notice intake brings
      rw [same]
      rcases intake.deliver_cases n time with ⟨_,dropped⟩ | ⟨_,why,rejected⟩ | ⟨new,_,id,next,_,taken⟩
      · rw [dropped]
        simp only [recorded?,Option.toList_none,List.append_nil]
        exact ⟨held.window,held.spaced⟩
      · rw [rejected]
        simp only [recorded?,Option.toList_none,List.append_nil]
        exact ⟨held.window,held.spaced⟩
      · have fresh : n.messageId ∉ ids.rtake width :=
          fun present => new ((Window.contains_exact held.window _).mpr present)
        rw [taken]
        simp only [recorded?,brings,Option.map_some,Option.toList_some]
        refine ⟨Window.remember_tracks held.window ?_,Window.spaced_snoc held.spaced fresh⟩
        rw [held.window.recent]
        exact fresh

theorem run_deduplicates (held : intake.Deduplicates width ids) (steps : List Step) :
    (intake.run steps).2.Deduplicates width (ids ++ recordings (intake.run steps).1) := by
  induction steps generalizing intake ids with
  | nil =>
      rw [run,recordings,List.filterMap_nil,List.append_nil]
      exact held
  | cons s rest ih =>
      have last := ih (step_deduplicates held s)
      rw [List.append_assoc] at last
      have counted : recordings (intake.run (s :: rest)).1 =
          (recorded? (s,(intake.step s).1)).toList ++ recordings ((intake.step s).2.run rest).1 := by
        cases put : recorded? (s,(intake.step s).1) <;> simp [recordings,run,put]
      rw [counted]
      exact last

theorem recordings_at {before after : List (Step × Reply)} {one : Step × Reply} (first : recorded? one = some m) :
    recordings (before ++ one :: after) = recordings before ++ m :: recordings after := by
  simp [recordings,List.filterMap_append,first]

theorem recordings_split {before between after : List (Step × Reply)} {one two : Step × Reply}
    (first : recorded? one = some m) (second : recorded? two = some m) :
    recordings (before ++ one :: between ++ two :: after) =
      recordings before ++ m :: recordings between ++ m :: recordings after := by
  rw [recordings_at second,recordings_at first]

-- Neither duplicates nor rejections nor writes past the intake move the window.
theorem deduplication_exact (built : Built start width) (steps : List Step) :
    let history := (start.run steps).1
    let now := (start.run steps).2
    (∀ s n, s.notice? = some n →
      ((now.step s).1 = .delivery (.ok .duplicate) ↔ n.messageId ∈ (recordings history).rtake width)) ∧
    now.window.recent = (recordings history).rtake width ∧
    now.window.recent.Nodup ∧
    (∀ m, m ∈ now.window.seen ↔ m ∈ now.window.recent) ∧
    (∀ m before one between two after, history = before ++ one :: between ++ two :: after →
      recorded? one = some m → recorded? two = some m →
      width ≤ (recordings between).countP (· ≠ m)) := by
  intro history now
  have held := run_deduplicates (built_deduplicates built) steps
  rw [List.nil_append] at held
  refine ⟨?_,held.window.recent,held.window.distinct,held.window.seen,?_⟩
  · intro s n brings
    obtain ⟨time,same⟩ := step_notice now brings
    rw [same,← duplicate_exact held n time]
    exact ⟨fun equal => Reply.delivery.inj equal,fun equal => congrArg Reply.delivery equal⟩
  · intro m before one between two after split first second
    have spaced := held.spaced
    change Window.Spaced width (recordings history) at spaced
    rw [split,recordings_split first second] at spaced
    exact Window.spaced_between spaced

theorem deduplication_exact_evicted :
    let details : Details := ⟨"ESC001","Casablanca","CASA","Atlas","waiting"⟩
    let start := Intake.new (.new "harbour") "harbour" 1
    let now := (start.run [.deliver (.fresh ⟨1⟩ ⟨7⟩ details) 10,.deliver (.fresh ⟨2⟩ ⟨7⟩ details) 20]).2
    Built start 1 ∧
      (now.step (.deliver (.fresh ⟨2⟩ ⟨7⟩ details) 30)).1 = .delivery (.ok .duplicate) ∧
      (now.step (.deliver (.fresh ⟨1⟩ ⟨7⟩ details) 30)).1 ≠ .delivery (.ok .duplicate) := by
  intro details start now
  have built : Built start 1 := .new _ _ _
  have first := @deliver_taken start (.fresh ⟨1⟩ ⟨7⟩ details) 10 ⟨1⟩ _
    (by simp [start,new,Window.empty,Window.contains]) (by decide) rfl
  have second := @deliver_taken (start.deliver (.fresh ⟨1⟩ ⟨7⟩ details) 10).2 (.fresh ⟨2⟩ ⟨7⟩ details) 20 ⟨2⟩ _
    (by rw [first]; simp [start,new,Window.empty,Window.contains,Window.remember,Notice.fresh]) (by decide)
    (by rw [first]; rfl)
  have recorded : recordings (start.run
      [.deliver (.fresh ⟨1⟩ ⟨7⟩ details) 10,.deliver (.fresh ⟨2⟩ ⟨7⟩ details) 20]).1 = [⟨1⟩,⟨2⟩] := by
    simp only [run,step,second]
    rw [first]
    rfl
  have law := (deduplication_exact built
    [.deliver (.fresh ⟨1⟩ ⟨7⟩ details) 10,.deliver (.fresh ⟨2⟩ ⟨7⟩ details) 20]).1
  rw [recorded] at law
  refine ⟨built,(law _ _ rfl).mpr (by decide),fun again => ?_⟩
  exact absurd ((law _ _ rfl).mp again) (by decide)

end Harbour.Intake
