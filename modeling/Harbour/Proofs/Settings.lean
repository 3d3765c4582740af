import Harbour.Config
import Harbour.Proofs.Text

namespace Harbour.Config

def Sets (lookup : String → Option String) (key : String) : Option UInt64 → Prop
  | none => lookup key = none
  | some n => ∃ raw, lookup key = some raw ∧ Text.Counts n raw

def Garbles (lookup : String → Option String) (key raw : String) : Prop :=
  lookup key = some raw ∧ ∀ n, ¬ Text.Counts n raw

-- What is said of a configuration, row by row. The first fault is the answer.
inductive Judged (c : Config) : Except ConfigFault Unit → Prop where
  | blank (silent : Text.Blank c.owner) : Judged c (.error (.invalid "owner" c.owner))
  | roomless (named : ¬ Text.Blank c.owner) (zero : c.maxEvents.toNat = 0) :
      Judged c (.error (.invalid "max_events" "0"))
  | wide (named : ¬ Text.Blank c.owner) (room : c.maxEvents.toNat ≠ 0) (beyond : 1000000 < c.dedupWindow.toNat) :
      Judged c (.error (.invalid "dedup_window" (toString c.dedupWindow.toNat)))
  | sound (named : ¬ Text.Blank c.owner) (room : c.maxEvents.toNat ≠ 0) (within : c.dedupWindow.toNat ≤ 1000000) :
      Judged c (.ok ())

def ofSettings (owner : String) (events window : Option UInt64) : Config :=
  ⟨owner,events.getD 0xffffffffffffffff,window.getD 10000⟩

-- Every variable is read before any value is judged, and each row asks that
-- those before it do not apply.
inductive Loaded (lookup : String → Option String) : Except ConfigFault Config → Prop where
  | ownerless (unset : lookup ownerKey = none) : Loaded lookup (.error (.missing ownerKey))
  | events {owner raw : String} (named : lookup ownerKey = some owner) (garbled : Garbles lookup maxEventsKey raw) :
      Loaded lookup (.error (.invalid maxEventsKey raw))
  | window {owner raw : String} {events : Option UInt64} (named : lookup ownerKey = some owner)
      (limit : Sets lookup maxEventsKey events) (garbled : Garbles lookup dedupWindowKey raw) :
      Loaded lookup (.error (.invalid dedupWindowKey raw))
  | refused {owner : String} {events window : Option UInt64} {fault : ConfigFault}
      (named : lookup ownerKey = some owner) (limit : Sets lookup maxEventsKey events)
      (width : Sets lookup dedupWindowKey window) (judged : Judged (ofSettings owner events window) (.error fault)) :
      Loaded lookup (.error fault)
  | accepted {owner : String} {events window : Option UInt64} (named : lookup ownerKey = some owner)
      (limit : Sets lookup maxEventsKey events) (width : Sets lookup dedupWindowKey window)
      (judged : Judged (ofSettings owner events window) (.ok ())) : Loaded lookup (.ok (ofSettings owner events window))

variable {lookup : String → Option String} {key owner raw : String} {default : UInt64}

theorem judged_validate (c : Config) : Judged c c.validate := by
  have silent := Text.allBlank_exact c.owner
  unfold validate
  split
  · rename_i blank
    exact .blank (silent.mp blank)
  · rename_i named
    rw [silent] at named
    split
    · rename_i zero
      exact .roomless named (congrArg UInt64.toNat zero)
    · rename_i room
      have room : c.maxEvents.toNat ≠ 0 := fun zero => room (UInt64.toNat_inj.mp zero)
      split
      · rename_i beyond
        exact .wide named room (UInt64.lt_iff_toNat_lt.mp beyond)
      · rename_i within
        exact .sound named room (Nat.not_lt.mp fun beyond => within (UInt64.lt_iff_toNat_lt.mpr beyond))

theorem Judged.unique {c : Config} (first : Judged c one) (second : Judged c two) : one = two := by
  cases first with
  | blank silent =>
      cases second with
      | blank => rfl
      | roomless named => exact absurd silent named
      | wide named => exact absurd silent named
      | sound named => exact absurd silent named
  | roomless named zero =>
      cases second with
      | blank silent => exact absurd silent named
      | roomless => rfl
      | wide _ room => exact absurd zero room
      | sound _ room => exact absurd zero room
  | wide named room beyond =>
      cases second with
      | blank silent => exact absurd silent named
      | roomless _ zero => exact absurd zero room
      | wide => rfl
      | sound _ _ within => exact absurd beyond (Nat.not_lt.mpr within)
  | sound named room within =>
      cases second with
      | blank silent => exact absurd silent named
      | roomless _ zero => exact absurd zero room
      | wide _ _ beyond => exact absurd beyond (Nat.not_lt.mpr within)
      | sound => rfl

theorem validate_iff (c : Config) (verdict : Except ConfigFault Unit) : c.validate = verdict ↔ Judged c verdict := by
  constructor
  · rintro rfl
    exact judged_validate c
  · exact (judged_validate c).unique

theorem checked_exact (c : Config) : c.checked = c.validate.map fun _ => c := by
  rw [checked]
  cases c.validate <;> rfl

theorem setting_sets (sets : Sets lookup key value) : setting lookup key default = .ok (value.getD default) := by
  cases value with
  | none =>
      have unset : lookup key = none := sets
      simp only [setting,unset,Option.getD_none]
  | some n =>
      obtain ⟨raw,set,counted⟩ := sets
      simp only [setting,set,(Text.counts_iff n raw).mp counted,Option.getD_some]
      rfl

theorem setting_garbles (garbled : Garbles lookup key raw) :
    setting lookup key default = .error (.invalid key raw) := by
  obtain ⟨set,numberless⟩ := garbled
  simp only [setting,set]
  cases read : Text.readCount (Text.trim raw.toList) with
  | error fault => rfl
  | ok n => exact absurd ((Text.counts_iff n raw).mpr read) (numberless n)

theorem sets_or_garbles (lookup : String → Option String) (key : String) :
    (∃ value, Sets lookup key value) ∨ ∃ raw, Garbles lookup key raw := by
  cases set : lookup key with
  | none => exact .inl ⟨none,set⟩
  | some raw =>
      by_cases number : ∃ n, Text.Counts n raw
      · obtain ⟨n,counted⟩ := number
        exact .inl ⟨some n,raw,set,counted⟩
      · exact .inr ⟨raw,set,fun n counted => number ⟨n,counted⟩⟩

theorem ofLookup_unset (unset : lookup ownerKey = none) : ofLookup lookup = .error (.missing ownerKey) := by
  simp only [ofLookup,unset]
  rfl

theorem ofLookup_named (named : lookup ownerKey = some owner) :
    ofLookup lookup = (do
      let events ← setting lookup maxEventsKey Log.unlimited
      let window ← setting lookup dedupWindowKey defaultWindow
      checked ⟨owner,events,window⟩) := by
  simp only [ofLookup,named]
  rfl

theorem ofLookup_sets (named : lookup ownerKey = some owner) (limit : Sets lookup maxEventsKey events)
    (width : Sets lookup dedupWindowKey window) :
    ofLookup lookup = (ofSettings owner events window).validate.map fun _ => ofSettings owner events window := by
  rw [ofLookup_named named,setting_sets limit,setting_sets width,← checked_exact]
  rfl

theorem loaded_exact (loaded : Loaded lookup answer) : ofLookup lookup = answer := by
  cases loaded with
  | ownerless unset => exact ofLookup_unset unset
  | events named garbled => rw [ofLookup_named named,setting_garbles garbled]; rfl
  | window named limit garbled => rw [ofLookup_named named,setting_sets limit,setting_garbles garbled]; rfl
  | refused named limit width judged => rw [ofLookup_sets named limit width,(validate_iff _ _).mpr judged]; rfl
  | accepted named limit width judged => rw [ofLookup_sets named limit width,(validate_iff _ _).mpr judged]; rfl

theorem ofLookup_loaded (lookup : String → Option String) : Loaded lookup (ofLookup lookup) := by
  cases named : lookup ownerKey with
  | none =>
      rw [ofLookup_unset named]
      exact .ownerless named
  | some owner =>
      rcases sets_or_garbles lookup maxEventsKey with ⟨events,limit⟩ | ⟨raw,garbled⟩
      · rcases sets_or_garbles lookup dedupWindowKey with ⟨window,width⟩ | ⟨raw,garbled⟩
        · have judged := judged_validate (ofSettings owner events window)
          rw [ofLookup_sets named limit width]
          cases verdict : (ofSettings owner events window).validate with
          | error fault => exact .refused named limit width (verdict ▸ judged)
          | ok => exact .accepted named limit width (verdict ▸ judged)
        · rw [loaded_exact (.window named limit garbled)]
          exact .window named limit garbled
      · rw [loaded_exact (.events named garbled)]
        exact .events named garbled

theorem environment_decided (lookup : String → Option String) (answer : Except ConfigFault Config) :
    ofLookup lookup = answer ↔ Loaded lookup answer := by
  constructor
  · rintro rfl
    exact ofLookup_loaded lookup
  · exact loaded_exact

end Harbour.Config
