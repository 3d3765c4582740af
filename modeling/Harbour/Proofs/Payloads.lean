import Harbour.Intake
import Harbour.Proofs.Exchange
import Harbour.Proofs.Identifiers
import Harbour.Proofs.Instant

namespace Harbour

open Document

namespace Notice

def Plain (n : Notice) : Prop := ∀ t, n.arrivalTime = some t → 0 ≤ t.date.year ∧ t.date.year ≤ 9999

def named (n : Notice) : List (String × Value) :=
  [("messageId",.string n.messageId.text),("voyageNoticeId",.ofNat n.id.value.toNat),
    ("callReference",.string n.details.callReference),("portName",.string n.details.portName),
    ("portCode",.string n.details.portCode),("vesselName",.string n.details.vesselName),
    ("status",.string n.details.status)]

theorem codec_keeps (n : Notice) (plain : n.Plain) : codec.Keeps n := by
  refine Codec.keeps_map (Fields.keeps_record ?_) rfl
  have time : if Absence.omitted.hidden n.arrivalTime then Absence.omitted.unnamed = some n.arrivalTime
      else Calendar.Instant.codec.nullable.Keeps n.arrivalTime := by
    cases arrival : n.arrivalTime with
    | none => rfl
    | some t => exact Codec.keeps_nullable (t.codec_keeps (plain t arrival)) nofun
  simp [Fields.Keeps,Fields.names,Absence.required,MessageId.codec_keeps,VoyageId.codec_keeps,Codec.keeps_text,time]

theorem parse_encode (n : Notice) (plain : n.Plain) : parse (codec.encode n) = .ok n := by
  rw [parse,Codec.decode_encode (n.codec_keeps plain)]
  rfl

theorem read_encode (n : Notice) (plain : n.Plain) :
    Document.read (codec.encode n) = (.object (.ofList (n.named ++ match n.arrivalTime with
      | none => []
      | some t => [("arrivalTime",.string t.text)])),true) := by
  have written := read_write compact_blank (n.codec_keeps plain).sound
  refine written.trans (congrArg (fun members => (Value.object (.ofList members),true)) ?_)
  obtain ⟨message,id,details,arrival⟩ := n
  cases arrival with
  | none => rfl
  | some t => rfl

end Notice

theorem Intake.deliverText_parsed (parsed : Notice.parse payload = .ok n) (intake : Intake) (time : Int64) :
    intake.deliverText payload time = intake.deliver n time := by
  simp only [deliverText,parsed]

theorem written_notice_delivers (n : Notice) (plain : n.Plain) :
    Notice.parse (Notice.codec.encode n) = .ok n ∧
      Document.read (Notice.codec.encode n) = (.object (.ofList (n.named ++ match n.arrivalTime with
        | none => []
        | some t => [("arrivalTime",.string t.text)])),true) ∧
      ∀ (intake : Intake) (time : Int64),
        intake.deliverText (Notice.codec.encode n) time = intake.deliver n time :=
  ⟨n.parse_encode plain,n.read_encode plain,Intake.deliverText_parsed (n.parse_encode plain)⟩

def Notice.leap : Notice where
  messageId := ⟨BitVec.ofNat 128 0x0190b6d27c3e7a108000000000000001⟩
  id := ⟨0xffffffffffffffff⟩
  details := ⟨"\"","Port-Saïd","\\","\u0000","\n"⟩
  arrivalTime := some ⟨⟨9999,6,30,by decide,by decide⟩,23,59,60,999999999,by decide,by decide,by decide,by decide⟩

theorem written_notice_delivers_leap : Notice.leap.Plain ∧
    Notice.parse (Notice.codec.encode Notice.leap) = .ok Notice.leap ∧
      Document.read (Notice.codec.encode Notice.leap) = (.object (.ofList (Notice.leap.named ++
        [("arrivalTime",.string "9999-06-30T23:59:60.999999999Z")])),true) ∧
      ∀ (intake : Intake) (time : Int64),
        intake.deliverText (Notice.codec.encode Notice.leap) time = intake.deliver Notice.leap time := by
  have plain : Notice.leap.Plain := by
    intro t arrival
    cases arrival
    decide
  exact ⟨plain,written_notice_delivers Notice.leap plain⟩

end Harbour
