import Harbour.Proofs.Codecs
import Harbour.Report

namespace Harbour

open Document

theorem VoyageId.codec_keeps (id : VoyageId) : codec.Keeps id := Codec.keeps_map (Codec.keeps_count id.value) rfl

theorem EventId.codec_keeps (id : EventId) : codec.Keeps id := Codec.keeps_map (Codec.keeps_count id.value) rfl

theorem Kind.codec_keeps (kind : Kind) : codec.Keeps kind := by
  cases kind with
  | created => exact Codec.keeps_bare rfl rfl rfl
  | updated => exact Codec.keeps_bare rfl rfl rfl

theorem Record.codec_keeps (w : Record) : codec.Keeps w := by
  refine Codec.keeps_map (Fields.keeps_record ?_) rfl
  simp [Fields.Keeps,Fields.names,Absence.required,VoyageId.codec_keeps,Codec.keeps_text,Codec.keeps_time]

theorem Receipt.codec_keeps (r : Receipt) : codec.Keeps r := by
  refine Codec.keeps_map (Fields.keeps_record ?_) rfl
  simp [Fields.Keeps,Fields.names,Absence.required,EventId.codec_keeps,VoyageId.codec_keeps,Codec.keeps_text,
    Kind.codec_keeps]

namespace Notification

theorem recordCodec_keeps (w : Record) : recordCodec.Keeps w := by
  refine Codec.keeps_map (Fields.keeps_record ?_) rfl
  simp [Fields.Keeps,Fields.names,Absence.required,Record.codec_keeps]

theorem codec_keeps (n : Notification) : codec.Keeps n := by
  cases n with
  | arrivalRecorded w => exact Codec.keeps_carrying rfl rfl (recordCodec_keeps w)
  | eventRecorded r => exact Codec.keeps_carrying rfl rfl r.codec_keeps

end Notification

theorem exports_import_back (notifications : List Notification) :
    Replay.imported (Replay.exported notifications) = .ok notifications :=
  Codec.decode_encodePretty (Codec.keeps_list fun n _ => n.codec_keeps)

theorem Snapshot.codec_keeps (s : Snapshot) : codec.Keeps s := by
  refine Codec.keeps_map (Fields.keeps_record ?_) rfl
  simp [Fields.Keeps,Fields.names,Absence.required,Codec.keeps_count,Codec.keeps_text]

-- A rebuilding that failed left no snapshot, and its absence is written down.
theorem Replay.Validation.codec_keeps (v : Validation) : codec.Keeps v := by
  refine Codec.keeps_map (Fields.keeps_record ?_) rfl
  have replayed : Snapshot.codec.nullable.Keeps v.replayed := by
    cases v.replayed with
    | none => exact Codec.keeps_null _
    | some s => exact Codec.keeps_nullable s.codec_keeps nofun
  simp [Fields.Keeps,Fields.names,Absence.required,Absence.nullable,Codec.keeps_flag,v.expected.codec_keeps,replayed]

theorem Metrics.codec_keeps (m : Metrics) : codec.Keeps m := by
  refine Codec.keeps_map (Fields.keeps_record ?_) rfl
  simp [Fields.Keeps,Fields.names,Absence.required,Codec.keeps_count]

theorem Scenario.Result.codec_keeps (r : Result) : codec.Keeps r := by
  refine Codec.keeps_map (Fields.keeps_record ?_) rfl
  simp [Fields.Keeps,Fields.names,Absence.required,Codec.keeps_text,Codec.keeps_count,Codec.keeps_flag]

theorem Report.codec_keeps (r : Report) : codec.Keeps r := by
  refine Codec.keeps_map (Fields.keeps_record ?_) rfl
  have scenarios : (Codec.list Scenario.Result.codec).Keeps r.scenarios :=
    Codec.keeps_list fun scenario _ => scenario.codec_keeps
  simp [Fields.Keeps,Fields.names,Absence.required,Codec.keeps_text,Codec.keeps_count,scenarios,
    r.metrics.codec_keeps,r.snapshot.codec_keeps,r.replay.codec_keeps]

theorem report_reads_back (r : Report) : Report.codec.decode r.text = .ok r ∧
    (Report.codec.decode r.text).map Report.passed = .ok r.passed := by
  have back : Report.codec.decode r.text = .ok r := Codec.decode_encodePretty r.codec_keeps
  exact ⟨back,congrArg (Except.map Report.passed) back⟩

end Harbour
