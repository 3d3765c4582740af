import Harbour.Proofs.Deduplication
import Harbour.Proofs.Payloads
import Harbour.Proofs.Records

namespace Harbour

open Document

namespace Notice

def mandatory : List String :=
  ["messageId","voyageNoticeId","callReference","portName","portCode","vesselName","status"]

-- What a member may hold while its object stands for this notice: the notice's own
-- value under the name of a field, and anything under another name.
inductive Carries (n : Notice) : String → List Char → Prop where
  | messageId {s : String} (spelled : n.messageId.Spelled s) (literal : Quoted.Literal s body) :
      Carries n "messageId" ('"' :: body)
  | id : Carries n "voyageNoticeId" (Nat.toDigits 10 n.id.value.toNat)
  | detail {name s : String} (listed : (name,s) ∈ required n.details) (literal : Quoted.Literal s body) :
      Carries n name ('"' :: body)
  | arrival {t : Calendar.Instant} (known : n.arrivalTime = some t) (literal : Quoted.Literal t.text body) :
      Carries n "arrivalTime" ('"' :: body)
  | unarrived (unknown : n.arrivalTime = none) : Carries n "arrivalTime" nullText
  | other {name : String} (apart : name ∉ mandatory ++ ["arrivalTime"]) (formed : Formed text) : Carries n name text

def Encodes (n : Notice) (payload : String) : Prop :=
  ∃ texts, Object texts payload ∧ (∀ t ∈ texts, n.Carries t.1 t.2) ∧
    (∀ name ∈ mandatory, (texts.map Prod.fst).count name = 1) ∧
    ((texts.map Prod.fst).count "arrivalTime" = 1 ∨
      (texts.map Prod.fst).count "arrivalTime" = 0 ∧ n.arrivalTime = none)

variable {n : Notice} {payload : String}

theorem decode_encodes (plain : n.Plain) (encodes : n.Encodes payload) : codec.decode payload = .ok n := by
  obtain ⟨texts,object,carries,once,arrival⟩ := encodes
  refine Codec.decode_map (a := (n.messageId,n.id,n.details.callReference,n.details.portName,n.details.portCode,
    n.details.vesselName,n.details.status,n.arrivalTime,())) (Fields.decode_object object (by decide) ?_ ?_)
  · intro name text present
    cases carries _ present with
    | messageId spelled literal =>
        exact ⟨_,Value.spells_string literal,Fields.fits_own (Codec.spelled_read (MessageId.parse_spelled spelled))⟩
    | id =>
        refine ⟨.ofNat n.id.value.toNat,Numeral.ofNat_spells _,?_⟩
        repeat refine Fields.fits_later (by decide) ?_
        exact Fields.fits_own (VoyageId.codec_keeps n.id).back
    | detail listed literal =>
        refine ⟨_,Value.spells_string literal,?_⟩
        simp only [required,List.mem_cons,List.not_mem_nil,or_false,Prod.mk.injEq] at listed
        rcases listed with ⟨rfl,rfl⟩ | ⟨rfl,rfl⟩ | ⟨rfl,rfl⟩ | ⟨rfl,rfl⟩ | ⟨rfl,rfl⟩
        all_goals
          repeat refine Fields.fits_later (by decide) ?_
          exact Fields.fits_own rfl
    | arrival known literal =>
        refine ⟨_,Value.spells_string literal,?_⟩
        repeat refine Fields.fits_later (by decide) ?_
        rw [known]
        exact Fields.fits_own (Codec.keeps_nullable (Calendar.Instant.codec_keeps _ (plain _ known)) nofun).back
    | unarrived unknown =>
        refine ⟨.null,rfl,?_⟩
        repeat refine Fields.fits_later (by decide) ?_
        rw [unknown]
        exact Fields.fits_own rfl
    | other apart formed =>
        obtain ⟨v,intact,spelled⟩ := formed.value
        exact ⟨v,spelled,Fields.fits_other _ _ apart intact⟩
  · have named : ∀ {name}, name ∈ mandatory → ∀ {absent : Prop}, (texts.map Prod.fst).count name = 1 ∨ absent :=
      fun listed => .inl (once _ listed)
    refine ⟨named (by decide),named (by decide),named (by decide),named (by decide),named (by decide),
      named (by decide),named (by decide),?_,trivial⟩
    exact arrival.imp_right fun absent => ⟨absent.1,by rw [absent.2]; rfl⟩

theorem parse_encodes (plain : n.Plain) (encodes : n.Encodes payload) : parse payload = .ok n := by
  rw [parse,decode_encodes plain encodes]
  rfl

end Notice

namespace Intake
variable {start : Intake} {width : Nat} {before after : List (Step × Reply)} {one : Step × Reply}

theorem run_holds (built : Built start width) (steps : List Step) (split : (start.run steps).1 = before ++ one :: after)
    (taken : recorded? one = some m) (few : (recordings after).length < width) :
    (start.run steps).2.window.contains m := by
  have held := run_deduplicates (built_deduplicates built) steps
  rw [List.nil_append,split,recordings_at taken] at held
  exact (Window.contains_exact held.window m).mpr (Window.mem_rtake few)

end Intake

theorem relaid_notice_delivers (n : Notice) (payload : String) (plain : n.Plain) (encodes : n.Encodes payload) :
    Notice.parse payload = .ok n ∧
      (∀ (intake : Intake) (time : Int64), intake.deliverText payload time = intake.deliver n time) ∧
      ∀ (start : Intake) (width : Nat), Intake.Built start width →
        ∀ steps before one after, (start.run steps).1 = before ++ one :: after →
          Intake.recorded? one = some n.messageId → (Intake.recordings after).length < width →
          let now := (start.run steps).2
          ∀ time, now.deliverText payload time = (.ok .duplicate,{ now with duplicates := now.duplicates + 1 }) := by
  have parsed := Notice.parse_encodes plain encodes
  refine ⟨parsed,Intake.deliverText_parsed parsed,?_⟩
  intro start width built steps before one after split taken few now time
  rw [Intake.deliverText_parsed parsed]
  exact if_pos (Intake.run_holds built steps split taken few)

-- A member that is not asked for stands in front and holds half a pair. The others
-- are out of their order, and the identifier is in braces and in capitals.
theorem relaid_notice_delivers_braced :
    let n := Notice.fresh ⟨BitVec.ofNat 128 0x0190b6d27c3e7a108000000000000001⟩ ⟨7⟩
      ⟨"ESC001","Casablanca","CASA","Atlas","waiting"⟩
    let payload := "\x7b\"extra\":[\x7b\"\":\"\\uD800\"\x7d]," ++ "\"arrivalTime\":null," ++ "\"status\":\"waiting\"," ++
      "\"vesselName\":\"Atlas\"," ++ "\"portCode\":\"CASA\"," ++ "\"portName\":\"Casablanca\"," ++
      "\"callReference\":\"ESC001\"," ++ "\"voyageNoticeId\":7," ++
      "\"messageId\":\"\x7b0190B6D2-7C3E-7A10-8000-000000000001\x7d\"\x7d"
    let start := Intake.new (.new "harbour") "harbour" 1
    let now := (start.run [.deliver n 10]).2
    n.Plain ∧ n.Encodes payload ∧ Notice.parse payload = .ok n ∧
      now.deliverText payload 20 = (.ok .duplicate,{ now with duplicates := now.duplicates + 1 }) := by
  intro n payload start now
  have plain : n.Plain := nofun
  have tight : ∀ name text, Paired name text ('"' :: (name ++ ':' :: text)) :=
    fun name text => ⟨[],[],[],[],nofun,nofun,nofun,nofun,by simp⟩
  have bare : ∀ text, Padded text text := fun text => ⟨[],[],nofun,nofun,by simp⟩
  have literal := Quoted.literal_ordinary
  have extra : Formed "[\x7b\"\":\"\\uD800\"\x7d]".toList := by
    have half : Quoted.Hex 0xD800 "D800".toList := ⟨by decide,by decide⟩
    exact .list (.last (.object (.last .close (.text (.code half .close)) (tight _ _))) (bare _))
  have message : n.messageId.Spelled "\x7b0190B6D2-7C3E-7A10-8000-000000000001\x7d" := by
    unfold MessageId.Spelled
    decide
  let quoted := fun s : String => '"' :: (s.toList ++ ['"'])
  have encodes : n.Encodes payload := by
    refine ⟨[("extra","[\x7b\"\":\"\\uD800\"\x7d]".toList),("arrivalTime",nullText),("status",quoted "waiting"),
      ("vesselName",quoted "Atlas"),("portCode",quoted "CASA"),("portName",quoted "Casablanca"),
      ("callReference",quoted "ESC001"),("voyageNoticeId",Nat.toDigits 10 7),
      ("messageId",quoted "\x7b0190B6D2-7C3E-7A10-8000-000000000001\x7d")],?_,?_,by decide,.inl (by decide)⟩
    · have laid := Laid.last (literal "messageId" rfl)
        (tight _ (quoted "\x7b0190B6D2-7C3E-7A10-8000-000000000001\x7d"))
      have laid := laid.more (literal "voyageNoticeId" rfl) (tight _ (Nat.toDigits 10 7))
      have laid := laid.more (literal "callReference" rfl) (tight _ (quoted "ESC001"))
      have laid := laid.more (literal "portName" rfl) (tight _ (quoted "Casablanca"))
      have laid := laid.more (literal "portCode" rfl) (tight _ (quoted "CASA"))
      have laid := laid.more (literal "vesselName" rfl) (tight _ (quoted "Atlas"))
      have laid := laid.more (literal "status" rfl) (tight _ (quoted "waiting"))
      have laid := laid.more (literal "arrivalTime" rfl) (tight _ nullText)
      have laid := laid.more (literal "extra" rfl) (tight _ "[\x7b\"\":\"\\uD800\"\x7d]".toList)
      refine ⟨[],_,[],nofun,nofun,laid,?_⟩
      simp only [payload,String.toList_append,List.append_assoc]
      simp only [quoted,String.reduceToList,nullText,List.nil_append,List.cons_append,List.append_nil]
      rfl
    · simp only [List.forall_mem_cons]
      exact ⟨.other (by decide) extra,.unarrived rfl,.detail (by decide) (literal "waiting" rfl),
        .detail (by decide) (literal "Atlas" rfl),.detail (by decide) (literal "CASA" rfl),
        .detail (by decide) (literal "Casablanca" rfl),.detail (by decide) (literal "ESC001" rfl),
        .id,.messageId message (literal _ rfl),List.forall_mem_nil _⟩
  have taken := @Intake.deliver_taken start n 10 ⟨1⟩ _ (by simp [start,Intake.new,Window.empty,Window.contains])
    (by decide) rfl
  have recorded : (start.run [.deliver n 10]).1 = [(.deliver n 10,.delivery (.ok (.recorded ⟨1⟩)))] := by
    simp only [Intake.run,Intake.step,taken]
  have delivered := relaid_notice_delivers n payload plain encodes
  have again := delivered.2.2 start 1 (.new _ _ _) [.deliver n 10] [] _ [] recorded rfl (by decide) 20
  exact ⟨plain,encodes,delivered.1,again⟩

end Harbour
