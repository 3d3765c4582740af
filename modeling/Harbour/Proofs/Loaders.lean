import Harbour.Proofs.Records
import Harbour.Proofs.Settings

namespace Harbour.Config

open Document

-- A document that is an object with the owner and those of the two numbers that
-- are present, and with nothing else. They stand in any order.
def Documents (owner : String) (events window : Option UInt64) (payload : String) : Prop :=
  ∃ quoted texts, Quoted.Literal owner quoted ∧ Object texts payload ∧
    texts.Perm (("owner",'"' :: quoted) ::
      (events.toList.map (fun n => ("max_events",Nat.toDigits 10 n.toNat)) ++
        window.toList.map (fun n => ("dedup_window",Nat.toDigits 10 n.toNat))))

variable {owner : String} {events window : Option UInt64} {payload : String} {lookup : String → Option String}

theorem count_fits (n : UInt64) :
    ∃ v : Value, v.Spells (Nat.toDigits 10 n.toNat) ∧ Codec.count.read v = .ok n :=
  ⟨.ofNat n.toNat,Numeral.ofNat_spells n.toNat,(Codec.keeps_count n).back⟩

theorem decode_documents (documents : Documents owner events window payload) :
    codec.decode payload = .ok (ofSettings owner events window) := by
  obtain ⟨quoted,texts,literal,object,perm⟩ := documents
  refine Codec.decode_map (a := (owner,events.getD Log.unlimited,window.getD defaultWindow,()))
    (Fields.decode_object object (by decide) ?_ ?_)
  · intro name text present
    rcases List.mem_cons.mp (perm.mem_iff.mp present) with named | number
    · cases named
      exact ⟨_,Value.spells_string literal,Fields.fits_own rfl⟩
    · rcases List.mem_append.mp number with limit | width
      · obtain ⟨n,set,same⟩ := List.mem_map.mp limit
        cases same
        obtain ⟨v,spelled,read⟩ := count_fits n
        rw [Option.mem_toList.mp set]
        exact ⟨v,spelled,Fields.fits_later (by decide) (Fields.fits_own read)⟩
      · obtain ⟨n,set,same⟩ := List.mem_map.mp width
        cases same
        obtain ⟨v,spelled,read⟩ := count_fits n
        rw [Option.mem_toList.mp set]
        exact ⟨v,spelled,Fields.fits_later (by decide) (Fields.fits_later (by decide) (Fields.fits_own read))⟩
  · have keys := perm.map Prod.fst
    simp only [Fields.Covered,keys.count_eq]
    cases events <;> cases window <;> simp [Absence.required,Absence.defaulted]

theorem codec_keeps (c : Config) : codec.Keeps c := by
  refine Codec.keeps_map (Fields.keeps_record ?_) rfl
  simp [Fields.Keeps,Fields.names,Absence.required,Absence.defaulted,Codec.keeps_text,Codec.keeps_count]

theorem parse_decoded {c : Config} (decoded : codec.decode payload = .ok c) :
    parse payload = c.validate.map fun _ => c := by
  rw [← checked_exact,parse,decoded]
  rfl

theorem loaders_agree :
    (∀ owner events window payload lookup, Documents owner events window payload →
      lookup ownerKey = some owner → Sets lookup maxEventsKey events → Sets lookup dedupWindowKey window →
      let c := ofSettings owner events window
      parse payload = ofLookup lookup ∧
      (c.validate = .ok () ∧ parse payload = .ok c ∨ ∃ key value,
        c.validate = .error (.invalid key value) ∧ parse payload = .error (.invalid key value))) ∧
    ∀ c : Config, c.validate = .ok () → parse (codec.encode c) = .ok c ∧ parse (codec.encodePretty c) = .ok c := by
  constructor
  · intro owner events window payload lookup documents named limit width c
    have parsed := parse_decoded (decode_documents documents)
    refine ⟨parsed.trans (ofLookup_sets named limit width).symm,?_⟩
    rw [parsed]
    have judged := judged_validate c
    cases verdict : c.validate with
    | ok => exact .inl ⟨rfl,rfl⟩
    | error fault =>
        rw [verdict] at judged
        cases judged <;> exact .inr ⟨_,_,rfl,rfl⟩
  · intro c valid
    have compact := parse_decoded (Codec.decode_encode c.codec_keeps)
    have pretty := parse_decoded (Codec.decode_encodePretty c.codec_keeps)
    rw [valid] at compact pretty
    exact ⟨compact,pretty⟩

theorem loaders_agree_padded :
    let payload := "\x7b\t\"dedup_window\":1000001 ,\"owner\" : \"Sa\\u00EFd\"\x7d\n"
    let lookup := fun key => if key = ownerKey then some "Saïd" else
      if key = dedupWindowKey then some "\u3000001000001 " else none
    Documents "Saïd" none (some 1000001) payload ∧ lookup ownerKey = some "Saïd" ∧
      Sets lookup maxEventsKey none ∧ Sets lookup dedupWindowKey (some 1000001) ∧
      parse payload = .error (.invalid "dedup_window" "1000001") ∧
      ofLookup lookup = .error (.invalid "dedup_window" "1000001") := by
  intro payload lookup
  have window : Quoted.Literal "dedup_window" ("dedup_window".toList ++ ['"']) := Quoted.literal_ordinary _ rfl
  have owner : Quoted.Literal "owner" ("owner".toList ++ ['"']) := Quoted.literal_ordinary _ rfl
  have escaped : Quoted.Literal "Saïd" "Sa\\u00EFd\"".toList := by
    refine ⟨[.plain 'S',.plain 'a',.code 0xEF,.plain 'd'],?_,.plain 'S' (.plain 'a' (.code 'ï' (.plain 'd' .nil)))⟩
    have code : Quoted.Hex 0xEF ['0','0','E','F'] := ⟨by decide,by decide⟩
    exact .plain (by decide) (by decide) (by decide) (.plain (by decide) (by decide) (by decide)
      (.code code (.plain (by decide) (by decide) (by decide) .close)))
  have documents : Documents "Saïd" none (some 1000001) payload := by
    refine ⟨_,[("dedup_window","1000001".toList),("owner","\"Sa\\u00EFd\"".toList)],escaped,?_,.swap _ _ _⟩
    refine ⟨[],_,['\n'],by simp [Gaps],by simp [Gaps,isGap],
      .more window ⟨['\t'],[],[],[' '],by simp [Gaps,isGap],by simp [Gaps],by simp [Gaps],by simp [Gaps,isGap],rfl⟩
        (.last owner ⟨[],[' '],[' '],[],by simp [Gaps],by simp [Gaps,isGap],by simp [Gaps,isGap],by simp [Gaps],rfl⟩),?_⟩
    decide
  have counted : Text.Counts 1000001 "\u3000001000001 " := (Text.counts_iff _ _).mpr (by decide)
  have width : Sets lookup dedupWindowKey (some 1000001) := ⟨_,rfl,counted⟩
  have agreed := loaders_agree.1 "Saïd" none (some 1000001) payload lookup documents rfl rfl width
  have refused : ofLookup lookup = .error (.invalid "dedup_window" "1000001") := by decide
  exact ⟨documents,rfl,rfl,width,agreed.1.trans refused,refused⟩

end Harbour.Config
