import VectorDbBenchmark.Json
import VectorDbBenchmark.Kit.Bytes
import VectorDbBenchmark.Kit.Fallible
import VectorDbBenchmark.Kit.Text

/-!
# Document ids

`id_to_uuid_hex` and `uuid_hex_to_int` of the OpenSearch engine, which Elasticsearch has too: a
corpus row is the id of its document, written as a UUID, and the ids of a response are read as
rows.  The UUID parser, which reads more forms than the one that is written, is a parameter.
-/

namespace VectorDbBenchmark.OpenSearch

open Kit

/-! ## Simple UUIDs -/

def hexByte (b : UInt8) : Text := [Nat.digitChar (b.toNat / 16), Nat.digitChar (b.toNat % 16)]

/-- `as_simple()`: 32 digits. -/
def simpleText (u : BitVec 128) : Text := (toLe 16 u.toNat).reverse.flatMap hexByte

/-- What the UUID parser does with the form that is written. -/
def ReadsSimple (parseStr : Text → Except String (BitVec 128)) : Prop :=
  ∀ u, parseStr (simpleText u) = .ok u

/-! ## Rows and ids -/

def idToUuidHex (id : Int64) : Text := simpleText (id.toBitVec.signExtend 128)

section Code

-- `Uuid::parse_str`.
variable (parseStr : Text → Except String (BitVec 128))

def uuidHexToInt (hex : Text) : Except String Int64 :=
  match parseStr hex with
  | .error e => .error s!"Invalid UUID hex '{String.ofList hex}': {e}"
  | .ok uuid => .ok (.ofBitVec (uuid.setWidth 64))

/-- The id and the score of a hit. -/
def extractHit (hitId : Json → Option String) (hit : Json) : Except String (Int64 × F64) :=
  match hitId hit with
  | none => .error "Missing _id in hit"
  | some idHex => do
    let score := ((hit.get "_score").bind Json.asF64).getD (.fin 0)
    let id ← uuidHexToInt parseStr idHex.toList
    pure (id, score)

/-- `extract_knn_hits` of an engine that finds the id of a hit like this. -/
def extractHits (hitId : Json → Option String) (respBody : Json) :
    Except String (List (Int64 × F64)) :=
  match ((respBody.get "hits").bind fun h ↦ h.get "hits").bind Json.asArray with
  | none => .error "Missing hits.hits in search response"
  | some hits => hits.mapM (extractHit parseStr hitId)

/-- The id of a hit of OpenSearch: its doc-value, or the one beside it. -/
def hitId (hit : Json) : Option String :=
  ((((hit.get "fields").bind fun f ↦ f.get "_id").bind Json.asArray).bind List.head?).bind
    Json.asStr |>.orElse fun _ ↦ (hit.get "_id").bind Json.asStr

def extractKnnHits : Json → Except String (List (Int64 × F64)) := extractHits parseStr hitId

/-- Elasticsearch reads nothing but the id beside the fields. -/
def elasticsearchHitId (hit : Json) : Option String := (hit.get "_id").bind Json.asStr

def elasticsearchExtractKnnHits : Json → Except String (List (Int64 × F64)) :=
  extractHits parseStr elasticsearchHitId

end Code

/-! ## Ids of rows -/

/-- An id is the id of a row: it is the number of an `i64`, in 128 bits. -/
def IsRow (uuid : BitVec 128) : Prop := uuid.toInt ∈ Set.Ico (-2 ^ 63) (2 ^ 63)

theorem setWidth_signExtend (id : BitVec 64) : (id.signExtend 128).setWidth 64 = id := by
  ext i hi
  rw [BitVec.getElem_setWidth, BitVec.getLsbD_signExtend, if_pos hi, BitVec.getLsbD_eq_getElem hi,
    decide_eq_true (hi.trans (by decide)), Bool.true_and]

/-- Cutting an id down to a row loses nothing exactly if the id is the id of a row. -/
theorem signExtend_setWidth_iff (uuid : BitVec 128) :
    (uuid.setWidth 64).signExtend 128 = uuid ↔ IsRow uuid := by
  have hdvd : ((2 ^ 64 : ℕ) : ℤ) ∣ uuid.toInt - uuid.toNat := by
    rw [BitVec.toInt_eq_toNat_cond]
    split_ifs
    · exact ⟨0, by omega⟩
    · exact ⟨-2 ^ 64, by omega⟩
  rw [← BitVec.toInt_inj, BitVec.toInt_signExtend_of_le (by decide), BitVec.toInt_setWidth,
    Int.bmod_eq_iff (by decide), IsRow, Set.mem_Ico]
  constructor
  · rintro ⟨hlo, hhi, -⟩
    exact ⟨by omega, by omega⟩
  · rintro ⟨hlo, hhi⟩
    exact ⟨by omega, by omega, hdvd⟩

variable {parseStr : Text → Except String (BitVec 128)} {hex : Text}

theorem uuidHexToInt_eq_ok {row : Int64} :
    uuidHexToInt parseStr hex = .ok row ↔
      ∃ uuid, parseStr hex = .ok uuid ∧ row = .ofBitVec (uuid.setWidth 64) := by
  rw [uuidHexToInt]
  cases parseStr hex with
  | error e => exact iff_of_false (by rintro ⟨⟩) (by rintro ⟨_, ⟨⟩, -⟩)
  | ok uuid =>
      constructor
      · rintro ⟨⟩
        exact ⟨uuid, rfl, rfl⟩
      · rintro ⟨_, ⟨⟩, rfl⟩
        rfl

/-- The id of a row is read as the row. -/
theorem uuidHexToInt_idToUuidHex (hparse : ReadsSimple parseStr) (row : Int64) :
    uuidHexToInt parseStr (idToUuidHex row) = .ok row := by
  refine uuidHexToInt_eq_ok.mpr ⟨_, hparse _, ?_⟩
  rw [setWidth_signExtend]
  rfl

/-- What an accepted id is read as has the same id exactly if it was the id of a row. -/
theorem denotes_iff (hparse : ReadsSimple parseStr) {uuid : BitVec 128}
    (huuid : parseStr hex = .ok uuid) {row : Int64} (hrow : uuidHexToInt parseStr hex = .ok row) :
    parseStr (idToUuidHex row) = parseStr hex ↔ IsRow uuid := by
  obtain ⟨_, huuid', rfl⟩ := uuidHexToInt_eq_ok.mp hrow
  cases huuid.symm.trans huuid'
  rw [idToUuidHex, hparse, huuid, ← signExtend_setWidth_iff, Except.ok.injEq]
  rfl

/-- Every row is read back from its id and no two rows have one id; an id that is accepted is the
id of the row it is read as exactly if its upper half repeats the sign of the lower one. -/
theorem uuidHexToInt_codec (hparse : ReadsSimple parseStr) :
    (∀ row, uuidHexToInt parseStr (idToUuidHex row) = .ok row) ∧
      Function.Injective idToUuidHex ∧
      ∀ hex, (∀ row, uuidHexToInt parseStr hex = .ok row →
          parseStr (idToUuidHex row) = parseStr hex) ↔
        ∀ uuid, parseStr hex = .ok uuid → IsRow uuid := by
  refine ⟨uuidHexToInt_idToUuidHex hparse, fun row row' h ↦ ?_, fun hex ↦ ⟨?_, ?_⟩⟩
  · have hrow := uuidHexToInt_idToUuidHex hparse row
    rw [h, uuidHexToInt_idToUuidHex hparse row'] at hrow
    exact (Except.ok.inj hrow).symm
  · intro h uuid huuid
    have hrow := uuidHexToInt_eq_ok.mpr ⟨uuid, huuid, rfl⟩
    exact (denotes_iff hparse huuid hrow).mp (h _ hrow)
  · intro h row hrow
    obtain ⟨uuid, huuid, -⟩ := uuidHexToInt_eq_ok.mp hrow
    exact (denotes_iff hparse huuid hrow).mpr (h uuid huuid)

/-! ## Responses -/

/-- The documents of a response are the rows they are taken for, one by one and in the order of
the hits, exactly if their ids are ids of rows. -/
theorem extractHits_denotes_iff (hparse : ReadsSimple parseStr) {hitId : Json → Option String}
    {respBody : Json} {hits : List Json} {results : List (Int64 × F64)}
    (hhits : ((respBody.get "hits").bind fun h ↦ h.get "hits").bind Json.asArray = some hits)
    (h : extractHits parseStr hitId respBody = .ok results) :
    List.Forall₂ (fun hit result ↦ ∃ id, hitId hit = some id ∧
        parseStr (idToUuidHex result.1) = parseStr id.toList) hits results ↔
      ∀ hit ∈ hits, ∀ id uuid, hitId hit = some id → parseStr id.toList = .ok uuid →
        IsRow uuid := by
  rw [extractHits, hhits] at h
  have hall := mapM_eq_ok.mp h
  have hstep : ∀ hit result, extractHit parseStr hitId hit = .ok result →
      ∃ id uuid, hitId hit = some id ∧ parseStr id.toList = .ok uuid ∧
        uuidHexToInt parseStr id.toList = .ok result.1 := by
    intro hit result hresult
    rw [extractHit] at hresult
    split at hresult
    · cases hresult
    next idHex hid =>
      obtain ⟨id, hrow, hresult⟩ := bind_eq_ok.mp hresult
      cases hresult
      obtain ⟨uuid, huuid, -⟩ := uuidHexToInt_eq_ok.mp hrow
      exact ⟨idHex, uuid, hid, huuid, hrow⟩
  clear h hhits
  induction hall with
  | nil => exact iff_of_true .nil fun hit hmem ↦ absurd hmem List.not_mem_nil
  | @cons hit result hits results hresult _ ih =>
      obtain ⟨id, uuid, hid, huuid, hrow⟩ := hstep hit result hresult
      rw [List.forall₂_cons, List.forall_mem_cons]
      refine and_congr ?_ ih
      have hdenotes := denotes_iff hparse huuid hrow
      constructor
      · rintro ⟨_, hid', hsame⟩ _ _ hid'' huuid'
        cases hid.symm.trans hid'
        cases hid.symm.trans hid''
        cases huuid.symm.trans huuid'
        exact hdenotes.mp hsame
      · exact fun hrows ↦ ⟨id, hid, hdenotes.mpr (hrows id uuid hid huuid)⟩

/-! ## Reading the simple form -/

def hexValue (c : Char) : Option ℕ := (List.range 16).find? fun d ↦ Nat.digitChar d = c

def unhexBytes : Text → Option Bytes
  | [] => some []
  | a :: b :: hex => do
    let hi ← hexValue a
    let lo ← hexValue b
    let bs ← unhexBytes hex
    pure (UInt8.ofNat (16 * hi + lo) :: bs)
  | _ => none

/-- A parser of 32 digits. -/
def parseSimple (hex : Text) : Except String (BitVec 128) :=
  match unhexBytes hex with
  | none => .error "invalid character"
  | some bs =>
    if bs.length = 16 then .ok (.ofNat 128 (ofLe bs.reverse)) else .error "invalid length"

theorem unhexBytes_flatMap (bs : Bytes) : unhexBytes (bs.flatMap hexByte) = some bs := by
  have hvalue : ∀ d < 16, hexValue (Nat.digitChar d) = some d := by decide
  induction bs with
  | nil => rfl
  | cons b bs ih =>
      have hb := b.toNat_lt
      have hbyte : UInt8.ofNat (16 * (b.toNat / 16) + b.toNat % 16) = b := by
        rw [Nat.div_add_mod]
        exact UInt8.ofNat_toNat
      rw [List.flatMap_cons, hexByte, List.cons_append, List.cons_append, List.nil_append,
        unhexBytes, hvalue _ (by omega), hvalue _ (by omega), ih]
      simp only [some_bind, hbyte]
      rfl

theorem readsSimple_parseSimple : ReadsSimple parseSimple := by
  intro u
  have hlt : u.toNat < 256 ^ 16 := u.isLt
  rw [parseSimple, simpleText, unhexBytes_flatMap]
  dsimp only
  rw [List.length_reverse, length_toLe, if_pos rfl, List.reverse_reverse, ofLe_toLe_of_lt hlt,
    BitVec.ofNat_toNat, BitVec.setWidth_eq]

/-- The id of no row: the number `2 ^ 64`. -/
def foreignHex : Text := List.replicate 15 '0' ++ '1' :: List.replicate 16 '0'

theorem uuidHexToInt_codec_foreign :
    (∀ row, uuidHexToInt parseSimple (idToUuidHex row) = .ok row) ∧
      Function.Injective idToUuidHex ∧
      ∀ hex, (∀ row, uuidHexToInt parseSimple hex = .ok row →
          parseSimple (idToUuidHex row) = parseSimple hex) ↔
        ∀ uuid, parseSimple hex = .ok uuid → IsRow uuid :=
  uuidHexToInt_codec readsSimple_parseSimple

/-- The id `2 ^ 64` is read as the row zero, whose id is another one. -/
theorem uuidHexToInt_foreign :
    uuidHexToInt parseSimple foreignHex = .ok 0 ∧
      parseSimple (idToUuidHex 0) ≠ parseSimple foreignHex := by
  have hforeign : parseSimple foreignHex = .ok 0x10000000000000000#128 := by
    rw [show foreignHex = simpleText 0x10000000000000000#128 by decide]
    exact readsSimple_parseSimple _
  refine ⟨uuidHexToInt_eq_ok.mpr ⟨_, hforeign, by decide⟩, ?_⟩
  rw [hforeign, idToUuidHex, readsSimple_parseSimple]
  exact fun h ↦ absurd (Except.ok.inj h) (by decide)

end VectorDbBenchmark.OpenSearch
