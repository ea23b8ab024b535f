import VectorDbBenchmark.Kit.Utf8
import VectorDbBenchmark.Redis.Value

/-!
# The reply of a search

`parse_ft_search_response` of `src/parsers.rs`: an `FT.SEARCH` reply, a flat array under
RESP2 and a map under RESP3, decoded into its hits.  Parsing a number is
`str::parse::<f64>`, a parameter.
-/

namespace VectorDbBenchmark.Redis

open Kit

/-- `str::parse::<i64>`. -/
def parseId (t : Text) : Option Int64 := (parseI64 t).map Int64.ofInt

/-- The numeric id at the end of a document key; zero when there is none. -/
def docKeyToId (key : Text) : Int64 := (parseId (afterLast ':' key)).getD 0

def docKeyToIdOpt (key : Text) : Option Int64 := parseId (afterLast ':' key)

/-- Best-effort text of a value. -/
def valueAsString : Value → Option Text
  | .bulkString b => some (fromUtf8Lossy b)
  | .simpleString s => some s.toList
  | _ => none

/-- `b"vector_score"`. -/
def vectorScore : Bytes := asciiBytes "vector_score".toList

section

variable (parseF64 : Text → Option F64)

def extractVectorScore : List Value → F64
  | .bulkString name :: .bulkString val :: rest =>
    if name = vectorScore then (parseF64 (fromUtf8Lossy val)).getD (.fin 0)
    else extractVectorScore rest
  | _ :: _ :: rest => extractVectorScore rest
  | _ => .fin 0

/-! ## RESP2 -/

/-- The loop over `key, fields, key, fields, ...`; a last key alone is dropped. -/
def resp2Hits : List Value → List (Int64 × F64)
  | key :: fields :: rest =>
    let id := ((valueAsString key).map docKeyToId).getD 0
    let score := match fields with
      | .array fields => extractVectorScore parseF64 fields
      | _ => .fin 0
    (id, score) :: resp2Hits rest
  | _ => []

/-- The first element is the total count. -/
def parseFtSearchResp2 (response : List Value) : List (Int64 × F64) :=
  resp2Hits parseF64 (response.drop 1)

/-! ## RESP3 -/

/-- One entry of `extra_attributes`. -/
def attrScore (score : F64) (e : Value × Value) : F64 :=
  if valueAsString e.1 = some "vector_score".toList then
    ((valueAsString e.2).bind parseF64).getD (.fin 0)
  else score

/-- One entry of a document: the id and the score so far. -/
def docEntry (s : Option Int64 × F64) (e : Value × Value) : Option Int64 × F64 :=
  if valueAsString e.1 = some "id".toList then ((valueAsString e.2).bind docKeyToIdOpt, s.2)
  else if valueAsString e.1 = some "extra_attributes".toList then
    match e.2 with
    | .map attrs => (s.1, attrs.foldl (attrScore parseF64) s.2)
    | _ => s
  else s

/-- One document; one without an id is skipped. -/
def readDoc : Value → Option (Int64 × F64)
  | .map fields =>
    let (id, score) := fields.foldl (docEntry parseF64) (none, .fin 0)
    id.map fun id ↦ (id, score)
  | _ => none

def parseFtSearchResp3 (pairs : List (Value × Value)) : List (Int64 × F64) :=
  match (pairs.find? fun e ↦ valueAsString e.1 = some "results".toList).map Prod.snd with
  | some (.array docs) => docs.filterMap (readDoc parseF64)
  | _ => []

def parseFtSearchResponse : Value → Except String (List (Int64 × F64))
  | .array items => .ok (parseFtSearchResp2 parseF64 items)
  | .map pairs => .ok (parseFtSearchResp3 parseF64 pairs)
  | _ => .ok []

end

/-! ## The two protocols -/

/-- A document key that ends in the integer `id`: a numeral, alone or behind a colon. -/
inductive IsKey : Value → Int64 → Prop
  | bare {tail : Text} {id : Int64} (h : parseId tail = some id) :
      IsKey (.bulkString (asciiBytes tail)) id
  | bulk (pre : Bytes) {tail : Text} {id : Int64} (h : parseId tail = some id) :
      IsKey (.bulkString (pre ++ asciiBytes (':' :: tail))) id
  | simpleBare {tail : Text} {id : Int64} (h : parseId tail = some id) :
      IsKey (.simpleString (String.ofList tail)) id
  | simple (pre : Text) {tail : Text} {id : Int64} (h : parseId tail = some id) :
      IsKey (.simpleString (String.ofList (pre ++ ':' :: tail))) id

/-- The value of the entries that are named `name`, of which there is one. -/
structure Entry (es : List (Value × Value)) (name : String) (v : Value) : Prop where
  mem : ∃ k, (k, v) ∈ es ∧ valueAsString k = some name.toList
  unique : ∀ e ∈ es, valueAsString e.1 = some name.toList → e.2 = v

section

variable (parseF64 : Text → Option F64)

/-- A key and its fields, in any order and with any others between them. -/
structure Resp2Hit (key fields : Value) (hit : Int64 × F64) : Prop where
  key : IsKey key hit.1
  score : ∃ (es : List (Value × Value)) (val : Bytes), fields = .array (alternating es) ∧
    (Value.bulkString vectorScore, Value.bulkString val) ∈ es ∧
    (∀ e ∈ es, e.1 = .bulkString vectorScore → e.2 = .bulkString val) ∧
    parseF64 (fromUtf8Lossy val) = some hit.2

/-- `[count, key, fields, key, fields, ...]`. -/
structure Resp2Reply (v : Value) (hits : List (Int64 × F64)) : Prop where
  reply : ∃ (count : Value) (body : List (Value × Value)),
    v = .array (count :: alternating body) ∧
    List.Forall₂ (fun e hit ↦ Resp2Hit parseF64 e.1 e.2 hit) body hits

/-- A document map, with the entries in any order. -/
structure Resp3Hit (doc : Value) (hit : Int64 × F64) : Prop where
  doc : ∃ fields key attrs score text, doc = .map fields ∧ Entry fields "id" key ∧
    IsKey key hit.1 ∧ Entry fields "extra_attributes" (.map attrs) ∧
    Entry attrs "vector_score" score ∧ valueAsString score = some text ∧
    parseF64 text = some hit.2

/-- A map with the documents under `results`. -/
structure Resp3Reply (v : Value) (hits : List (Int64 × F64)) : Prop where
  reply : ∃ es docs, v = .map es ∧ Entry es "results" (.array docs) ∧
    List.Forall₂ (Resp3Hit parseF64) docs hits

end

/-! ## Keys -/

/-- A signed numeral is ASCII, without a colon. -/
theorem ascii_of_parseId {t : Text} {id : Int64} (h : parseId t = some id) :
    ':' ∉ t ∧ ∀ c ∈ t, c.toNat < 128 := by
  obtain ⟨i, hi, -⟩ := Option.map_eq_some_iff.mp h
  have hmem := mem_of_parseI64 hi
  constructor
  · intro hcolon
    rcases hmem _ hcolon with hc | hc | hc
    · exact absurd hc (by decide)
    · exact absurd hc (by decide)
    · exact absurd hc (by decide)
  · intro c hc
    rcases hmem c hc with hc | rfl | rfl
    · exact toNat_lt_of_isDigit hc
    · decide
    · decide

/-- Both views of a key find its id. -/
theorem docKeyToIdOpt_of_isKey {v : Value} {id : Int64} (h : IsKey v id) :
    ∃ key, valueAsString v = some key ∧ docKeyToIdOpt key = some id := by
  cases h with
  | @bare tail _ h =>
      obtain ⟨hcolon, hascii⟩ := ascii_of_parseId h
      refine ⟨_, rfl, ?_⟩
      rw [fromUtf8Lossy_asciiBytes hascii, docKeyToIdOpt, afterLast_of_not_mem hcolon, h]
  | @bulk pre tail _ h =>
      obtain ⟨hcolon, hascii⟩ := ascii_of_parseId h
      refine ⟨_, rfl, ?_⟩
      have hall : ∀ c ∈ ':' :: tail, c.toNat < 128 := by
        intro c hc
        rcases List.mem_cons.mp hc with rfl | hc
        · decide
        · exact hascii c hc
      rw [fromUtf8Lossy_append_asciiBytes pre hall, docKeyToIdOpt, afterLast_append _ hcolon, h]
  | @simpleBare tail _ h =>
      refine ⟨_, rfl, ?_⟩
      rw [String.toList_ofList, docKeyToIdOpt, afterLast_of_not_mem (ascii_of_parseId h).1, h]
  | @simple pre tail _ h =>
      refine ⟨_, rfl, ?_⟩
      rw [String.toList_ofList, docKeyToIdOpt, afterLast_append _ (ascii_of_parseId h).1, h]

/-! ## Scores and hits -/

section

variable {parseF64 : Text → Option F64}

/-- The first entry with the score's name has the score. -/
theorem extractVectorScore_alternating {es : List (Value × Value)} {val : Bytes} {d : F64}
    (hmem : (Value.bulkString vectorScore, Value.bulkString val) ∈ es)
    (hunique : ∀ e ∈ es, e.1 = .bulkString vectorScore → e.2 = .bulkString val)
    (hd : parseF64 (fromUtf8Lossy val) = some d) :
    extractVectorScore parseF64 (alternating es) = d := by
  induction es with
  | nil => cases hmem
  | cons e es ih =>
      obtain ⟨name, value⟩ := e
      change extractVectorScore parseF64 (name :: value :: alternating es) = d
      by_cases hname : name = .bulkString vectorScore
      · have hvalue := hunique _ List.mem_cons_self hname
        dsimp only at hvalue
        rw [hname, hvalue, extractVectorScore, if_pos rfl, hd]
        rfl
      · have hrest : extractVectorScore parseF64 (alternating es) = d := by
          refine ih ?_ fun e he ↦ hunique e (List.mem_cons_of_mem _ he)
          rcases List.mem_cons.mp hmem with heq | hmem
          · exact absurd (Prod.mk.inj heq).1.symm hname
          · exact hmem
        rw [extractVectorScore.eq_def]
        split
        · next name' val' _ heq =>
            cases heq
            rw [if_neg fun h ↦ hname (congrArg _ h)]
            exact hrest
        · next heq =>
            cases heq
            exact hrest
        · next hne => exact (hne _ _ _ rfl).elim

theorem resp2Hits_alternating {body : List (Value × Value)} {hits : List (Int64 × F64)}
    (h : List.Forall₂ (fun e hit ↦ Resp2Hit parseF64 e.1 e.2 hit) body hits) :
    resp2Hits parseF64 (alternating body) = hits := by
  induction h with
  | nil => rfl
  | @cons e hit body hits he _ ih =>
      obtain ⟨key, hkey, hid⟩ := docKeyToIdOpt_of_isKey he.key
      obtain ⟨es, val, hfields, hmem, hunique, hd⟩ := he.score
      have hscore := extractVectorScore_alternating hmem hunique hd
      change resp2Hits parseF64 (e.1 :: e.2 :: alternating body) = _
      rw [hfields, resp2Hits, ih, hkey, hscore, Option.map_some, docKeyToId]
      rw [docKeyToIdOpt] at hid
      rw [hid]
      rfl

/-- A loop that sets a part of its state at some elements, always to the same value, and keeps
it at the others. -/
theorem foldl_sets {α β γ : Type} {f : β → α → β} (part : β → γ) (sets : α → Prop) {d : γ}
    {xs : List α} (hset : ∀ x ∈ xs, sets x → ∀ b, part (f b x) = d)
    (hkeep : ∀ x ∈ xs, ¬ sets x → ∀ b, part (f b x) = part b) (hex : ∃ x ∈ xs, sets x) (b : β) :
    part (xs.foldl f b) = d := by
  induction xs using List.reverseRecOn with
  | nil =>
      obtain ⟨x, hx, -⟩ := hex
      cases hx
  | append_singleton xs x ih =>
      rw [List.foldl_append, List.foldl_cons, List.foldl_nil]
      have hlast : x ∈ xs ++ [x] := List.mem_append_right _ List.mem_cons_self
      by_cases hx : sets x
      · exact hset x hlast hx _
      · rw [hkeep x hlast hx]
        refine ih (fun y hy ↦ hset y (List.mem_append_left _ hy))
          (fun y hy ↦ hkeep y (List.mem_append_left _ hy)) ?_
        obtain ⟨y, hy, hsets⟩ := hex
        rcases List.mem_append.mp hy with hy | hy
        · exact ⟨y, hy, hsets⟩
        · rw [List.mem_singleton.mp hy] at hsets
          exact absurd hsets hx

theorem foldl_attrScore {attrs : List (Value × Value)} {score : Value} {d : F64} {text : Text}
    (h : Entry attrs "vector_score" score) (htext : valueAsString score = some text)
    (hd : parseF64 text = some d) (s : F64) : attrs.foldl (attrScore parseF64) s = d := by
  refine foldl_sets id (fun e : Value × Value ↦ valueAsString e.1 = some "vector_score".toList)
    (fun e he hname s ↦ ?_) (fun e _ hname s ↦ if_neg hname) ?_ s
  · change attrScore parseF64 s e = d
    unfold attrScore
    rw [if_pos hname, h.unique e he hname, htext, Option.bind_some, hd]
    rfl
  · obtain ⟨k, hk, hname⟩ := h.mem
    exact ⟨_, hk, hname⟩

theorem readDoc_of_hit {doc : Value} {hit : Int64 × F64} (h : Resp3Hit parseF64 doc hit) :
    readDoc parseF64 doc = some hit := by
  obtain ⟨fields, key, attrs, score, text, rfl, hid, hkey, hattrs, hscore, htext, hd⟩ := h
  obtain ⟨keyText, hkeyText, hkeyId⟩ := docKeyToIdOpt_of_isKey hkey
  have hnames : some "extra_attributes".toList ≠ some "id".toList := by decide
  have hidState : (fields.foldl (docEntry parseF64) (none, .fin 0)).1 = some hit.1 := by
    refine foldl_sets Prod.fst (fun e ↦ valueAsString e.1 = some "id".toList)
      (fun e he hname s ↦ ?_) (fun e _ hname s ↦ ?_) ?_ _
    · rw [docEntry, if_pos hname, hid.unique e he hname, hkeyText, Option.bind_some, hkeyId]
    · rw [docEntry, if_neg hname]
      split_ifs
      · split <;> rfl
      · rfl
    · obtain ⟨k, hk, hname⟩ := hid.mem
      exact ⟨_, hk, hname⟩
  have hscoreState : (fields.foldl (docEntry parseF64) (none, .fin 0)).2 = hit.2 := by
    refine foldl_sets Prod.snd (fun e ↦ valueAsString e.1 = some "extra_attributes".toList)
      (fun e he hname s ↦ ?_) (fun e _ hname s ↦ ?_) ?_ _
    · rw [docEntry, if_neg (hname ▸ hnames), if_pos hname, hattrs.unique e he hname]
      exact foldl_attrScore hscore htext hd s.2
    · rw [docEntry, if_neg hname]
      split_ifs <;> rfl
    · obtain ⟨k, hk, hname⟩ := hattrs.mem
      exact ⟨_, hk, hname⟩
  change (fields.foldl (docEntry parseF64) (none, .fin 0)).1.map (fun id ↦
    (id, (fields.foldl (docEntry parseF64) (none, .fin 0)).2)) = some hit
  rw [hidState, hscoreState]
  rfl

theorem filterMap_readDoc {docs : List Value} {hits : List (Int64 × F64)}
    (h : List.Forall₂ (Resp3Hit parseF64) docs hits) :
    docs.filterMap (readDoc parseF64) = hits := by
  induction h with
  | nil => rfl
  | cons hdoc _ ih => rw [List.filterMap_cons, readDoc_of_hit hdoc, ih]

theorem parseFtSearchResp3_of_entry {es : List (Value × Value)} {docs : List Value}
    (h : Entry es "results" (.array docs)) :
    parseFtSearchResp3 parseF64 es = docs.filterMap (readDoc parseF64) := by
  obtain ⟨k, hk, hname⟩ := h.mem
  have hfind : ∃ e, es.find? (fun e ↦ valueAsString e.1 = some "results".toList) = some e := by
    apply Option.isSome_iff_exists.mp
    rw [List.find?_isSome]
    exact ⟨_, hk, decide_eq_true hname⟩
  obtain ⟨e, he⟩ := hfind
  have hresults : valueAsString e.1 = some "results".toList :=
    of_decide_eq_true (List.find?_some
      (p := fun e : Value × Value ↦ decide (valueAsString e.1 = some "results".toList)) he)
  have hvalue := h.unique e (List.mem_of_find?_eq_some he) hresults
  rw [parseFtSearchResp3, he, Option.map_some, hvalue]

/-- **Decoding a search reply**: whatever the protocol and the order of the entries, the hits
come out as they are, in order, none dropped and none twice. -/
theorem parseFtSearchResponse_agrees {hits : List (Int64 × F64)} {resp2 resp3 : Value}
    (h2 : Resp2Reply parseF64 resp2 hits) (h3 : Resp3Reply parseF64 resp3 hits) :
    parseFtSearchResponse parseF64 resp2 = .ok hits ∧
      parseFtSearchResponse parseF64 resp3 = .ok hits := by
  obtain ⟨count, body, rfl, hbody⟩ := h2
  obtain ⟨es, docs, rfl, hresults, hdocs⟩ := h3
  constructor
  · exact congrArg Except.ok (resp2Hits_alternating hbody)
  · rw [parseFtSearchResponse, parseFtSearchResp3_of_entry hresults, filterMap_readDoc hdocs]

end

theorem Entry.of_nodup {es : List (Value × Value)} {name : String} {k v : Value}
    (hmem : (k, v) ∈ es) (hname : valueAsString k = some name.toList)
    (hnodup : (es.map fun e ↦ valueAsString e.1).Nodup) : Entry es name v := by
  refine ⟨⟨k, hmem, hname⟩, fun e he hsame ↦ ?_⟩
  rw [← hname] at hsame
  exact congrArg Prod.snd (List.inj_on_of_nodup_map hnodup he hmem hsame)

/-- Two hits under RESP2: a hash with another field before its score, whose key has a prefix, and
one whose key is a negative number. -/
def twoHitsResp2 : Value :=
  .array (.int 2 :: alternating [
    (.bulkString (asciiBytes "c:42".toList), .array (alternating [
      (.bulkString (asciiBytes "color".toList), .bulkString (asciiBytes "red".toList)),
      (.bulkString vectorScore, .bulkString (asciiBytes "0.5".toList))])),
    (.bulkString (asciiBytes "-7".toList), .array (alternating [
      (.bulkString vectorScore, .bulkString (asciiBytes "0.25".toList)),
      (.bulkString (asciiBytes "size".toList), .bulkString (asciiBytes "3".toList))]))])

/-- The same reply under RESP3, the score of the first hit before its id. -/
def twoHitsResp3 : Value :=
  .map [(.simpleString "total_results", .int 2), (.simpleString "results", .array [
    .map [
      (.simpleString "extra_attributes", .map [
        (.bulkString vectorScore, .bulkString (asciiBytes "0.5".toList))]),
      (.simpleString "id", .bulkString (asciiBytes "c:42".toList))],
    .map [
      (.simpleString "id", .simpleString "c:x:-7"),
      (.bulkString (asciiBytes "extra_attributes".toList), .map [
        (.bulkString (asciiBytes "size".toList), .bulkString (asciiBytes "3".toList)),
        (.simpleString "vector_score", .bulkString (asciiBytes "0.25".toList))])]])]

/-- A number parser that knows two numerals. -/
def parseShares (t : Text) : Option F64 :=
  if t = "0.5".toList then some (.fin (1 / 2))
  else if t = "0.25".toList then some (.fin (1 / 4))
  else none

theorem parseFtSearchResponse_twoHits :
    parseFtSearchResponse parseShares twoHitsResp2 = .ok [(42, .fin (1 / 2)), (-7, .fin (1 / 4))] ∧
      parseFtSearchResponse parseShares twoHitsResp3 =
        .ok [(42, .fin (1 / 2)), (-7, .fin (1 / 4))] := by
  have hid : parseId ['4', '2'] = some 42 := by decide
  have hnegative : parseId ['-', '7'] = some (-7) := by decide
  have hkey : IsKey (.bulkString (asciiBytes "c:42".toList)) 42 := .bulk (asciiBytes ['c']) hid
  have hhalf : parseShares (fromUtf8Lossy (asciiBytes "0.5".toList)) = some (.fin (1 / 2)) := rfl
  have hquarter : parseShares (fromUtf8Lossy (asciiBytes "0.25".toList)) = some (.fin (1 / 4)) :=
    rfl
  have hname : valueAsString (.bulkString vectorScore) = some "vector_score".toList := by
    decide +kernel
  have hattributes : valueAsString (.bulkString (asciiBytes "extra_attributes".toList)) =
      some "extra_attributes".toList := by
    decide +kernel
  have h2 : Resp2Reply parseShares twoHitsResp2 [(42, .fin (1 / 2)), (-7, .fin (1 / 4))] := by
    refine ⟨_, _, rfl, .cons ⟨hkey, _, _, rfl, .tail _ (.head _), ?_, hhalf⟩
      (.cons ⟨.bare hnegative, _, _, rfl, .head _, ?_, hquarter⟩ .nil)⟩
    · intro e he hname
      rcases List.mem_cons.mp he with rfl | he
      · exact absurd (Value.bulkString.inj hname) (by decide)
      · rw [List.mem_singleton.mp he]
    · intro e he hname
      rcases List.mem_cons.mp he with rfl | he
      · rfl
      · rw [List.mem_singleton.mp he] at hname
        exact absurd (Value.bulkString.inj hname) (by decide)
  have h3 : Resp3Reply parseShares twoHitsResp3 [(42, .fin (1 / 2)), (-7, .fin (1 / 4))] := by
    refine ⟨_, _, rfl, .of_nodup (.tail _ (.head _)) rfl (by decide), .cons ⟨_, _, _, _, _,
      rfl, .of_nodup (.tail _ (.head _)) rfl (by decide), hkey,
      .of_nodup (.head _) rfl (by decide), .of_nodup (.head _) hname (by decide),
      rfl, hhalf⟩ (.cons ⟨_, _, _, _, _,
      rfl, .of_nodup (.head _) rfl (by decide +kernel), .simple "c:x".toList hnegative,
      .of_nodup (.tail _ (.head _)) hattributes (by decide +kernel),
      .of_nodup (.tail _ (.head _)) rfl (by decide), rfl, hquarter⟩ .nil)⟩
  exact parseFtSearchResponse_agrees h2 h3

end VectorDbBenchmark.Redis
