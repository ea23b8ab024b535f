import VectorDbBenchmark.Kit.Fallible
import VectorDbBenchmark.Redis.Value

/-!
# The reply of a fused search

`parse_redis_hybrid_reply` of `src/hybrid_rrf.rs`: an `FT.HYBRID` reply, a map under RESP3
and a flat array under RESP2, decoded into the page it carries.  Parsing a number is
`str::parse::<f64>`, a parameter.
-/

namespace VectorDbBenchmark.HybridRrf

open Kit Redis

/-- `(engine id, fused score)` in rank order. -/
abbrev FusedPage := List (String × F64)

def text : Value → Option String
  | .bulkString b => fromUtf8 b
  | .simpleString s => some s
  | .verbatimString s => some s
  | _ => none

/-- The name of an entry, as text. -/
def named (e : Value × Value) : Option (String × Value) := (text e.1).map fun k ↦ (k, e.2)

def pairs : Value → Option (List (String × Value))
  | .map m => m.mapM named
  | .array a => if a.length % 2 = 0 then (twoByTwo a).mapM named else none
  | _ => none

/-- The first entry of the name. -/
def get (p : List (String × Value)) (name : String) : Option Value :=
  (p.find? fun e ↦ e.1 = name).map Prod.snd

section

variable (parseF64 : String → Option F64)

/-- The score of a result: a double, or a text that parses. -/
def readScore (fields : List (String × Value)) : Except String F64 :=
  match get fields "__score" with
  | some (.double d) => .ok d
  | some v =>
    match (text v).bind parseF64 with
    | some d => .ok d
    | none => .error "hybrid-rrf: unparseable FT.HYBRID `__score`"
  | none => .error "hybrid-rrf: FT.HYBRID result without `__score`"

/-- One result. -/
def readResult (r : Value) : Except String (String × F64) :=
  match pairs r with
  | none => .error "hybrid-rrf: FT.HYBRID result is not a map"
  | some fields =>
    match (get fields "__key").bind text with
    | none => .error "hybrid-rrf: FT.HYBRID result without `__key`"
    | some key => do
      let score ← readScore parseF64 fields
      pure (key, score)

/-- The loop over the results; a key that was seen is an error. -/
def readResults : List String → List Value → Except String FusedPage
  | _, [] => .ok []
  | seen, r :: rs => do
    let hit ← readResult parseF64 r
    if hit.1 ∈ seen then .error s!"hybrid-rrf: duplicate FT.HYBRID result {hit.1}"
    else do
      let page ← readResults (hit.1 :: seen) rs
      pure (hit :: page)

/-- The warnings as the error shows them. -/
def quoted (msgs : List String) : String := "[" ++ ", ".intercalate (msgs.map String.quote) ++ "]"

def parseRedisHybridReply (value : Value) (top : ℕ) : Except String FusedPage :=
  match pairs value with
  | none => .error "hybrid-rrf: FT.HYBRID reply is not a map"
  | some topLevel =>
    match get topLevel "warnings" with
    | some (.array []) =>
      match get topLevel "total_results" with
      | some (.int n) =>
        if n < 0 then .error "hybrid-rrf: FT.HYBRID reply without `total_results`"
        else
          let total := n.toInt.toNat
          match get topLevel "results" with
          | some (.array results) =>
            if top < results.length ∨ results.length ≠ min total top then
              .error (s!"hybrid-rrf: incomplete FT.HYBRID page: total_results={total}, " ++
                s!"returned={results.length}, limit={top}")
            else readResults parseF64 [] results
          | _ => .error "hybrid-rrf: FT.HYBRID reply without `results`"
      | _ => .error "hybrid-rrf: FT.HYBRID reply without `total_results`"
    | some (.array w) =>
      .error s!"hybrid-rrf: FT.HYBRID warning(s): {quoted (w.filterMap text)}"
    | _ => .error "hybrid-rrf: FT.HYBRID reply without `warnings`"

end

/-! ## What an accepted reply carries -/

section

variable (parseF64 : String → Option F64)

/-- A value that is a score. -/
inductive IsScore : Value → F64 → Prop
  | double (d : F64) : IsScore (.double d) d
  | text {v : Value} {s : String} {d : F64} (hs : text v = some s) (hd : parseF64 s = some d) :
      IsScore v d

/-- A result whose first `__key` and first `__score` are those of the hit. -/
structure CarriesHit (r : Value) (hit : String × F64) : Prop where
  fields : ∃ fields, pairs r = some fields ∧
    (∃ v, get fields "__key" = some v ∧ text v = some hit.1) ∧
    ∃ v, get fields "__score" = some v ∧ IsScore parseF64 v hit.2

/-- A complete page without warnings, whose results are the hits, with distinct keys. -/
structure CarriesPage (value : Value) (top : ℕ) (page : FusedPage) : Prop where
  reply : ∃ fields n results, pairs value = some fields ∧
    get fields "warnings" = some (.array []) ∧
    get fields "total_results" = some (.int n) ∧ 0 ≤ n ∧
    get fields "results" = some (.array results) ∧ results.length = min n.toInt.toNat top ∧
    List.Forall₂ (CarriesHit parseF64) results page
  nodup : (page.map Prod.fst).Nodup

variable {parseF64}

theorem readScore_eq_ok {fields : List (String × Value)} {d : F64} :
    readScore parseF64 fields = .ok d ↔
      ∃ v, get fields "__score" = some v ∧ IsScore parseF64 v d := by
  rw [readScore]
  cases hget : get fields "__score" with
  | none => exact ⟨fun h ↦ (nomatch h), fun ⟨_, hsome, _⟩ ↦ (nomatch hsome)⟩
  | some v =>
      constructor
      · intro h
        refine ⟨v, rfl, ?_⟩
        split at h
        · next hv =>
            cases hv
            cases h
            exact .double d
        · next hv =>
            cases hv
            split at h
            · next hd =>
                cases h
                obtain ⟨s, hs, hd⟩ := Option.bind_eq_some_iff.mp hd
                exact .text hs hd
            · cases h
        · next hv => cases hv
      · rintro ⟨_, hsome, hscore⟩
        cases hsome
        cases hscore with
        | double d => rfl
        | text hs hd =>
            have hbind : (text v).bind parseF64 = some d := by
              rw [hs]
              exact hd
            cases v <;> first | cases hs; done | (dsimp only; rw [hbind])

theorem readResult_eq_ok {r : Value} {hit : String × F64} :
    readResult parseF64 r = .ok hit ↔ CarriesHit parseF64 r hit := by
  rw [readResult]
  cases hpairs : pairs r with
  | none =>
      refine ⟨fun h ↦ (nomatch h), ?_⟩
      rintro ⟨fields, hfields, -⟩
      rw [hpairs] at hfields
      cases hfields
  | some fields =>
      dsimp only
      constructor
      · intro h
        split at h
        · cases h
        · next key hkey =>
            obtain ⟨score, hscore, h⟩ := bind_eq_ok.mp h
            cases h
            exact ⟨fields, hpairs, Option.bind_eq_some_iff.mp hkey, readScore_eq_ok.mp hscore⟩
      · rintro ⟨fields', hfields, hkey, hscore⟩
        rw [hpairs] at hfields
        cases hfields
        rw [Option.bind_eq_some_iff.mpr hkey]
        dsimp only
        rw [readScore_eq_ok.mpr hscore]
        rfl

/-- The loop returns the hits of the results, in order, when no key comes twice. -/
theorem readResults_eq_ok {seen : List String} {rs : List Value} {page : FusedPage} :
    readResults parseF64 seen rs = .ok page ↔
      List.Forall₂ (CarriesHit parseF64) rs page ∧ (page.map Prod.fst).Nodup ∧
        ∀ key ∈ page.map Prod.fst, key ∉ seen := by
  induction rs generalizing seen page with
  | nil =>
      rw [readResults, List.forall₂_nil_left_iff]
      constructor
      · intro h
        cases h
        exact ⟨rfl, List.nodup_nil, fun _ hkey ↦ (nomatch hkey)⟩
      · rintro ⟨rfl, -, -⟩
        rfl
  | cons r rs ih =>
      rw [readResults, bind_eq_ok, List.forall₂_cons_left_iff]
      constructor
      · rintro ⟨hit, hhit, h⟩
        split_ifs at h with hseen
        obtain ⟨rest, hrest, h⟩ := bind_eq_ok.mp h
        cases h
        obtain ⟨hall, hnodup, hfresh⟩ := ih.mp hrest
        refine ⟨⟨hit, rest, readResult_eq_ok.mp hhit, hall, rfl⟩, ?_, ?_⟩
        · rw [List.map_cons, List.nodup_cons]
          exact ⟨fun hmem ↦ hfresh _ hmem List.mem_cons_self, hnodup⟩
        · intro key hkey
          rcases List.mem_cons.mp hkey with rfl | hkey
          · exact hseen
          · exact fun hmem ↦ hfresh key hkey (List.mem_cons_of_mem _ hmem)
      · rintro ⟨⟨hit, rest, hhit, hall, rfl⟩, hnodup, hfresh⟩
        rw [List.map_cons, List.nodup_cons] at hnodup
        refine ⟨hit, readResult_eq_ok.mpr hhit, ?_⟩
        have hrest : readResults parseF64 (hit.1 :: seen) rs = .ok rest := by
          refine ih.mpr ⟨hall, hnodup.2, fun key hkey hmem ↦ ?_⟩
          rcases List.mem_cons.mp hmem with rfl | hmem
          · exact hnodup.1 hkey
          · exact hfresh key (List.mem_cons_of_mem _ hkey) hmem
        rw [if_neg (hfresh _ List.mem_cons_self), hrest]
        rfl

/-- A reply is accepted exactly when it carries a page, and then that page is returned. -/
theorem parseRedisHybridReply_eq_ok {value : Value} {top : ℕ} {page : FusedPage} :
    parseRedisHybridReply parseF64 value top = .ok page ↔
      CarriesPage parseF64 value top page := by
  constructor
  · intro h
    rw [parseRedisHybridReply] at h
    split at h
    · cases h
    next fields hfields =>
    split at h
    · next hwarnings =>
        split at h
        · next n htotal =>
            split_ifs at h with hneg
            dsimp only at h
            split at h
            · next results hresults =>
                split_ifs at h with hlen
                rw [not_or, not_not] at hlen
                obtain ⟨hall, hnodup, -⟩ := readResults_eq_ok.mp h
                exact ⟨⟨fields, n, results, hfields, hwarnings, htotal,
                  Int64.not_lt.mp hneg, hresults,
                  hlen.2, hall⟩, hnodup⟩
            · cases h
        · cases h
    · cases h
    · cases h
  · rintro ⟨⟨fields, n, results, hfields, hwarnings, htotal, hneg, hresults, hlen, hall⟩, hnodup⟩
    rw [parseRedisHybridReply, hfields]
    dsimp only
    rw [hwarnings]
    dsimp only
    rw [htotal]
    dsimp only
    rw [if_neg (Int64.not_lt.mpr hneg), hresults]
    dsimp only
    rw [if_neg (not_or.mpr ⟨not_lt.mpr (hlen ▸ Nat.min_le_right _ _), not_not.mpr hlen⟩)]
    exact readResults_eq_ok.mpr ⟨hall, hnodup, fun _ _ hmem ↦ (nomatch hmem)⟩

end

/-! ## The two protocols

A reply and each of its results is a list of named entries, under RESP3 as a map and under
RESP2 as a flat array. -/

/-- A value that is the text `s`. -/
inductive IsText : Value → String → Prop
  | bulk (s : String) : IsText (.bulkString (utf8Bytes s)) s
  | simple (s : String) : IsText (.simpleString s) s
  | verbatim (s : String) : IsText (.verbatimString s) s

/-- The entries of a reply, with their names as text. -/
abbrev Named (es : List (Value × Value)) (fields : List (String × Value)) : Prop :=
  List.Forall₂ (fun e f ↦ IsText e.1 f.1 ∧ e.2 = f.2) es fields

/-- A value that holds the named entries. -/
inductive Holds : Value → List (String × Value) → Prop
  | resp3 {es : List (Value × Value)} {fields : List (String × Value)} (h : Named es fields) :
      Holds (.map es) fields
  | resp2 {es : List (Value × Value)} {fields : List (String × Value)} (h : Named es fields) :
      Holds (.array (alternating es)) fields

section

variable (parseF64 : String → Option F64)

/-- The entries of one result, in any order, with any others between them. -/
structure HitFields (fields : List (String × Value)) (hit : String × F64) : Prop where
  nodup : (fields.map Prod.fst).Nodup
  key : ∃ v, ("__key", v) ∈ fields ∧ IsText v hit.1
  score : ∃ v, ("__score", v) ∈ fields ∧
    (v = .double hit.2 ∨ ∃ s, IsText v s ∧ parseF64 s = some hit.2)

/-- The reply to a query that has `total` results, with the entries in any order. -/
structure ReplyOf (value : Value) (total : ℕ) (hits : FusedPage) : Prop where
  reply : ∃ fields n results, Holds value fields ∧ (fields.map Prod.fst).Nodup ∧
    ("warnings", Value.array []) ∈ fields ∧
    ("total_results", Value.int n) ∈ fields ∧ n.toInt = total ∧
    ("results", Value.array results) ∈ fields ∧
    List.Forall₂ (fun r hit ↦ ∃ fs, Holds r fs ∧ HitFields parseF64 fs hit) results hits

end

theorem text_of_isText {v : Value} {s : String} (h : IsText v s) : text v = some s := by
  cases h with
  | bulk s => exact fromUtf8_utf8Bytes s
  | simple s => rfl
  | verbatim s => rfl

theorem mapM_named {es : List (Value × Value)} {fields : List (String × Value)}
    (h : Named es fields) : es.mapM named = some fields := by
  induction h with
  | nil => rfl
  | @cons e f es fields he _ ih =>
      have hname : named e = some f := by
        rw [named, text_of_isText he.1, Option.map_some, he.2]
      rw [List.mapM_cons, hname, ih]
      rfl

/-- Both shapes hold the same entries. -/
theorem pairs_of_holds {v : Value} {fields : List (String × Value)} (h : Holds v fields) :
    pairs v = some fields := by
  cases h with
  | resp3 h => exact mapM_named h
  | @resp2 es _ h =>
      have heven : (alternating es).length % 2 = 0 := by
        rw [length_alternating]
        exact Nat.mul_mod_left _ _
      rw [pairs, if_pos heven, twoByTwo_alternating]
      exact mapM_named h

/-- Where the names are distinct, the order of the entries does not matter. -/
theorem get_of_mem {fields : List (String × Value)} (h : (fields.map Prod.fst).Nodup)
    {name : String} {v : Value} (hmem : (name, v) ∈ fields) : get fields name = some v := by
  induction fields with
  | nil => cases hmem
  | cons f fields ih =>
      rw [List.map_cons, List.nodup_cons] at h
      rw [get, List.find?_cons]
      rcases List.mem_cons.mp hmem with rfl | hmem
      · simp
      · have hne : f.1 ≠ name := by
          rintro rfl
          exact h.1 (List.mem_map.mpr ⟨_, hmem, rfl⟩)
        simp only [hne, decide_false]
        exact ih h.2 hmem

section

variable {parseF64 : String → Option F64}

theorem HitFields.carriesHit {r : Value} {fields : List (String × Value)} {hit : String × F64}
    (hr : Holds r fields) (h : HitFields parseF64 fields hit) : CarriesHit parseF64 r hit := by
  obtain ⟨k, hk, hkey⟩ := h.key
  obtain ⟨v, hv, hscore⟩ := h.score
  refine ⟨fields, pairs_of_holds hr, ⟨k, get_of_mem h.nodup hk, text_of_isText hkey⟩, v,
    get_of_mem h.nodup hv, ?_⟩
  rcases hscore with rfl | ⟨s, hs, hd⟩
  · exact .double _
  · exact .text (text_of_isText hs) hd

theorem ReplyOf.carriesPage {value : Value} {total top : ℕ} {hits : FusedPage}
    (h : ReplyOf parseF64 value total hits) (hlen : hits.length = min total top)
    (hnodup : (hits.map Prod.fst).Nodup) : CarriesPage parseF64 value top hits := by
  obtain ⟨fields, n, results, hholds, hnames, hwarnings, htotal, hn, hresults, hall⟩ := h
  refine ⟨⟨fields, n, results, pairs_of_holds hholds, get_of_mem hnames hwarnings,
    get_of_mem hnames htotal, ?_, get_of_mem hnames hresults, ?_, ?_⟩, hnodup⟩
  · rw [Int64.le_iff_toInt_le, hn]
    exact Int.natCast_nonneg total
  · rw [hall.length_eq, hlen, hn, Int.toNat_natCast]
  · exact hall.imp fun r hit ⟨fs, hr, hfields⟩ ↦ hfields.carriesHit hr

/-- **Decoding a fused reply**: under either protocol and in any order of the entries, a
complete page of distinct keys decodes to its hits; and a reply that is accepted has every
required field in order, and its results are the hits, one for one. -/
theorem parseRedisHybridReply_correct (parseF64 : String → Option F64) :
    (∀ value total top hits, ReplyOf parseF64 value total hits → hits.length = min total top →
      (hits.map Prod.fst).Nodup → parseRedisHybridReply parseF64 value top = .ok hits) ∧
    ∀ value top page, parseRedisHybridReply parseF64 value top = .ok page ↔
      CarriesPage parseF64 value top page :=
  ⟨fun _ _ _ _ h hlen hnodup ↦ parseRedisHybridReply_eq_ok.mpr (h.carriesPage hlen hnodup),
    fun _ _ _ ↦ parseRedisHybridReply_eq_ok⟩

end

/-- A result with two scores is not an error: the first one counts. -/
theorem parseRedisHybridReply_two_scores :
    parseRedisHybridReply (fun _ ↦ none)
      (.map [(.simpleString "total_results", .int 1), (.simpleString "warnings", .array []),
        (.simpleString "results", .array [.map [
          (.simpleString "__key", .simpleString "p:1"),
          (.simpleString "__score", .double (.fin 1)),
          (.simpleString "__score", .double (.fin 2))]])]) 10 = .ok [("p:1", .fin 1)] :=
  rfl

end VectorDbBenchmark.HybridRrf
