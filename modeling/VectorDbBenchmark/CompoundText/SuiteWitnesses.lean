import VectorDbBenchmark.CompoundText.Suite

/-!
# Witnesses of the compound suite

Whatever compiles of the five queries of a passage holds of the passage, and the exclusion takes
away another passage of the sample: first the truth of each form of condition at a row, then what
the index and the choice of the excluded term say, and last the loop over the passages.
-/

namespace VectorDbBenchmark.CompoundText

open Kit Msmarco

variable (display : Json → String) (debug : String → String) (schema : Json)

/-! ## The truth of conditions -/

/-- If the condition compiles, the row gives it this truth. -/
def Yields (row : List (String × Json)) (c : Json) (b : Bool) : Prop :=
  ∀ depth e, node display debug schema depth c = .ok e → e.matches debug row = .ok b

section Forms

variable {display debug schema} {row : List (String × Json)} {c v : Json} {cs : List Json}
  {b : Bool} {bs : List Bool} {depth len : ℕ} {field s term : String} {body : Json} {e : Expr}

/-- Nothing compiles too deep. -/
theorem depth_le_of_node (h : node display debug schema depth (.object [(field, body)]) = .ok e) :
    depth ≤ 32 := by
  rw [node] at h
  by_contra hdepth
  rw [if_pos (not_le.mp hdepth)] at h
  cases h

/-- A group is compiled child by child. -/
theorem exists_nodes_of_both (h : node display debug schema depth (both cs) = .ok e) :
    ∃ ts, nodes display debug schema depth cs = .ok ts ∧ e = .all ts := by
  have hdepth := depth_le_of_node h
  rw [both, node, if_neg (not_lt.mpr hdepth), if_pos (.inl rfl)] at h
  obtain ⟨ts, hts, rfl⟩ := map_eq_ok.mp h
  refine ⟨ts, ?_, rfl⟩
  cases cs with
  | nil => cases hts
  | cons c cs => exact hts

theorem runAll_of_nodes (h : List.Forall₂ (Yields display debug schema row) cs bs)
    {ts : List Expr} (hts : nodes display debug schema depth cs = .ok ts) :
    Formula.runAll (PredicateLeaf.matches debug (mapFields row)) ts = .ok (bs.all id) := by
  induction h generalizing ts with
  | nil =>
      cases hts
      rfl
  | @cons c b cs bs hc _ ih =>
      rw [nodes] at hts
      obtain ⟨t, ht, hts⟩ := bind_eq_ok.mp hts
      obtain ⟨ts', hts', heq⟩ := bind_eq_ok.mp hts
      cases heq
      have hrun : Formula.run (PredicateLeaf.matches debug (mapFields row)) t = .ok b := hc _ t ht
      rw [Formula.runAll, hrun, ok_bind, List.all_cons]
      cases b with
      | false => rfl
      | true => exact ih hts'

theorem yields_both (h : List.Forall₂ (Yields display debug schema row) cs bs) :
    Yields display debug schema row (both cs) (bs.all id) := by
  intro depth e he
  obtain ⟨ts, hts, rfl⟩ := exists_nodes_of_both he
  rw [Expr.matches, Formula.run]
  exact runAll_of_nodes h hts

theorem yields_negated (h : Yields display debug schema row c b) :
    Yields display debug schema row (negated c) !b := by
  intro depth e he
  have hdepth := depth_le_of_node he
  rw [negated, node, if_neg (not_lt.mpr hdepth), if_neg (by decide), if_pos rfl] at he
  obtain ⟨t, ht, rfl⟩ := map_eq_ok.mp he
  have hrun : Formula.run (PredicateLeaf.matches debug (mapFields row)) t = .ok b := h _ t ht
  rw [Expr.matches, Formula.run, hrun]
  rfl

/-- A name that is no operator. -/
def IsField (field : String) : Prop := ¬(field = "and" ∨ field = "or") ∧ field ≠ "not"

theorem node_field (hfield : IsField field) (hdepth : depth ≤ 32) :
    node display debug schema depth (.object [(field, body)]) =
      leafNode display debug schema field (.object [(field, body)]) := by
  rw [node, if_neg (not_lt.mpr hdepth), if_neg hfield.1, if_neg hfield.2]

theorem exists_op_of_node (hfield : IsField field)
    (h : node display debug schema depth (.object [(field, body)]) = .ok e) :
    ∃ op, leaf display debug field body = .ok op ∧ e = .leaf ⟨field, op⟩ := by
  rw [node_field hfield (depth_le_of_node h)] at h
  unfold leafNode at h
  split_ifs at h
  split at h
  · cases h
  · next l rest hcompile =>
      obtain ⟨op, hop, heq⟩ := exists_leaf_of_compile hfield.1 hcompile
      cases heq
      split at h
      · cases h
      · split_ifs at h
        cases h
        exact ⟨op, hop, rfl⟩
  · cases h

theorem yields_leaf (hfield : IsField field)
    (h : ∀ op, leaf display debug field body = .ok op →
      PredicateLeaf.matches debug (mapFields row) ⟨field, op⟩ = .ok b) :
    Yields display debug schema row (.object [(field, body)]) b := by
  intro depth e he
  obtain ⟨op, hop, rfl⟩ := exists_op_of_node hfield he
  exact h op hop

theorem matchLeaf_text : matchLeaf display field (.object [("text", .string term)]) =
    ((validateTerm term.toList).mapError fun e ↦ s!"{field}: {e}") >>= fun _ ↦ .ok (.text term) :=
  rfl

theorem matchLeaf_value : matchLeaf display field (.object [("value", v)]) =
    (operand display field v).map fun op ↦ .match [op] := rfl

theorem yields_matchText (hfield : IsField field) (hs : Json.getEntry field row = some (.string s))
    (hb : classify s.toList term.toList = if b then .yes else .no) :
    Yields display debug schema row (matchText field term) b := by
  apply yields_leaf hfield
  intro op hop
  rw [leaf, if_pos rfl, matchLeaf_text] at hop
  obtain ⟨-, -, hop⟩ := bind_eq_ok.mp hop
  cases hop
  have hvalue : mapFields row field = some (.keyword s) := by rw [mapFields, hs]
  rw [PredicateLeaf.matches, hvalue]
  dsimp only
  rw [LeafOp.matches, hb]
  cases b <;> rfl

/-- An operand that compiles is what a predicate sees of its value. -/
theorem mapFields_of_operand {o : Operand} (h : operand display field v = .ok o)
    (hv : (Json.getEntry field row).getD .null = v) :
    (∃ s, o = .keyword s ∧ mapFields row field = some (.keyword s)) ∨
      ∃ n, o = .int n ∧ mapFields row field = some (.int n) := by
  have hentry : v ≠ .null → Json.getEntry field row = some v := by
    intro hne
    cases hrow : Json.getEntry field row with
    | none =>
        rw [hrow] at hv
        exact absurd hv.symm hne
    | some w =>
        rw [hrow] at hv
        exact congrArg some hv
  rw [mapFields]
  cases v with
  | string s =>
      cases h
      rw [hentry Json.noConfusion]
      exact .inl ⟨s, rfl, rfl⟩
  | number n =>
      rw [hentry Json.noConfusion]
      unfold operand at h
      dsimp only [Json.asStr] at h
      split at h
      · next k hk =>
          split_ifs at h
          cases h
          refine .inr ⟨k, rfl, ?_⟩
          dsimp only
          rw [hk]
          rfl
      · cases h
  | null => cases h
  | bool _ => cases h
  | array _ => cases h
  | object _ => cases h

theorem yields_matchValue (hfield : IsField field)
    (hv : (Json.getEntry field row).getD .null = v) :
    Yields display debug schema row (matchValue field v) true := by
  apply yields_leaf hfield
  intro op hop
  rw [leaf, if_pos rfl, matchLeaf_value] at hop
  obtain ⟨o, ho, rfl⟩ := map_eq_ok.mp hop
  rw [PredicateLeaf.matches]
  rcases mapFields_of_operand ho hv with ⟨s, rfl, hs⟩ | ⟨n, rfl, hn⟩
  · rw [hs]
    exact congrArg Except.ok (decide_eq_true rfl)
  · rw [hn]
    exact congrArg Except.ok (decide_eq_true rfl)

theorem exists_number_of_rangeBound {out out' : RangeBounds} {e : String × Json}
    (h : rangeBound debug field out e = .ok out') : ∃ x, exactNumber e.2 = some x := by
  unfold rangeBound at h
  split at h
  · cases h
  · next x hx => exact ⟨x, hx⟩

theorem exists_bounds_of_leaf {lo hi : Json} {op : LeafOp}
    (h : leaf display debug field (.object [("range", .object [("gte", lo), ("lte", hi)])]) =
      .ok op) :
    ∃ x y, exactNumber lo = some x ∧ exactNumber hi = some y ∧
      op = .range none (some x) none (some y) := by
  rw [leaf, if_neg (by decide), if_pos rfl] at h
  obtain ⟨out, hout, h⟩ := bind_eq_ok.mp h
  rw [List.foldlM_cons] at hout
  obtain ⟨lower, hlower, hout⟩ := bind_eq_ok.mp hout
  rw [List.foldlM_cons] at hout
  obtain ⟨upper, hupper, hout⟩ := bind_eq_ok.mp hout
  cases hout
  obtain ⟨x, hx⟩ := exists_number_of_rangeBound hlower
  obtain ⟨y, hy⟩ := exists_number_of_rangeBound hupper
  refine ⟨x, y, hx, hy, ?_⟩
  rw [rangeBound, hx] at hlower
  cases hlower
  rw [rangeBound, hy] at hupper
  cases hupper
  exact (Except.ok.inj h).symm

/-- An unsigned integer that compares exactly. -/
theorem exact_of_exactNumber {n : ℕ} (hn : n < 2 ^ 64) {x : F64}
    (h : exactNumber (.number (.posInt n hn)) = some x) :
    n ≤ 2 ^ 53 + 1 ∧ x = .fin (F64.roundNat n) := by
  have hround : F64.ofInt n = .fin (F64.roundNat n) := by
    rw [F64.ofInt, if_pos (Int.natCast_nonneg n), Int.natAbs_natCast]
  have hvalue : (Json.number (.posInt n hn)).asF64 = some (.fin (F64.roundNat n)) :=
    congrArg some hround
  rw [exactNumber, hvalue] at h
  dsimp only at h
  split_ifs at h with hbound
  cases h
  refine ⟨?_, rfl⟩
  by_contra hlarge
  have hlt := F64.lt_roundNat (by omega : 2 ^ 53 + 2 ≤ n)
  rw [Nat.abs_cast, Nat.cast_le] at hbound
  exact absurd hbound (not_le.mpr hlt)

theorem exists_posInt_of_asU64 (h : v.asU64 = some len) :
    ∃ hlt : len < 2 ^ 64, v = .number (.posInt len hlt) := by
  cases v with
  | number n =>
      cases n with
      | posInt m hm =>
          cases h
          exact ⟨hm, rfl⟩
      | negInt _ _ => cases h
      | float _ => cases h
  | null => cases h
  | bool _ => cases h
  | string _ => cases h
  | array _ => cases h
  | object _ => cases h

/-- The length of a passage is between bounds that compile. -/
theorem yields_between (hfield : IsField field) (hv : Json.getEntry field row = some v)
    (hlen : v.asU64 = some len) :
    Yields display debug schema row
      (between field (.ofNat (len - 16)) (.ofNat (len + 16))) true := by
  apply yields_leaf hfield
  intro op hop
  obtain ⟨x, y, hx, hy, rfl⟩ := exists_bounds_of_leaf hop
  obtain ⟨hlower, rfl⟩ := exact_of_exactNumber _ hx
  obtain ⟨hupper, rfl⟩ := exact_of_exactNumber _ hy
  obtain ⟨hlt, rfl⟩ := exists_posInt_of_asU64 hlen
  -- A bound that has wrapped is too large to compile, so that the length is exact as well.
  have hsmall : len + 15 ≤ 2 ^ 53 := by omega
  have hlo : (len - 16) % 2 ^ 64 = len - 16 := Nat.mod_eq_of_lt (by omega)
  have hhi : (len + 16) % 2 ^ 64 = len + 16 := Nat.mod_eq_of_lt (by omega)
  have hvalue : mapFields row field = some (.int len) := by
    rw [mapFields, hv]
    dsimp only [Json.asI64, Number.asI64]
    rw [if_pos (by omega)]
    rfl
  have hexact : F64.ofInt len = .fin len := F64.ofInt_of_le (i := len) (by omega)
  rw [PredicateLeaf.matches, hvalue, hlo, hhi]
  dsimp only
  rw [LeafOp.matches, if_neg (by rw [Int.natAbs_natCast, maxExactInteger]; omega), hexact]
  have hge : (F64.fin (F64.roundNat (len - 16))).le (.fin len) = true := by
    rw [F64.roundNat_of_le (by omega)]
    exact decide_eq_true (Nat.cast_le.mpr (Nat.sub_le len 16))
  have hle : (F64.fin len).le (.fin (F64.roundNat (len + 16))) = true := by
    refine decide_eq_true (Nat.cast_le.mpr ?_)
    rcases (by omega : len + 16 ≤ 2 ^ 53 ∨ len + 16 = 2 ^ 53 + 1) with hle | heq
    · rw [F64.roundNat_of_le hle]
      exact Nat.le_add_right len 16
    · have hround : F64.roundNat (2 ^ 53 + 1) = 2 ^ 53 := by decide
      rw [heq, hround]
      omega
  simp only [Option.all_none, Option.all_some, hge, hle, Bool.and_self]

end Forms

/-! ## The sample and its index -/

section Sample

variable {u : Unicode} {rows : List Sampled} {row : Json} {r other : Sampled}
  {field term title segment excluded : String}

/-- Both engines agree that the field of the row has its terms. -/
theorem exists_text_of_mem_terms (h : term ∈ terms u row field) :
    ∃ obj text, row = .object obj ∧ Json.getEntry field obj = some (.string text) ∧
      strAt row field = some text ∧ classify text.toList term.toList = .yes := by
  unfold terms at h
  split at h
  · next text htext =>
      obtain ⟨v, hv, hstr⟩ := Option.bind_eq_some_iff.mp htext
      have hagreed := (List.mem_filter.mp h).2
      rw [isAgreed, Bool.and_eq_true, decide_eq_true_eq] at hagreed
      cases row with
      | object obj =>
          cases v with
          | string s =>
              cases hstr
              exact ⟨obj, text, rfl, hv, htext, hagreed.2⟩
          | null => cases hstr
          | bool _ => cases hstr
          | number _ => cases hstr
          | array _ => cases hstr
          | object _ => cases hstr
      | null => cases hv
      | bool _ => cases hv
      | number _ => cases hv
      | string _ => cases hv
      | array _ => cases hv
  · cases h

theorem eq_sampleRow_of_mem {lines : List (Except String Json)} (h : sample u lines = .ok rows) :
    ∀ r ∈ rows, r = sampleRow u r.row := by
  intro r hr
  obtain ⟨i, hi, rfl⟩ := List.getElem_of_mem hr
  have hall := mapM_eq_ok.mp h
  have hi' : i < (lines.take 4096).length := hall.length_eq ▸ hi
  obtain ⟨row, -, hrow⟩ := map_eq_ok.mp ((List.forall₂_iff_get.mp hall).2 i hi' hi)
  have heq : sampleRow u row = rows[i] := hrow
  rw [← heq]
  rfl

theorem mem_segmentRows (h : r ∈ segmentRows rows term) : r ∈ rows ∧ term ∈ r.segment := by
  obtain ⟨r', hr', h⟩ := List.mem_flatMap.mp h
  obtain ⟨t, ht, rfl⟩ := List.mem_map.mp h
  obtain ⟨hmem, heq⟩ := List.mem_filter.mp ht
  rw [← of_decide_eq_true heq]
  exact ⟨hr', hmem⟩

theorem exists_row_of_mem_candidates (h : term ∈ candidates rows title segment) :
    ∃ other ∈ rows, segment ∈ other.segment ∧ term ∈ other.title ∧
      classify title.toList term.toList = .no := by
  obtain ⟨other, hother, hterm⟩ := List.mem_flatMap.mp h
  obtain ⟨hmem, hsegment⟩ := mem_segmentRows hother
  obtain ⟨htitle, hno⟩ := List.mem_filter.mp hterm
  exact ⟨other, hmem, hsegment, htitle, of_decide_eq_true hno⟩

theorem foldl_outranks_mem (c : String × ℕ) (cs : List (String × ℕ)) :
    cs.foldl (fun best c ↦ if outranks best c then best else c) c ∈ c :: cs := by
  induction cs generalizing c with
  | nil => exact List.mem_cons_self
  | cons d cs ih =>
      rw [List.foldl_cons]
      split_ifs
      · rcases List.mem_cons.mp (ih c) with heq | hmem
        · rw [heq]
          exact List.mem_cons_self
        · exact List.mem_cons_of_mem c (List.mem_cons_of_mem d hmem)
      · exact List.mem_cons_of_mem c (ih d)

/-- The excluded term is a candidate, however ties are broken. -/
theorem mem_of_exclusion (h : exclusion rows title segment = some term) :
    term ∈ candidates rows title segment := by
  obtain ⟨best, hbest, rfl⟩ := Option.map_eq_some_iff.mp h
  have hmem : best ∈ tallied (candidates rows title segment) := by
    cases hcs : tallied (candidates rows title segment) with
    | nil =>
        rw [hcs] at hbest
        cases hbest
    | cons c cs =>
        rw [hcs] at hbest
        cases hbest
        exact foldl_outranks_mem c cs
  obtain ⟨t, ht, rfl⟩ := List.mem_map.mp hmem
  exact mem_distinct.mp ((List.mem_insertionSort _).mp ht)

end Sample

/-! ## The queries of a passage -/

section Groups

variable {display debug schema} {u : Unicode} {rows : List Sampled} {seed : Sampled}
  {queries text group loaded : List Query} {row : Json} {obj : List (String × Json)} {i len : ℕ}
  {title segment excluded titleText segmentText : String}

/-- A passage gives the truth `b` to a query. -/
def Gives (display : Json → String) (debug : String → String) (schema row : Json) (q : Query)
    (b : Bool) : Prop :=
  ∃ obj e, row = .object obj ∧ Expr.compile display debug schema q.conditions = .ok e ∧
    e.matches debug obj = .ok b

/-- What compiles of the five conditions holds of the passage they are made for. -/
theorem families_yield (hrow : row = .object obj)
    (htitle : Json.getEntry "title" obj = some (.string titleText))
    (hsegment : Json.getEntry "segment" obj = some (.string segmentText))
    (hhas : classify titleText.toList title.toList = .yes)
    (hin : classify segmentText.toList segment.toList = .yes)
    (hlacks : classify titleText.toList excluded.toList = .no)
    (hlen : (row.get "doc_len").bind Json.asU64 = some len) :
    ∀ e ∈ families row title segment excluded len, Yields display debug schema obj e.2 true := by
  subst hrow
  have hfield : IsField "title" ∧ IsField "segment" ∧ IsField "category" ∧ IsField "doc_len" := by
    simp only [IsField]
    decide
  obtain ⟨htitleField, hsegmentField, hcategoryField, hlenField⟩ := hfield
  have hseg : Yields display debug schema obj (matchText "segment" segment) true :=
    yields_matchText hsegmentField hsegment hin
  have htit : Yields display debug schema obj (matchText "title" title) true :=
    yields_matchText htitleField htitle hhas
  have hexc : Yields display debug schema obj (negated (matchText "title" excluded)) true :=
    yields_negated (b := false) (yields_matchText htitleField htitle hlacks)
  have hcat : Yields display debug schema obj
      (matchValue "category" (categoryOf (.object obj))) true :=
        yields_matchValue hcategoryField rfl
  obtain ⟨v, hv, hvlen⟩ := Option.bind_eq_some_iff.mp hlen
  have hrange : Yields display debug schema obj
      (between "doc_len" (.ofNat (len - 16)) (.ofNat (len + 16))) true :=
    yields_between hlenField hv hvlen
  have htitleAndSegment := yields_both (.cons htit (.cons hseg .nil))
  have htagAndText := yields_both (.cons hcat (.cons hseg .nil))
  have htextTagRange := yields_both (.cons hseg (.cons hcat (.cons hrange .nil)))
  have htextExclusion := yields_both (.cons hseg (.cons hexc .nil))
  rw [families]
  simp only [List.forall_mem_cons]
  exact ⟨hseg, htitleAndSegment, htagAndText, htextTagRange, htextExclusion,
    fun _ h ↦ absurd h List.not_mem_nil⟩

theorem seedQueries_cases (h : seedQueries rows i seed = .ok group) :
    group = [] ∨ ∃ title ∈ seed.title, ∃ segment ∈ seed.segment, ∃ excluded len,
      exclusion rows ((strAt seed.row "title").getD "") segment = some excluded ∧
        (seed.row.get "doc_len").bind Json.asU64 = some len ∧
        group = (families seed.row title segment excluded len).map (familyQuery i) := by
  unfold seedQueries at h
  split at h
  · next title _ segment _ htitle hsegment =>
      split at h
      · cases h
        exact .inl rfl
      · next excluded hexcluded =>
          split at h
          · cases h
          · next len hlen =>
              cases h
              rw [htitle, hsegment]
              exact .inr ⟨title, List.mem_cons_self, segment, List.mem_cons_self, excluded, len,
                hexcluded, hlen, rfl⟩
  · cases h
    exact .inl rfl

/-- The text queries are groups, one for each passage that has some. -/
theorem exists_groups {seeds : List Sampled} (h : seedsFrom rows queries seeds = .ok text) :
    ∃ groups : List (List Query), text = queries ++ groups.flatten ∧
      ∀ g ∈ groups, g ≠ [] ∧ ∃ seed ∈ seeds, ∃ i, seedQueries rows i seed = .ok g := by
  induction seeds generalizing queries with
  | nil =>
      cases h
      exact ⟨[], (List.append_nil _).symm, fun _ hg ↦ absurd hg List.not_mem_nil⟩
  | cons seed seeds ih =>
      rw [seedsFrom] at h
      split_ifs at h
      · cases h
        exact ⟨[], (List.append_nil _).symm, fun _ hg ↦ absurd hg List.not_mem_nil⟩
      · obtain ⟨group, hgroup, h⟩ := bind_eq_ok.mp h
        obtain ⟨groups, rfl, hgroups⟩ := ih h
        have hlater : ∀ g ∈ groups, g ≠ [] ∧ ∃ seed' ∈ seed :: seeds, ∃ i,
            seedQueries rows i seed' = .ok g := by
          intro g hg
          obtain ⟨hne, seed', hseed', hi⟩ := hgroups g hg
          exact ⟨hne, seed', List.mem_cons_of_mem seed hseed', hi⟩
        by_cases hne : group = []
        · subst hne
          exact ⟨groups, by rw [List.append_nil], hlater⟩
        · refine ⟨group :: groups, ?_, ?_⟩
          · rw [List.flatten_cons, List.append_assoc]
          · rw [List.forall_mem_cons]
            exact ⟨⟨hne, seed, List.mem_cons_self, _, hgroup⟩, hlater⟩

/-- What a group of text queries has in a sample; of a family that is left out nothing is said. -/
structure Witnessed (display : Json → String) (debug : String → String) (schema : Json)
    (rows : List Sampled) (loaded group : List Query) : Prop where
  five : group.map Query.family =
    ["segment", "title-and-segment", "tag-and-text", "text-tag-range", "text-exclusion"]
  seed : ∃ r ∈ rows, ∀ q ∈ group, q ∈ loaded → Gives display debug schema r.row q true
  /-- The plain query finds a passage that the exclusion takes away. -/
  removed : ∀ q ∈ group, q.family = "text-exclusion" → q ∈ loaded →
    ∃ r ∈ rows, Gives display debug schema r.row q false ∧
      ∃ plain ∈ group, plain.family = "segment" ∧ Gives display debug schema r.row plain true

/-- The first child of a group compiles by itself. -/
theorem exists_compile_of_both {field : String} {body c : Json} {e : Expr} (hfield : IsField field)
    (h : Expr.compile display debug schema (both [.object [(field, body)], c]) = .ok e) :
    ∃ t, Expr.compile display debug schema (.object [(field, body)]) = .ok t := by
  obtain ⟨ts, hts, -⟩ := exists_nodes_of_both h
  rw [nodes] at hts
  obtain ⟨t, ht, -⟩ := bind_eq_ok.mp hts
  refine ⟨t, ?_⟩
  rw [node_field hfield (by decide)] at ht
  rw [Expr.compile, node_field hfield (by decide)]
  exact ht

/-- A passage with the segment term and the excluded one is found by the plain query only. -/
theorem gives_of_excluded {excl plain : Query} (hsegment : segment ∈ terms u row "segment")
    (htitle : excluded ∈ terms u row "title")
    (hexcl : excl.conditions =
      both [matchText "segment" segment, negated (matchText "title" excluded)])
    (hplain : plain.conditions = matchText "segment" segment)
    (hcompile : ∃ e, Expr.compile display debug schema excl.conditions = .ok e) :
    Gives display debug schema row excl false ∧ Gives display debug schema row plain true := by
  obtain ⟨obj, segmentText, hrow, hsegmentAt, -, hin⟩ := exists_text_of_mem_terms hsegment
  obtain ⟨obj', titleText, hrow', htitleAt, -, hhas⟩ := exists_text_of_mem_terms htitle
  cases hrow.symm.trans hrow'
  have htitleField : IsField "title" := by
    rw [IsField]
    decide
  have hsegmentField : IsField "segment" := by
    rw [IsField]
    decide
  have hseg : Yields display debug schema obj (matchText "segment" segment) true :=
    yields_matchText hsegmentField hsegmentAt hin
  have htit : Yields display debug schema obj (negated (matchText "title" excluded)) false :=
    yields_negated (b := true) (yields_matchText htitleField htitleAt hhas)
  obtain ⟨e, he⟩ := hcompile
  rw [hexcl] at he
  obtain ⟨t, ht⟩ := exists_compile_of_both hsegmentField he
  constructor
  · have hboth := yields_both (.cons hseg (.cons htit .nil))
    exact ⟨obj, e, hrow, hexcl ▸ he, hboth 0 e he⟩
  · exact ⟨obj, t, hrow, hplain ▸ ht, hseg 0 t ht⟩

theorem witnessed_of_seed (hsample : ∀ r ∈ rows, r = sampleRow u r.row) (hseed : seed ∈ rows)
    (hgroup : seedQueries rows i seed = .ok group) (hne : group ≠ [])
    (hloaded : ∀ q ∈ loaded, ∃ e, Expr.compile display debug schema q.conditions = .ok e) :
    Witnessed display debug schema rows loaded group := by
  obtain ⟨title, htitle, segment, hsegment, excluded, len, hexcluded, hlen, rfl⟩ :=
    (seedQueries_cases hgroup).resolve_left hne
  rw [hsample seed hseed] at htitle hsegment
  obtain ⟨obj, titleText, hrow, htitleAt, htitleStr, hhas⟩ := exists_text_of_mem_terms htitle
  obtain ⟨obj', segmentText, hrow', hsegmentAt, -, hin⟩ := exists_text_of_mem_terms hsegment
  rw [htitleStr, Option.getD_some] at hexcluded
  obtain ⟨other, hother, hotherSegment, hotherTitle, hlacks⟩ :=
    exists_row_of_mem_candidates (mem_of_exclusion hexcluded)
  rw [hsample other hother] at hotherSegment hotherTitle
  cases hrow.symm.trans hrow'
  constructor
  · rfl
  · refine ⟨seed, hseed, fun q hq hmem ↦ ?_⟩
    obtain ⟨c, hc, rfl⟩ := List.mem_map.mp hq
    obtain ⟨e, he⟩ := hloaded _ hmem
    have hyields : Yields display debug schema obj c.2 true :=
      families_yield hrow htitleAt hsegmentAt hhas hin hlacks hlen c hc
    exact ⟨obj, e, hrow, he, hyields 0 e he⟩
  · intro q hq hfamily hmem
    have hconditions : q.conditions =
        both [matchText "segment" segment, negated (matchText "title" excluded)] := by
      simp only [families, List.map_cons, List.map_nil, List.mem_cons, List.not_mem_nil,
        or_false] at hq
      rcases hq with rfl | rfl | rfl | rfl | rfl
      · exact absurd hfamily (by decide : "segment" ≠ "text-exclusion")
      · exact absurd hfamily (by decide : "title-and-segment" ≠ "text-exclusion")
      · exact absurd hfamily (by decide : "tag-and-text" ≠ "text-exclusion")
      · exact absurd hfamily (by decide : "text-tag-range" ≠ "text-exclusion")
      · rfl
    have hplain : (familyQuery i ("segment", matchText "segment" segment)).conditions =
        matchText "segment" segment := rfl
    obtain ⟨hfalse, htrue⟩ :=
      gives_of_excluded hotherSegment hotherTitle hconditions hplain (hloaded q hmem)
    exact ⟨other, hother, hfalse, _, List.mem_cons_self, rfl, htrue⟩

/-! ## Loading -/

theorem exists_compile_of_checkQueries
    (h : checkQueries display debug schema queries = .ok ()) :
    ∀ q ∈ queries, ∃ e, Expr.compile display debug schema q.conditions = .ok e := by
  rw [checkQueries] at h
  split_ifs at h
  obtain ⟨names, hnames, -⟩ := map_eq_ok.mp h
  intro q hq
  obtain ⟨names, names', hround⟩ := exists_round_of_foldlM hnames q hq
  rw [checkQuery] at hround
  split_ifs at hround
  obtain ⟨e, he, -⟩ := bind_eq_ok.mp hround
  exact ⟨e, he⟩

theorem queries_eq_none_of_validate {spec : Spec} {suite : String}
    (hsuite : spec.suite = some suite)
    (h : spec.validate = .ok ()) : spec.queries = none := by
  cases hqueries : spec.queries with
  | none => rfl
  | some queries =>
      rw [Spec.validate, hsuite, hqueries] at h
      cases h

/-- The text queries of a suite that loads have their witnesses in the sample. -/
theorem load_witnessed (u : Unicode) {spec : Spec} {corpus : Corpus}
    (hsuite : spec.suite = some "msmarco-v1")
    (h : spec.load u display debug corpus schema = .ok loaded) :
    ∃ lines rows groups, corpus.payloads = .ok lines ∧ sample u lines = .ok rows ∧
      textQueries rows = .ok (List.flatten groups) ∧ groups ≠ [] ∧
      (spec.family = none → ∀ g ∈ groups, ∀ q ∈ g, q ∈ loaded) ∧
      ∀ g ∈ groups, Witnessed display debug schema rows loaded g := by
  obtain ⟨⟨⟩, hvalidate, h⟩ := bind_eq_ok.mp h
  obtain ⟨queries, hqueries, h⟩ := bind_eq_ok.mp h
  obtain ⟨⟨⟩, hcheck, h⟩ := bind_eq_ok.mp h
  cases h
  rw [queries_eq_none_of_validate hsuite hvalidate, Option.elim_none] at hqueries
  obtain ⟨lines, hlines, hqueries⟩ := bind_eq_ok.mp hqueries
  obtain ⟨rows, hrows, hqueries⟩ := bind_eq_ok.mp hqueries
  obtain ⟨text, htext, hqueries⟩ := bind_eq_ok.mp hqueries
  obtain ⟨⟨⟩, hne, hqueries⟩ := bind_eq_ok.mp hqueries
  obtain ⟨scalar, -, hqueries⟩ := bind_eq_ok.mp hqueries
  cases hqueries
  obtain ⟨groups, rfl, hgroups⟩ := exists_groups htext
  rw [List.nil_append] at htext hne hcheck ⊢
  refine ⟨lines, rows, groups, hlines, hrows, htext, ?_, ?_, ?_⟩
  · rintro rfl
    cases hne
  · intro hfamily g hg q hq
    rw [Spec.select, hfamily]
    exact List.mem_append_left scalar (List.mem_flatten.mpr ⟨g, hg, hq⟩)
  · intro g hg
    obtain ⟨hfull, seed, hseed, i, hseeded⟩ := hgroups g hg
    exact witnessed_of_seed (eq_sampleRow_of_mem hrows) hseed hseeded hfull
      (exists_compile_of_checkQueries hcheck)

end Groups

/-! ## A corpus of two passages -/

def passage (title segment category : String) (len : ℕ) : Json :=
  .object [("title", .string title), ("segment", .string segment),
    ("category", .string category), ("doc_len", .ofNat len)]

def forest : Corpus where
  payloads := .ok [.ok (passage "Red Fox" "The forest at night" "animals" 20),
    .ok (passage "Grey Owl" "A Forest of birds" "birds" 9)]
  manifest := .ok (.object [("dataset", .string "forest"), ("passages", .ofNat 2)])
  queries _ _ := .ok (some
    { conditions := [some (both [matchValue "category" (.string "birds")])]
      prepared := some [⟨"forest-filter-000", "keyword", 1⟩] })

def forestSchema : Json :=
  .object [("title", .string "text"), ("segment", .string "text"),
    ("category", .string "keyword"), ("doc_len", .string "int")]

def forestSpec : Spec := ⟨some "msmarco-v1", none, none⟩

/-- The suite as it is loaded; what values and strings print as does not matter. -/
def forestQueries : Except String (List Query) :=
  forestSpec.load basicUnicode (fun _ ↦ "") (fun s ↦ s) forest forestSchema

theorem load_witnessed_forest : ∃ loaded, forestQueries = .ok loaded ∧ loaded.length = 11 ∧
    ∃ lines rows groups, forest.payloads = .ok lines ∧ sample basicUnicode lines = .ok rows ∧
      textQueries rows = .ok (List.flatten groups) ∧ groups ≠ [] ∧
      (forestSpec.family = none → ∀ g ∈ groups, ∀ q ∈ g, q ∈ loaded) ∧
      ∀ g ∈ groups, Witnessed (fun _ ↦ "") (fun s ↦ s) forestSchema rows loaded g := by
  have hload : (forestQueries.toOption.map fun loaded ↦ loaded.length) = some 11 := by
    decide +kernel
  obtain ⟨loaded, hloaded, hlength⟩ := Option.map_eq_some_iff.mp hload
  have hok := toOption_eq_some.mp hloaded
  exact ⟨loaded, hok, hlength, load_witnessed basicUnicode rfl hok⟩

end VectorDbBenchmark.CompoundText
