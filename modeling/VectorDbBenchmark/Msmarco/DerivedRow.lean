import VectorDbBenchmark.Kit.LastWins
import VectorDbBenchmark.Msmarco.HybridCorpus

/-!
# Derived rows

The compact rows of `src/msmarco/derived.rs`: derived fields in the ranges that the derivation
gives them, what the leaves of a predicate make of them, and the payload maps they are written
into (`insert_into`), with the fields of a map as a predicate sees them.
-/

namespace VectorDbBenchmark.Msmarco

open Kit

def docLenMin : ℕ := 2 ^ 4

def docLenMax : ℕ := 2 ^ 16 - 1

def randKeySpan : ℕ := 2 ^ 40

/-- Derived fields within the ranges of the derivation. -/
structure DerivedRow extends DerivedFields where
  category_lt : category.toNat < categoryNames.length
  docLen_mem : docLen.toNat ∈ Set.Icc docLenMin docLenMax
  tier_lt : tier.toNat < tierCount
  randKey_lt : randKey.toNat < randKeySpan

/-! ## The derivation -/

theorem zipfBucket_lt {ws : List ℕ} {r : ℕ} (h : r < ws.sum) : zipfBucket ws r < ws.length := by
  induction ws generalizing r with
  | nil => exact absurd h (Nat.not_lt_zero r)
  | cons w ws ih =>
      rw [List.sum_cons] at h
      rw [zipfBucket, List.length_cons]
      split_ifs with hw
      · exact Nat.succ_lt_succ (ih (Nat.sub_lt_left_of_lt_add hw h))
      · exact Nat.succ_pos _

section Derivation

variable (env : HybridEnv) (docid : String)

/-- A word of a digest. -/
theorem ofLe_take_lt (bs : Bytes) (i : ℕ) : ofLe ((bs.drop i).take 8).reverse < 2 ^ 64 := by
  calc
    _ < 256 ^ ((bs.drop i).take 8).reverse.length := ofLe_lt _
    _ ≤ 256 ^ 8 := Nat.pow_le_pow_right (Nat.succ_pos _)
      (List.length_reverse.trans_le (List.length_take_le _ _))
    _ = 2 ^ 64 := by norm_num

namespace DerivedFields

theorem category_fromDocid_lt : (fromDocid env docid).category.toNat < categoryNames.length := by
  have hbucket : ∀ n, zipfBucket categoryWeights (n % categoryWeightTotal) < 32 :=
    fun n ↦ zipfBucket_lt (Nat.mod_lt n (by decide))
  rw [fromDocid]
  dsimp only
  rw [UInt8.toNat_ofNat', Nat.mod_eq_of_lt ((hbucket _).trans (by decide))]
  exact hbucket _

theorem docLen_fromDocid_mem :
    (fromDocid env docid).docLen.toNat ∈ Set.Icc docLenMin docLenMax := by
  have hrange : ∀ w,
      2 ^ (4 + w % 12) + w / 2 ^ 32 % 2 ^ (4 + w % 12) ∈ Set.Icc docLenMin docLenMax := by
    intro w
    have he : w % 12 ≤ 11 := Nat.le_of_lt_succ (Nat.mod_lt w (Nat.succ_pos 11))
    have hmod : w / 2 ^ 32 % 2 ^ (4 + w % 12) < 2 ^ (4 + w % 12) := Nat.mod_lt _ (Nat.two_pow_pos _)
    have hlow : 2 ^ 4 ≤ 2 ^ (4 + w % 12) := Nat.pow_le_pow_right Nat.two_pos (Nat.le_add_right _ _)
    have hhigh : 2 ^ (4 + w % 12) ≤ 2 ^ 15 :=
      Nat.pow_le_pow_right Nat.two_pos (Nat.add_le_add_left he 4)
    rw [Set.mem_Icc, docLenMin, docLenMax]
    omega
  rw [fromDocid]
  dsimp only
  rw [UInt32.toNat_ofNat', Nat.mod_eq_of_lt ((hrange _).2.trans_lt (by decide))]
  exact hrange _

theorem tier_fromDocid_lt : (fromDocid env docid).tier.toNat < tierCount := by
  have hmod : ∀ n, n % tierCount < tierCount := fun n ↦ Nat.mod_lt n (by decide)
  rw [fromDocid]
  dsimp only
  rw [UInt8.toNat_ofNat', Nat.mod_eq_of_lt ((hmod _).trans (by decide))]
  exact hmod _

theorem randKey_fromDocid_lt : (fromDocid env docid).randKey.toNat < randKeySpan := by
  rw [fromDocid]
  dsimp only
  have hword := ofLe_take_lt (env.sha256 (derivationSalt ++ docid.toUTF8.toList)) (8 * 3)
  rw [UInt64.toNat_ofNat', randKeySpan]
  omega

end DerivedFields

end Derivation

def sampleRow : DerivedRow where
  category := 7
  docLen := 300
  tier := 3
  randKey := 41
  category_lt := Nat.le_of_ble_eq_true rfl
  docLen_mem := ⟨Nat.le_of_ble_eq_true rfl, Nat.le_of_ble_eq_true rfl⟩
  tier_lt := Nat.le_of_ble_eq_true rfl
  randKey_lt := Nat.le_of_ble_eq_true rfl

/-! ## Operations on the values -/

/-- The operations that do not fail on a keyword. -/
def LeafOp.OnKeyword : LeafOp → Prop
  | .match ops => ∀ op ∈ ops, ∃ s, op = .keyword s
  | .range .. => False
  | .text term => validateTerm term.toList = .ok ()

/-- The operations that do not fail on an integer. -/
def LeafOp.OnInt : LeafOp → Prop
  | .match ops => ∀ op ∈ ops, ∃ n, op = .int n
  | .range .. => True
  | .text _ => False

section Values

variable {debug : String → String} {field : String}

theorem hitKeyword_ok_iff (s : String) (hit : Bool) (op : Operand) :
    (∃ b, hitKeyword field s hit op = .ok b) ↔ ∃ k, op = .keyword k := by
  cases op with
  | keyword k => exact iff_of_true ⟨_, rfl⟩ ⟨k, rfl⟩
  | int n =>
      apply iff_of_false
      · rintro ⟨b, ⟨⟩⟩
      · rintro ⟨k, ⟨⟩⟩

theorem hitInt_ok_iff (n : ℤ) (hit : Bool) (op : Operand) :
    (∃ b, hitInt field n hit op = .ok b) ↔ ∃ k, op = .int k := by
  cases op with
  | int k => exact iff_of_true ⟨_, rfl⟩ ⟨k, rfl⟩
  | keyword s =>
      apply iff_of_false
      · rintro ⟨b, ⟨⟩⟩
      · rintro ⟨k, ⟨⟩⟩

theorem matches_unknown (op : LeafOp) :
    op.matches debug field .unknown = .error (unknownField field) := by
  cases op <;> rfl

/-- An integer that is compared exactly. -/
theorem matches_int_ok_iff {op : LeafOp} {n : ℤ} (hn : n.natAbs ≤ maxExactInteger) :
    (∃ b, op.matches debug field (.int n) = .ok b) ↔ op.OnInt := by
  cases op with
  | «match» ops => exact foldlM_ok_iff (hitInt_ok_iff n) false
  | range gt gte lt lte =>
      rw [LeafOp.matches, if_neg (not_lt.mpr hn)]
      exact iff_of_true ⟨_, rfl⟩ trivial
  | text term =>
      apply iff_of_false
      · rintro ⟨b, ⟨⟩⟩
      · exact id

/-- A keyword that no term is ambiguous for. -/
theorem matches_keyword_ok_iff {op : LeafOp} {s : String}
    (hs : ∀ term, validateTerm term = .ok () → classify s.toList term = .no) :
    (∃ b, op.matches debug field (.keyword s) = .ok b) ↔ op.OnKeyword := by
  cases op with
  | «match» ops => exact foldlM_ok_iff (hitKeyword_ok_iff s) false
  | range gt gte lt lte =>
      apply iff_of_false
      · rintro ⟨b, ⟨⟩⟩
      · exact id
  | text term =>
      rw [LeafOp.matches, LeafOp.OnKeyword]
      cases hterm : validateTerm term.toList with
      | ok _ =>
          rw [hs term.toList hterm]
          exact iff_of_true ⟨_, rfl⟩ rfl
      | error e =>
          rw [classify, hterm]
          apply iff_of_false
          · rintro ⟨b, ⟨⟩⟩
          · rintro ⟨⟩

end Values

/-! ## Categories -/

/-- A single run with a character that is no letter is no term. -/
theorem classify_eq_no {chars term : Text} (hruns : asciiRuns chars = [(0, chars.length)])
    (hlen : chars.length ≤ luceneMaxTokenLen)
    (hfold : chars.any (fun c ↦ (asciiFold c).isSome) = false)
    (hother : chars.all (fun c ↦ c.toLower.isLower) = false)
    (hterm : validateTerm term = .ok ()) : classify chars term = .no := by
  obtain ⟨-, -, hlower⟩ := validateTerm_eq_ok hterm
  have hrun : classifyRuns chars term = .no := by
    rw [classifyRuns_eq_no, hruns]
    intro run hrun
    rw [List.mem_singleton] at hrun
    subst hrun
    have hslice : slice chars (0, chars.length) = chars := by
      rw [slice, List.drop_zero, Nat.sub_zero, List.take_length]
    rw [classifyRun]
    dsimp only
    rw [Nat.sub_zero, if_neg (not_lt.mpr hlen), if_pos]
    by_contra hspell
    rw [not_or, not_not, not_not, hslice, byteLen_of_lower hlower] at hspell
    obtain ⟨hsize, hzip⟩ := hspell
    -- every character of the run spells a letter of the term
    refine Bool.false_ne_true (hother.symm.trans (List.all_eq_true.mpr fun c hc ↦ ?_))
    obtain ⟨i, hi, rfl⟩ := List.getElem_of_mem hc
    have hi' : i < term.length := hsize ▸ hi
    have hpair : (chars[i], term[i]) ∈ chars.zip term :=
      List.mem_iff_getElem.mpr ⟨i, by rw [List.length_zip]; exact lt_min hi hi', List.getElem_zip⟩
    have heq := of_decide_eq_true (List.all_eq_true.mp hzip _ hpair)
    rw [heq]
    exact List.all_eq_true.mp hlower _ (List.getElem_mem hi')
  rw [classify, hterm, hrun]
  dsimp only
  rw [foldedCouldSpell, hfold]
  rfl

/-- No term is the name of a category. -/
theorem classify_category {s : String} (hs : s ∈ categoryNames) {term : Text}
    (hterm : validateTerm term = .ok ()) : classify s.toList term = .no := by
  have hall : categoryNames.all (fun s ↦ asciiRuns s.toList = [(0, s.toList.length)] &&
      s.toList.length ≤ luceneMaxTokenLen &&
      !s.toList.any (fun c ↦ (asciiFold c).isSome) &&
      !s.toList.all fun c ↦ c.toLower.isLower) = true := by decide
  have hname := List.all_eq_true.mp hall s hs
  simp only [Bool.and_eq_true, decide_eq_true_eq, Bool.not_eq_true'] at hname
  obtain ⟨⟨⟨hruns, hlen⟩, hfold⟩, hother⟩ := hname
  exact classify_eq_no hruns hlen hfold hother hterm

namespace DerivedRow

variable (row : DerivedRow)

theorem categoryName_mem : row.categoryName ∈ categoryNames := by
  rw [DerivedFields.categoryName, List.getElem?_eq_getElem row.category_lt, Option.getD_some]
  exact List.getElem_mem row.category_lt

theorem toInt_randKey : (Int64.ofNat row.randKey.toNat).toInt = row.randKey.toNat := by
  have hlt : row.randKey.toNat < 2 ^ 40 := row.randKey_lt
  exact Int64.toInt_ofNat_of_lt (by omega)

end DerivedRow

/-! ## Leaves -/

/-- The leaves that do not fail on a derived row. -/
def PredicateLeaf.WellTyped (l : PredicateLeaf) : Prop :=
  if l.field = "category" then l.leaf.OnKeyword
  else l.field ∈ derivedFields ∧ l.leaf.OnInt

/-- Whether a leaf fails does not depend on the row. -/
theorem DerivedRow.matches_ok_iff (debug : String → String) (row : DerivedRow) (l : PredicateLeaf) :
    (∃ b, l.matches debug row.field = .ok b) ↔ l.WellTyped := by
  have hkeyword := @matches_keyword_ok_iff debug l.field l.leaf row.categoryName
    fun _ hterm ↦ classify_category row.categoryName_mem hterm
  have hint := fun n : ℕ ↦ @matches_int_ok_iff debug l.field l.leaf n
  have hlen : row.docLen.toNat ≤ maxExactInteger := row.docLen_mem.2.trans (by decide)
  have htier : row.tier.toNat ≤ maxExactInteger := row.tier_lt.le.trans (by decide)
  have hkey : row.randKey.toNat ≤ maxExactInteger := row.randKey_lt.le.trans (by decide)
  have hmem : ∀ {name}, l.field = name → name ∈ derivedFields → l.field ∈ derivedFields :=
    fun h hname ↦ h ▸ hname
  rw [PredicateLeaf.matches, PredicateLeaf.WellTyped, DerivedFields.field]
  dsimp only
  by_cases hcat : l.field = "category"
  · rw [if_pos hcat, if_pos hcat]
    exact hkeyword
  · rw [if_neg hcat, if_neg hcat]
    split_ifs with h₁ h₂ h₃
    · exact (hint _ hlen).trans (and_iff_right (hmem h₁ (by decide))).symm
    · exact (hint _ htier).trans (and_iff_right (hmem h₂ (by decide))).symm
    · rw [row.toInt_randKey]
      exact (hint _ hkey).trans (and_iff_right (hmem h₃ (by decide))).symm
    · apply iff_of_false
      · rintro ⟨b, hb⟩
        rw [matches_unknown] at hb
        cases hb
      · rintro ⟨hfield, -⟩
        rw [derivedFields] at hfield
        simp only [List.mem_cons, List.not_mem_nil, or_false] at hfield
        rcases hfield with h | h | h | h
        · exact hcat h
        · exact h₁ h
        · exact h₂ h
        · exact h₃ h

/-! ## Payload maps -/

/-- The fields of a payload map. -/
def payloadFields (payload : List (String × Json)) : Fields := fun name ↦
  match Json.getEntry name payload with
  | none => none
  | some .null => none
  | some (.string s) => some (.keyword s)
  | some v => some ((v.asI64.map .int).getD .other)

section Insert

variable (display : Json → String)

/-- One derived field into a payload; another value there is refused. -/
def insertField (payload : List (String × Json)) (field : String × Json) :
    Except String (List (String × Json)) :=
  let inserted := insertKey field.1 field.2 payload
  match Json.getEntry field.1 payload with
  | none => .ok inserted
  | some existing =>
    if !existing.eq field.2 then
      .error (s!"payload already holds {field.1}={display existing} but the derivation gives " ++
        s!"{display field.2}; refusing to overwrite (different derivation, or an upstream field " ++
        "with the same name)")
    else .ok inserted

def DerivedFields.insertInto (d : DerivedFields) (payload : List (String × Json)) :
    Except String (List (String × Json)) :=
  d.toJsonFields.foldlM (insertField display) payload

end Insert

/-! ## What is inserted -/

variable {display : Json → String} {payload payload' : List (String × Json)}

theorem getEntry_insertKey (key k : String) (v : Json) (es : List (String × Json)) :
    Json.getEntry k (insertKey key v es) = if key = k then some v else Json.getEntry k es := by
  rw [Json.getEntry_eq_lookup, Json.getEntry_eq_lookup, lookup_insertKey]
  exact ite_congr (propext eq_comm) (fun _ ↦ rfl) fun _ ↦ rfl

theorem insertField_eq_ok {field : String × Json}
    (h : insertField display payload field = .ok payload') :
    payload' = insertKey field.1 field.2 payload := by
  rw [insertField] at h
  cases hget : Json.getEntry field.1 payload with
  | none =>
      rw [hget] at h
      cases h
      rfl
  | some existing =>
      rw [hget] at h
      dsimp only at h
      split_ifs at h
      cases h
      rfl

/-- Every field is there afterwards, and nothing else has changed. -/
theorem getEntry_of_insertFields {fields : List (String × Json)}
    (hnodup : (fields.map Prod.fst).Nodup)
    (h : fields.foldlM (insertField display) payload = .ok payload') :
    (∀ field ∈ fields, Json.getEntry field.1 payload' = some field.2) ∧
      ∀ k ∉ fields.map Prod.fst, Json.getEntry k payload' = Json.getEntry k payload := by
  induction fields generalizing payload with
  | nil =>
      cases h
      exact ⟨fun field hfield ↦ absurd hfield List.not_mem_nil, fun _ _ ↦ rfl⟩
  | cons field fields ih =>
      rw [List.map_cons, List.nodup_cons] at hnodup
      rw [List.foldlM_cons] at h
      obtain ⟨inserted, hfield, h⟩ := bind_eq_ok.mp h
      obtain ⟨hall, hrest⟩ := ih hnodup.2 h
      rw [insertField_eq_ok hfield] at hrest
      constructor
      · rw [List.forall_mem_cons]
        refine ⟨?_, hall⟩
        rw [hrest field.1 hnodup.1, getEntry_insertKey, if_pos rfl]
      · intro k hk
        rw [List.map_cons, List.mem_cons, not_or] at hk
        rw [hrest k hk.2, getEntry_insertKey, if_neg (Ne.symm hk.1)]

theorem DerivedFields.keys_toJsonFields (d : DerivedFields) :
    d.toJsonFields.map Prod.fst = derivedFields := rfl

/-- A machine integer as a field. -/
theorem payloadFields_int {name : String} {n : UInt64} (hn : n.toNat < 2 ^ 63)
    (h : Json.getEntry name payload = some (.number (.posInt n.toNat n.toNat_lt))) :
    payloadFields payload name = some (.int n.toNat) := by
  rw [payloadFields, h]
  dsimp only
  rw [Json.asI64, Number.asI64, if_pos hn]
  rfl

/-- The map has the derived fields of the row. -/
theorem payloadFields_insertInto {row : DerivedRow}
    (h : row.insertInto display payload = .ok payload') {name : String}
    (hname : name ∈ derivedFields) : payloadFields payload' name = row.field name := by
  have hnodup : (row.toJsonFields.map Prod.fst).Nodup := by
    rw [DerivedFields.keys_toJsonFields]
    decide
  have hget := (getEntry_of_insertFields hnodup h).1
  simp only [DerivedFields.toJsonFields, List.forall_mem_cons] at hget
  obtain ⟨hcategory, hlen, htier, hkey, -⟩ := hget
  have hlen' : row.docLen.toUInt64.toNat < 2 ^ 63 := by
    rw [UInt32.toNat_toUInt64]
    exact row.docLen.toNat_lt.trans (by decide)
  have htier' : row.tier.toUInt64.toNat < 2 ^ 63 := by
    rw [UInt8.toNat_toUInt64]
    exact row.tier.toNat_lt.trans (by decide)
  have hkey' : row.randKey.toNat < 2 ^ 63 := row.randKey_lt.trans (by decide)
  rw [derivedFields] at hname
  simp only [List.mem_cons, List.not_mem_nil, or_false] at hname
  rcases hname with rfl | rfl | rfl | rfl
  · rw [payloadFields, hcategory]
    rfl
  · rw [payloadFields_int hlen' hlen, UInt32.toNat_toUInt64]
    rfl
  · rw [payloadFields_int htier' htier, UInt8.toNat_toUInt64]
    rfl
  · rw [payloadFields_int hkey' hkey, DerivedFields.field, row.toInt_randKey]
    rfl

/-- A predicate over the derived fields has the same result on a row and on a payload that the
row was inserted into: the same truth, or the same error. -/
theorem matches_insertInto (debug : String → String) (row : DerivedRow)
    (h : row.insertInto display payload = .ok payload') (p : Predicate)
    (hp : ∀ l ∈ p.leaves, l.field ∈ derivedFields) :
    p.matches debug (payloadFields payload') = p.matches debug row.field := by
  refine BoolTree.run_congr fun l hl ↦ ?_
  rw [PredicateLeaf.matches, PredicateLeaf.matches, payloadFields_insertInto h (hp l hl)]

/-- The tier is wrong, so an operand of another type is asked for. -/
def tierOrCategory : Predicate :=
  .any [.leaf ⟨"tier", .match [.int 4]⟩, .leaf ⟨"category", .match [.int 7]⟩]

theorem matches_insertInto_sampleRow :
    ∃ payload', sampleRow.insertInto (fun _ ↦ "") [("docid", .string "D1")] = .ok payload' ∧
      tierOrCategory.matches id (payloadFields payload') =
        .error "category: integer operand against a keyword field" := by
  obtain ⟨payload', h⟩ : ∃ payload',
      sampleRow.insertInto (fun _ ↦ "") [("docid", .string "D1")] = .ok payload' := ⟨_, rfl⟩
  exact ⟨payload', h, matches_insertInto id sampleRow h tierOrCategory (by decide)⟩

end VectorDbBenchmark.Msmarco
