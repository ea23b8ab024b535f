import VectorDbBenchmark.Pgvector.Faithful
import VectorDbBenchmark.SpreadTree

/-!
# The text of a template, and the rows it selects

Which scalars are compared does not show in a template: values whose scalars are of the same
kinds have the same template, a string in a range apart.

With the values that are bound a template selects the rows of its tree when all numbers of the
tree are bound as they are.  A number that is not shows for some row.
-/

namespace VectorDbBenchmark.Pgvector

open Kit Redis ConditionTree GroupBuilder Numbering

/-! ## Skeletons -/

/-- A scalar of the same kind. -/
def blankScalar : Json → Json
  | .string _ => .string ""
  | .bool _ => .bool false
  | .number _ => .ofNat 0
  | v => v

/-- A bound of the same kind; a string is kept. -/
def blankBound : Json → Json
  | .number _ => .ofNat 0
  | v => v

/-- The operand of a match with a scalar, or a bound of a range, blanked. -/
def blankOperand (op : String) (e : String × Json) : String × Json :=
  if op = "match" && e.1 = "value" then (e.1, blankScalar e.2)
  else if op = "range" then (e.1, blankBound e.2)
  else e

def blankCriteria (op : String) : Json → Json
  | .object es => .object (es.map (blankOperand op))
  | v => v

def blankFilters : Json → Json
  | .object ops => .object (ops.map fun e ↦ (e.1, blankCriteria e.1 e.2))
  | v => v

def blankFields (obj : List (String × Json)) : List (String × Json) :=
  obj.map fun e ↦ (e.1, blankFilters e.2)

mutual

/-- An entry with its scalar operands blanked. -/
def skeletonEntry : Json → Json
  | .object obj =>
    if containsKey "and" obj || containsKey "or" obj then .object (skeletonGroup obj)
    else .object (blankFields obj)
  | v => v

def skeletonEntries : List Json → List Json
  | [] => []
  | v :: vs => skeletonEntry v :: skeletonEntries vs

def skeletonGroup : List (String × Json) → List (String × Json)
  | [] => []
  | (k, v) :: es => (k, if k = "and" || k = "or" then skeletonArray v else v) :: skeletonGroup es

def skeletonArray : Json → Json
  | .array vs => .array (skeletonEntries vs)
  | v => v

end

/-- A conditions value with the scalar operands of its leaves blanked. -/
def skeleton : Json → Json
  | .object obj => .object (skeletonGroup obj)
  | v => v

/-! ## Leaves -/

section Leaves

variable {field : String}

theorem alike_bindValue (v w : PgValue) : Alike (bindValue v) (bindValue w) :=
  (alike_next v w).bind fun _ ↦ .refl _

/-- The value that is bound for a number is a number. -/
theorem scalarValue_number (n : Number) :
    (∃ i, scalarValue (.number n) = some (.int i)) ∨
      ∃ f, scalarValue (.number n) = some (.float f) := by
  cases n with
  | posInt n hn =>
      refine .inl ⟨jsonAsI64 (.number (.posInt n hn)), ?_⟩
      simp [scalarValue, Json.asStr, Json.asBool, isInteger, Json.asU64, Number.asU64]
  | negInt i hi =>
      refine .inl ⟨jsonAsI64 (.number (.negInt i hi)), ?_⟩
      simp [scalarValue, Json.asStr, Json.asBool, isInteger, Json.asI64, Number.asI64]
  | float q =>
      refine .inr ⟨.fin q, ?_⟩
      simp [scalarValue, Json.asStr, Json.asBool, isInteger, Json.asI64, Number.asI64, Json.asU64,
        Number.asU64, Json.asF64, Number.asF64]

section Ranges

variable (jsonText : Json → Text)

variable (field) in
theorem exists_bound_number (op : String) (n : Number) :
    ∃ w, buildBound jsonText field op (.number n) = (do
      let ph ← bindValue w
      pure (binaryText field op ph)) := by
  rcases scalarValue_number n with ⟨i, hi⟩ | ⟨f, hf⟩
  · exact ⟨.int i, by rw [buildBound, hi]⟩
  · exact ⟨.float f, by rw [buildBound, hf]⟩

theorem alike_bound (op : String) (v : Json) :
    Alike (buildBound jsonText field op v) (buildBound jsonText field op (blankBound v)) := by
  cases v with
  | number n =>
      obtain ⟨v, hv⟩ := exists_bound_number field jsonText op n
      obtain ⟨w, hw⟩ := exists_bound_number field jsonText op (.posInt 0 (Nat.two_pow_pos 64))
      have hblank : buildBound jsonText field op (blankBound (.number n)) = (do
          let ph ← bindValue w
          pure (binaryText field op ph)) := hw
      rw [hv, hblank]
      exact (alike_bindValue v w).bind fun _ ↦ .refl _
  | _ => exact .refl _

theorem isNull_blankBound (v : Json) : isNull (blankBound v) = isNull v := by
  cases v <;> rfl

theorem blankOperand_range (e : String × Json) :
    blankOperand "range" e = (e.1, blankBound e.2) := by
  rw [blankOperand, if_neg (by simp), if_pos rfl]

theorem alike_bounds (obj : List (String × Json)) :
    Alike (buildBounds jsonText field obj)
      (buildBounds jsonText field (obj.map (blankOperand "range"))) := by
  induction obj with
  | nil => exact .refl _
  | cons e obj ih =>
      obtain ⟨key, v⟩ := e
      rw [List.map_cons, blankOperand_range, buildBounds, buildBounds]
      cases sqlOp key with
      | none => exact ih
      | some op =>
          dsimp only
          rw [isNull_blankBound]
          cases isNull v with
          | true => exact ih
          | false =>
              exact (alike_bound jsonText op v).bind fun _ ↦ ih.bind fun _ ↦ .refl _

end Ranges

/-! ### Matches -/

/-- Operands are looked up as before, and blanked. -/
theorem getEntry_map {g : String × Json → String × Json} (hg : ∀ e, (g e).1 = e.1) (key : String)
    (es : List (String × Json)) :
    Json.getEntry key (es.map g) = (Json.getEntry key es).map fun v ↦ (g (key, v)).2 := by
  induction es with
  | nil => rfl
  | cons e es ih =>
      obtain ⟨k, v⟩ := e
      rw [List.map_cons, Json.getEntry, Json.getEntry, hg, ih]
      split_ifs with hk
      · cases (hk : k = key)
        rfl
      · rfl

theorem fst_blankOperand (op : String) (e : String × Json) : (blankOperand op e).1 = e.1 := by
  rw [blankOperand]
  split_ifs <;> rfl

theorem get_blankCriteria_value (criteria : Json) :
    (blankCriteria "match" criteria).get "value" = (criteria.get "value").map blankScalar := by
  cases criteria with
  | object es => exact getEntry_map (fst_blankOperand "match") "value" es
  | _ => rfl

/-- Lists and texts are kept. -/
theorem get_blankCriteria_of_ne (criteria : Json) {key : String} (hkey : key ≠ "value") :
    (blankCriteria "match" criteria).get key = criteria.get key := by
  cases criteria with
  | object es =>
      refine (getEntry_map (fst_blankOperand "match") key es).trans ?_
      have hkeep : ∀ v, (blankOperand "match" (key, v)).2 = v := by
        intro v
        rw [blankOperand, if_neg (by simp [hkey]), if_neg (by decide)]
      simp only [hkeep, Option.map_id']
      rfl
  | _ => rfl

/-- Whether a value is bound for a scalar depends on its kind. -/
theorem isSome_scalarValue_blankScalar (v : Json) :
    (scalarValue (blankScalar v)).isSome = (scalarValue v).isSome := by
  cases v with
  | number n =>
      have hsome : ∀ n, (scalarValue (.number n)).isSome = true := by
        intro n
        rcases scalarValue_number n with ⟨i, hi⟩ | ⟨f, hf⟩
        · rw [hi]
          rfl
        · rw [hf]
          rfl
      exact (hsome _).trans (hsome n).symm
  | _ => rfl

theorem asStr_blankScalar (v : Json) : (blankScalar v).asStr.isSome = v.asStr.isSome := by
  cases v <;> rfl

theorem alike_matchValue (v : Json) :
    Alike (buildMatchValue field v) (buildMatchValue field (blankScalar v)) := by
  have hsome := isSome_scalarValue_blankScalar v
  rw [buildMatchValue, buildMatchValue, asStr_blankScalar]
  cases hv : scalarValue v with
  | none =>
      rw [hv, Option.isSome_none, Option.isSome_eq_false_iff, Option.isNone_iff_eq_none] at hsome
      rw [hsome]
      exact .refl _
  | some w =>
      rw [hv, Option.isSome_some] at hsome
      obtain ⟨w', hw'⟩ := Option.isSome_iff_exists.mp hsome
      rw [hw']
      exact (alike_bindValue w w').bind fun _ ↦ .refl _

theorem alike_match (criteria : Json) :
    Alike (buildMatch field criteria) (buildMatch field (blankCriteria "match" criteria)) := by
  rw [buildMatch, buildMatch, get_blankCriteria_of_ne criteria (by decide : "any" ≠ "value"),
    get_blankCriteria_of_ne criteria (by decide : "text" ≠ "value"), get_blankCriteria_value]
  cases (criteria.get "any").bind Json.asArray with
  | some any => exact .refl _
  | none =>
      cases criteria.get "value" with
      | some v => exact alike_matchValue v
      | none => exact .refl _

/-! ### Entries -/

variable (jsonText : Json → Text)

theorem blankCriteria_of_ne {op : String} (hmatch : op ≠ "match") (hrange : op ≠ "range")
    (criteria : Json) : blankCriteria op criteria = criteria := by
  have hkeep : blankOperand op = id := by
    funext e
    rw [blankOperand, if_neg (by simp [hmatch]), if_neg hrange]
    rfl
  cases criteria with
  | object es => rw [blankCriteria, hkeep, List.map_id]
  | _ => rfl

theorem alike_condition (op : String) (criteria : Json) :
    Alike (buildCondition jsonText field op criteria)
      (buildCondition jsonText field op (blankCriteria op criteria)) := by
  by_cases hmatch : op = "match"
  · subst hmatch
    exact alike_match criteria
  · by_cases hrange : op = "range"
    · subst hrange
      cases criteria with
      | object es => exact alike_bounds jsonText es
      | _ => exact .refl _
    · rw [blankCriteria_of_ne hmatch hrange]
      exact .refl _

theorem alike_conditions (ops : List (String × Json)) :
    Alike (buildConditions jsonText field ops)
      (buildConditions jsonText field (ops.map fun e ↦ (e.1, blankCriteria e.1 e.2))) := by
  induction ops with
  | nil => exact .refl _
  | cons e ops ih =>
      exact (alike_condition jsonText e.1 e.2).bind fun _ ↦ ih.bind fun _ ↦ .refl _

theorem alike_fields (obj : List (String × Json)) :
    Alike (buildFields jsonText obj) (buildFields jsonText (blankFields obj)) := by
  induction obj with
  | nil => exact .refl _
  | cons e obj ih =>
      obtain ⟨field, filters⟩ := e
      cases filters with
      | object ops =>
          exact (alike_conditions jsonText ops).bind fun _ ↦ ih.bind fun _ ↦ .refl _
      | _ => exact .refl _

end Leaves

/-! ## Groups -/

section Groups

variable (jsonText : Json → Text)

theorem containsKey_skeletonGroup (key : String) (obj : List (String × Json)) :
    containsKey key (skeletonGroup obj) = containsKey key obj := by
  induction obj with
  | nil => rfl
  | cons e obj ih =>
      rw [skeletonGroup, containsKey, containsKey, List.any_cons, List.any_cons]
      exact congrArg _ ih

theorem containsKey_blankFields (key : String) (obj : List (String × Json)) :
    containsKey key (blankFields obj) = containsKey key obj := by
  rw [containsKey, containsKey, blankFields, List.any_map]
  rfl

theorem alike_leaf (obj : List (String × Json)) :
    Alike ((pgBuilder jsonText).leaf obj) ((pgBuilder jsonText).leaf (blankFields obj)) :=
  (alike_fields jsonText obj).bind fun _ ↦ .refl _

mutual

/-- The clauses of an entry do not show its scalar operands. -/
theorem alike_entry (v : Json) :
    Alike ((pgBuilder jsonText).entry v) ((pgBuilder jsonText).entry (skeletonEntry v)) := by
  match v with
  | .object obj =>
      rw [skeletonEntry]
      cases hgroup : containsKey "and" obj || containsKey "or" obj with
      | true =>
          have hblank : (pgBuilder jsonText).isGroup (skeletonGroup obj) = true := by
            show (containsKey "and" (skeletonGroup obj) ||
              containsKey "or" (skeletonGroup obj)) = true
            rwa [containsKey_skeletonGroup, containsKey_skeletonGroup]
          have hisGroup : (pgBuilder jsonText).isGroup obj = true := hgroup
          rw [if_pos rfl, GroupBuilder.entry, GroupBuilder.entry, hisGroup, hblank, if_pos rfl,
            if_pos rfl]
          exact (alike_arrayAt (.inl rfl) obj).bind fun _ ↦
            (alike_arrayAt (.inr rfl) obj).bind fun _ ↦ .refl _
      | false =>
          have hblank : (pgBuilder jsonText).isGroup (blankFields obj) = false := by
            show (containsKey "and" (blankFields obj) || containsKey "or" (blankFields obj)) = false
            rwa [containsKey_blankFields, containsKey_blankFields]
          have hisGroup : (pgBuilder jsonText).isGroup obj = false := hgroup
          rw [if_neg Bool.false_ne_true, GroupBuilder.entry, GroupBuilder.entry, hisGroup, hblank,
            if_neg Bool.false_ne_true, if_neg Bool.false_ne_true]
          exact alike_leaf jsonText obj
  | .null => exact .refl _
  | .bool _ => exact .refl _
  | .number _ => exact .refl _
  | .string _ => exact .refl _
  | .array _ => exact .refl _

theorem alike_entries (vs : List Json) :
    Alike ((pgBuilder jsonText).entries vs)
      ((pgBuilder jsonText).entries (skeletonEntries vs)) := by
  match vs with
  | [] => exact .refl _
  | v :: vs =>
      rw [skeletonEntries, GroupBuilder.entries, GroupBuilder.entries]
      exact (alike_entry v).bind fun _ ↦ (alike_entries vs).bind fun _ ↦ .refl _

theorem alike_arrayAt {key : String} (hkey : key = "and" ∨ key = "or")
    (obj : List (String × Json)) :
    Alike ((pgBuilder jsonText).arrayAt key obj)
      ((pgBuilder jsonText).arrayAt key (skeletonGroup obj)) := by
  match obj with
  | [] => exact .refl _
  | (k, v) :: es =>
      rw [skeletonGroup, GroupBuilder.arrayAt, GroupBuilder.arrayAt]
      split_ifs with hk hgroup
      · exact alike_array key v
      · rw [Bool.or_eq_true, decide_eq_true_eq, decide_eq_true_eq, hk] at hgroup
        exact absurd hkey hgroup
      · exact alike_arrayAt hkey es

theorem alike_array (key : String) (v : Json) :
    Alike ((pgBuilder jsonText).array key v)
      ((pgBuilder jsonText).array key (skeletonArray v)) := by
  match v with
  | .array vs =>
      rw [skeletonArray, GroupBuilder.array, GroupBuilder.array]
      refine Alike.bind (x := pure PUnit.unit) (.refl _) fun _ ↦ ?_
      exact (alike_entries vs).bind fun _ ↦ .refl _
  | .null => exact .refl _
  | .bool _ => exact .refl _
  | .number _ => exact .refl _
  | .string _ => exact .refl _
  | .object _ => exact .refl _

end

theorem alike_conditionsGroup (obj : List (String × Json)) :
    Alike (conditionsGroup jsonText obj) (conditionsGroup jsonText (skeletonGroup obj)) :=
  (alike_arrayAt jsonText (.inl rfl) obj).bind fun _ ↦
    (alike_arrayAt jsonText (.inr rfl) obj).bind fun _ ↦ .refl _

/-- The template of a conditions value is that of its skeleton. -/
theorem template_skeleton (conditions : Json) (n : ℕ) :
    (parsePgConditions jsonText (skeleton conditions) n).map Prod.fst =
      (parsePgConditions jsonText conditions n).map Prod.fst := by
  cases conditions with
  | object obj =>
      cases obj with
      | nil => rfl
      | cons e obj =>
          have hne : skeletonGroup (e :: obj) ≠ [] := by
            rw [skeletonGroup]
            exact List.cons_ne_nil _ _
          rw [skeleton, parsePgConditions_object hne,
            parsePgConditions_object (List.cons_ne_nil e obj), Option.map_map, Option.map_map]
          exact congrArg (Option.map id) (alike_conditionsGroup jsonText (e :: obj) n).1.symm
  | _ => rfl

end Groups

/-! ## Rows -/

section Rows

variable {instant : Text → Option ℚ} {t : BoolTree Leaf}

/-- A condition read from a template, with its values, is true of exactly the rows of a tree. -/
def Selects (instant : Text → Option ℚ) (n : ℕ) (values : List PgValue) (F : BoolTree Atom)
    (t : BoolTree Leaf) : Prop :=
  ∀ row, F.eval (Atom.holds instant (placed n values, row)) = t.eval (leafHolds row instant)

/-- Numbers that are bound as others show for some row, where no two operations are on one
column. -/
theorem fits_of_eval_eq (ht : t.Filled) (hfields : (t.leaves.map Leaf.field).Nodup)
    (hwell : ∀ l ∈ t.leaves, WellFormed l) (htelling : ∀ l ∈ t.leaves, Telling instant l)
    (h : ∀ row : Row, (t.eval fun l ↦ leafHolds row instant (boundLeaf l)) =
      t.eval (leafHolds row instant)) : ∀ l ∈ t.leaves, Fits l := by
  classical
  have hkeys : (t.leaves.map fun l ↦ l.field.toList).Nodup := by
    have hcolumns := hfields.map fun _ _ heq ↦ String.toList_injective heq
    rwa [List.map_map] at hcolumns
  intro l hl
  by_contra hfits
  obtain ⟨c, hc⟩ := (htelling l hl).exists_cell_ne (hwell l hl) hfits
  cases hasked : leafHolds (fun _ ↦ some c) instant l with
  | true =>
      rw [hasked] at hc
      obtain ⟨row, htrue, hfalse⟩ := ht.exists_judged hkeys
        (fun m o ↦ leafHolds (fun _ ↦ o) instant m)
        (fun m o ↦ leafHolds (fun _ ↦ o) instant (boundLeaf m))
        (fun m hm ↦ leafHolds_none (hwell m hm).boundLeaf)
        (fun m hm ↦ (htelling m hm).satisfiable) hl hasked (Bool.eq_false_of_not_eq_true hc.symm)
      exact Bool.false_ne_true (hfalse.symm.trans ((h row).trans htrue))
  | false =>
      rw [hasked] at hc
      obtain ⟨row, htrue, hfalse⟩ := ht.exists_judged hkeys
        (fun m o ↦ leafHolds (fun _ ↦ o) instant (boundLeaf m))
        (fun m o ↦ leafHolds (fun _ ↦ o) instant m)
        (fun m hm ↦ leafHolds_none (hwell m hm))
        (fun m hm ↦ (htelling m hm).exists_cell_bound (hwell m hm)) hl
        (Bool.eq_true_of_not_eq_false hc.symm) hasked
      exact Bool.false_ne_true (hfalse.symm.trans ((h row).symm.trans htrue))

end Rows

section Examples

def plainInstant (t : Text) : Option ℚ :=
  if t = "1970-01-01T00:01:00Z".toList then some 60 else none

def plainText (_ : Json) : Text := []

/-- A group with both keys, with an entry of two operations in a disjunction. -/
def sizeOrLabels : Json :=
  .object [("and", .array
    [leafEntry "labels" "match" [("any", .array [.string "x", .string "it's"])],
      leafEntry "labels" "match" [("value", .string "y")]]),
    ("or", .array [.object [("n", .object
        [("match", .object [("any", .array [.ofNat 7, .ofNat 8])]),
          ("range", .object [("gt", .number (.float (1 / 2))), ("lt", .null)])])],
      leafEntry "t" "range" [("gte", .string "1970-01-01T00:01:00Z"), ("lt", .ofNat 9)],
      .object [("and", .array [leafEntry "k" "match" [("any", .array [])],
        leafEntry "b" "match" [("value", .bool true)]])]])]

def sizeOrLabelsTree : BoolTree Leaf :=
  .all [.all
      [.all [.leaf ⟨"labels", "match", .object [("any", .array [.string "x", .string "it's"])]⟩],
        .all [.leaf ⟨"labels", "match", .object [("value", .string "y")]⟩]],
    .any [.all [.leaf ⟨"n", "match", .object [("any", .array [.ofNat 7, .ofNat 8])]⟩,
        .leaf ⟨"n", "range", .object [("gt", .number (.float (1 / 2))), ("lt", .null)]⟩],
      .all [.leaf ⟨"t", "range", .object [("gte", .string "1970-01-01T00:01:00Z"),
        ("lt", .ofNat 9)]⟩],
      .all [.all [.leaf ⟨"k", "match", .object [("any", .array [])]⟩],
        .all [.leaf ⟨"b", "match", .object [("value", .bool true)]⟩]]]]

theorem leaves_sizeOrLabels : sizeOrLabelsTree.leaves =
    [⟨"labels", "match", .object [("any", .array [.string "x", .string "it's"])]⟩,
      ⟨"labels", "match", .object [("value", .string "y")]⟩,
      ⟨"n", "match", .object [("any", .array [.ofNat 7, .ofNat 8])]⟩,
      ⟨"n", "range", .object [("gt", .number (.float (1 / 2))), ("lt", .null)]⟩,
      ⟨"t", "range", .object [("gte", .string "1970-01-01T00:01:00Z"), ("lt", .ofNat 9)]⟩,
      ⟨"k", "match", .object [("any", .array [])]⟩,
      ⟨"b", "match", .object [("value", .bool true)]⟩] := rfl

theorem readable_sizeOrLabels : ∀ l ∈ sizeOrLabelsTree.leaves, Readable l := by
  rw [leaves_sizeOrLabels]
  simp only [List.forall_mem_cons]
  refine ⟨⟨.any _ rfl, by decide⟩, ⟨.value _ rfl, by decide⟩, ⟨.any _ rfl, by decide⟩,
    ⟨.range _ ?_ ⟨_, List.mem_cons_self, rfl, rfl⟩, by decide⟩,
    ⟨.range _ ?_ ⟨_, List.mem_cons_of_mem _ List.mem_cons_self, rfl, rfl⟩, by decide⟩,
    ⟨.any _ rfl, by decide⟩, ⟨.value _ rfl, by decide⟩, List.forall_mem_nil _⟩
  · simp [isBound]
  · simp [isBound, Json.ofNat]

theorem fits_sizeOrLabels : ∀ l ∈ sizeOrLabelsTree.leaves, Fits l := by
  rw [leaves_sizeOrLabels]
  decide

/-- The least integer that is no `i64`, as a bound. -/
def large : Json := .object [("and", .array [leafEntry "n" "range" [("gt", .ofNat (2 ^ 63))]])]

def largeTree : BoolTree Leaf :=
  .all [.all [.leaf ⟨"n", "range", .object [("gt", .ofNat (2 ^ 63))]⟩]]

theorem readable_large : ∀ l ∈ largeTree.leaves, Readable l := by
  show ∀ l ∈ [_], Readable l
  rw [List.forall_mem_singleton]
  refine ⟨.range _ ?_ ⟨_, List.mem_cons_self, rfl, rfl⟩, by decide⟩
  simp [isBound, Json.ofNat]

theorem telling_large : ∀ l ∈ largeTree.leaves, Telling plainInstant l := by
  show ∀ l ∈ [_], Telling plainInstant l
  rw [List.forall_mem_singleton]
  refine ⟨rfl, List.forall_mem_nil _, .number (2 ^ 64), ?_⟩
  simp [leafHolds_range, boundHolds, comparisonOf, isNull, Cell.within, Comparison.holds,
    Json.ofNat, Number.value]
  norm_num

set_option maxRecDepth 4000 in
example : (parsePgConditions plainText sizeOrLabels 3).map Prod.fst =
    some ("(string_to_array(\"labels\", ';') && $3::text[] AND ".toList ++
      ("$4 = ANY(string_to_array(\"labels\", ';'))) AND ".toList ++
        ("(\"n\" = ANY($5::bigint[]) AND \"n\" > $6 OR \"t\" >= ".toList ++
          ("'1970-01-01T00:01:00Z'::timestamptz AND \"t\" < $7 OR ".toList ++
            "((false AND \"b\" = $8)))".toList)))) := rfl

/-- An integer that no `f64` holds, beside a float. -/
def mixed : Json :=
  .object [("and", .array [leafEntry "n" "match"
    [("any", .array [.ofNat (2 ^ 53 + 1), .number (.float (1 / 2))])]])]

/-- A row with a number. -/
def numberRow (x : ℚ) (column : Text) : Option Cell :=
  if column = "n".toList then some (.number x) else none

/-- The truth of a template and of its tree at a row, if the template can be read. -/
def verdicts (conditions : Json) (row : Row) : Option Bool × Option Bool :=
  ((parsePgConditions plainText conditions 3).bind fun f ↦
      (InfixSyntax.parse language f.1).map
        (BoolTree.eval (Atom.holds plainInstant (placed 3 f.2, row))),
    (ofConditions conditions).map (BoolTree.eval (leafHolds row plainInstant)))

end Examples

end VectorDbBenchmark.Pgvector
