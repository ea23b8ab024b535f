import VectorDbBenchmark.Hybrid.RedisFilter
import VectorDbBenchmark.Msmarco.Predicate

/-!
# An accepted filter means what the predicate means

What a parsed filter says of a row, with its parameters resolved, and that it says what the
predicate says whenever `check_redis_filter` accepts it: first for one leaf and the node it
is compared with, then for the flattened trees, and from them for the trees as they were
parsed and compiled.
-/

namespace VectorDbBenchmark

open Kit Msmarco

namespace Hybrid

/-! ## What a filter says -/

section Meaning

variable (params : String → Option RedisParam) (row : Fields)

/-- Whether an end of an interval admits a number that is compared with it by `strict` or
`loose`. -/
def endHolds (strict loose : F64 → Bool) : Option (String × Bool) → Bool
  | none => true
  | some (p, exclusive) =>
    match params p with
    | some (.num x) => if exclusive then strict x else loose x
    | _ => false

/-- Whether a row satisfies a leaf of a filter: numbers in their own order, keywords by
equality, terms as `classify` compares them. -/
def RLeaf.holds : RLeaf → Bool
  | .range field lo hi =>
    match row field with
    | some (.int n) =>
      endHolds params (fun b ↦ b.lt (.fin n)) (fun b ↦ b.le (.fin n)) lo &&
        endHolds params (fun b ↦ (F64.fin n).lt b) (fun b ↦ (F64.fin n).le b) hi
    | _ => false
  | .tag field ps =>
    match row field with
    | some (.keyword s) => ps.any fun p ↦ params p = some (.str s)
    | _ => false
  | .text field p =>
    match row field, params p with
    | some (.keyword s), some (.str term) => classify s.toList term.toList = .yes
    | _, _ => false

end Meaning

variable {debug : Debug} {params : String → Option RedisParam} {row : Fields}

theorem num_eq_ok {name : String} {x : F64} :
    num debug params name = .ok x ↔ params name = some (.num x) := by
  rw [num]
  split
  · next n h =>
      rw [h]
      constructor
      · rintro ⟨⟩
        rfl
      · rintro ⟨⟩
        rfl
  · next h =>
      constructor
      · rintro ⟨⟩
      · exact fun hx ↦ absurd hx (h x)

theorem text_eq_ok {name s : String} :
    text debug params name = .ok s ↔ params name = some (.str s) := by
  rw [text]
  split
  · next n h =>
      rw [h]
      constructor
      · rintro ⟨⟩
        rfl
      · rintro ⟨⟩
        rfl
  · next h =>
      constructor
      · rintro ⟨⟩
      · exact fun hs ↦ absurd hs (h s)

theorem not_mismatch {α : Type} {p : Predicate} {n : RNode} {a : α} :
    mismatch debug p n ≠ .ok a := by
  rintro ⟨⟩

/-! ## Ranges -/

theorem sameEnd_eq_true {a b : Option (F64 × Bool)} (h : sameEnd a b = true) : a = b := by
  rcases a with _ | ⟨a, x⟩ <;> rcases b with _ | ⟨b, y⟩
  · rfl
  · cases h
  · cases h
  · obtain ⟨hab, hxy⟩ := Bool.and_eq_true_iff.mp h
    rw [(F64.eq_iff.mp hab).1, of_decide_eq_true hxy]

/-- The end of an interval, once its parameter is resolved. -/
def Resolved (params : String → Option RedisParam) (s : Option (String × Bool))
    (want : Option (F64 × Bool)) : Prop :=
  (s = none ∧ want = none) ∨
    ∃ p x exclusive, s = some (p, exclusive) ∧ want = some (x, exclusive) ∧
      params p = some (.num x)

theorem resolved_of_got {s : Option (String × Bool)} {e want : Option (F64 × Bool)}
    (h : got debug params s = .ok e) (hsame : sameEnd e want = true) : Resolved params s want := by
  cases sameEnd_eq_true hsame
  rcases s with _ | ⟨p, exclusive⟩
  · cases h
    exact .inl ⟨rfl, rfl⟩
  · obtain ⟨x, hx, rfl⟩ := map_eq_ok.mp h
    exact .inr ⟨p, x, exclusive, rfl, rfl, num_eq_ok.mp hx⟩

theorem resolved_of_walkRange {p : Predicate} {n : RNode} {gt gte lt lte : Option F64}
    {lo hi : Option (String × Bool)}
    (h : walkRange debug params p n gt gte lt lte lo hi = .ok ()) :
    Resolved params lo ((gt.map fun v ↦ (v, true)).or (gte.map fun v ↦ (v, false))) ∧
      Resolved params hi ((lt.map fun v ↦ (v, true)).or (lte.map fun v ↦ (v, false))) := by
  rw [walkRange] at h
  obtain ⟨lower, hlower, h⟩ := bind_eq_ok.mp h
  split_ifs at h with hlo
  · exact absurd h not_mismatch
  · obtain ⟨upper, hupper, h⟩ := bind_eq_ok.mp h
    split_ifs at h with hhi
    · refine ⟨resolved_of_got hlower ?_, resolved_of_got hupper hhi⟩
      rwa [Bool.not_eq_true', Bool.not_eq_false] at hlo
    · exact absurd h not_mismatch

/-- An end with the value of the one bound there is on its side. -/
theorem endHolds_of_resolved {s : Option (String × Bool)} {exclusive inclusive : Option F64}
    (hone : exclusive = none ∨ inclusive = none)
    (h : Resolved params s
      ((exclusive.map fun v ↦ (v, true)).or (inclusive.map fun v ↦ (v, false))))
    (strict loose : F64 → Bool) :
    endHolds params strict loose s = (exclusive.all strict && inclusive.all loose) := by
  rcases hone with rfl | rfl
  · rcases h with ⟨rfl, hwant⟩ | ⟨p, x, e, rfl, hwant, hp⟩
    · cases inclusive with
      | none => rfl
      | some b => cases hwant
    · cases inclusive with
      | none => cases hwant
      | some b =>
          cases hwant
          rw [endHolds, hp]
          exact (Bool.true_and _).symm
  · rcases h with ⟨rfl, hwant⟩ | ⟨p, x, e, rfl, hwant, hp⟩
    · cases exclusive with
      | none => rfl
      | some b => cases hwant
    · cases exclusive with
      | none => cases hwant
      | some b =>
          cases hwant
          rw [endHolds, hp]
          exact (Bool.and_true _).symm

/-! ## Operands -/

section Operands

variable {ops : List Operand}

theorem mem_words {k : String} : k ∈ words ops ↔ .keyword k ∈ ops := by
  rw [words, List.mem_filterMap]
  constructor
  · rintro ⟨op | op, hop, hk⟩
    · cases hk
      exact hop
    · cases hk
  · exact fun h ↦ ⟨.keyword k, h, rfl⟩

theorem mem_ints {x : F64} : x ∈ ints ops ↔ ∃ i, .int i ∈ ops ∧ F64.ofInt i = x := by
  rw [ints, List.mem_filterMap]
  constructor
  · rintro ⟨op | op, hop, hx⟩
    · cases hx
    · exact ⟨op, hop, Option.some.inj hx⟩
  · exact fun ⟨i, hi, hx⟩ ↦ ⟨.int i, hi, congrArg some hx⟩

/-- A loop over the operands that collects whether one of them is hit. -/
theorem foldlM_hit {step : Bool → Operand → Except String Bool} {P : Operand → Prop}
    {test : Operand → Bool}
    (hstep : ∀ hit op b, step hit op = .ok b → P op ∧ b = (hit || test op)) {hit b : Bool}
    (h : ops.foldlM step hit = .ok b) : (∀ op ∈ ops, P op) ∧ b = (hit || ops.any test) := by
  induction ops generalizing hit with
  | nil =>
      cases h
      exact ⟨fun op hop ↦ absurd hop List.not_mem_nil, (Bool.or_false _).symm⟩
  | cons op ops ih =>
      rw [List.foldlM_cons] at h
      obtain ⟨hit', hop, h⟩ := bind_eq_ok.mp h
      obtain ⟨hp, rfl⟩ := hstep _ _ _ hop
      obtain ⟨hps, rfl⟩ := ih h
      rw [List.any_cons, Bool.or_assoc]
      exact ⟨List.forall_mem_cons.mpr ⟨hp, hps⟩, rfl⟩

variable {d : String → String} {field : String} {b : Bool}

/-- Keyword operands against a keyword. -/
theorem matches_keyword {s : String}
    (h : (LeafOp.match ops).matches d field (.keyword s) = .ok b) :
    ints ops = [] ∧ (b = true ↔ s ∈ words ops) := by
  have hstep : ∀ hit op b, hitKeyword field s hit op = .ok b →
      (∃ k, op = .keyword k) ∧ b = (hit || decide (op = .keyword s)) := by
    rintro hit (k | n) b h
    · cases h
      simp
    · cases h
  obtain ⟨hall, rfl⟩ := foldlM_hit hstep h
  refine ⟨List.eq_nil_iff_forall_not_mem.mpr fun x hx ↦ ?_, ?_⟩
  · obtain ⟨i, hi, -⟩ := mem_ints.mp hx
    obtain ⟨k, hk⟩ := hall _ hi
    cases hk
  · rw [Bool.false_or, List.any_eq_true, mem_words]
    constructor
    · rintro ⟨op, hop, heq⟩
      rwa [of_decide_eq_true heq] at hop
    · exact fun hs ↦ ⟨_, hs, decide_eq_true rfl⟩

/-- Integer operands against an integer. -/
theorem matches_int {n : ℤ} (hexact : ∀ op ∈ ops, op.Exact)
    (h : (LeafOp.match ops).matches d field (.int n) = .ok b) :
    words ops = [] ∧ (b = true ↔ .fin n ∈ ints ops) := by
  have hstep : ∀ hit op b, hitInt field n hit op = .ok b →
      (∃ k, op = .int k) ∧ b = (hit || decide (op = .int n)) := by
    rintro hit (k | k) b h
    · cases h
    · cases h
      simp
  obtain ⟨hall, rfl⟩ := foldlM_hit hstep h
  refine ⟨List.eq_nil_iff_forall_not_mem.mpr fun s hs ↦ ?_, ?_⟩
  · obtain ⟨k, hk⟩ := hall _ (mem_words.mp hs)
    cases hk
  · rw [Bool.false_or, List.any_eq_true, mem_ints]
    constructor
    · rintro ⟨op, hop, heq⟩
      rw [of_decide_eq_true heq] at hop
      exact ⟨n, hop, F64.ofInt_of_le (hexact _ hop)⟩
    · rintro ⟨i, hi, hx⟩
      rw [F64.ofInt_of_le (hexact _ hi), F64.fin.injEq, Int.cast_inj] at hx
      exact ⟨_, hi, decide_eq_true (hx ▸ rfl)⟩

end Operands

theorem perm_of_mergeSort {α : Type} {le : α → α → Bool} {xs ys : List α}
    (h : xs.mergeSort le = ys.mergeSort le) : xs.Perm ys := by
  have hxs := List.mergeSort_perm xs le
  rw [h] at hxs
  exact hxs.symm.trans (List.mergeSort_perm ys le)

/-- The values of a tag leaf's parameters. -/
theorem any_str {ps got : List String} (h : ps.mapM (text debug params) = .ok got) (s : String) :
    (ps.any fun p ↦ params p = some (.str s)) = true ↔ s ∈ got := by
  have hall := mapM_eq_ok.mp h
  clear h
  induction hall with
  | nil => exact iff_of_false Bool.false_ne_true List.not_mem_nil
  | cons hp _ ih =>
      rw [List.any_cons, Bool.or_eq_true, List.mem_cons]
      refine or_congr ?_ ih
      rw [decide_eq_true_eq, text_eq_ok.mp hp, Option.some_inj, RedisParam.str.injEq, eq_comm]

/-- An interval with one point says that the field is that number. -/
theorem eval_of_point (row : Fields) {p : Predicate} {n pt : RNode} {field : String} {x : F64}
    (h : point debug params p n field pt = .ok x) :
    (∀ k, row field = some (.int k) →
      (pt.eval (RLeaf.holds params row) = true ↔ x = .fin k)) ∧
    ((∀ k, row field ≠ some (.int k)) → pt.eval (RLeaf.holds params row) = false) := by
  unfold point at h
  split at h
  · next f a b =>
      split_ifs at h with hf
      · exact absurd h not_mismatch
      rw [ne_eq, not_not] at hf
      subst hf
      obtain ⟨xa, ha, h⟩ := bind_eq_ok.mp h
      obtain ⟨xb, hb, h⟩ := bind_eq_ok.mp h
      split_ifs at h with heq
      · obtain ⟨rfl, -⟩ := F64.eq_iff.mp heq
        cases ha.symm.trans h
        rw [BoolTree.eval_leaf]
        refine ⟨fun k hk ↦ ?_, fun hk ↦ ?_⟩
        · rw [RLeaf.holds, hk]
          dsimp only [endHolds]
          rw [num_eq_ok.mp ha, num_eq_ok.mp hb]
          exact (Bool.eq_iff_iff.mp (F64.le_and_le x k)).trans decide_eq_true_iff
        · rw [RLeaf.holds]
          split
          · next k hrow => exact absurd hrow (hk k)
          · rfl
      · exact absurd h not_mismatch
  · exact absurd h not_mismatch

theorem eval_points {fs : List F64} {n : RNode} {pts : List RNode} (h : points fs n = some pts)
    (v : RLeaf → Bool) : n.eval v = pts.any (BoolTree.eval v) := by
  unfold points at h
  split at h
  · split_ifs at h
    · cases h
      exact BoolTree.eval_any _
    · cases h
      exact (Bool.or_false _).symm
  · split_ifs at h
    cases h
    exact (Bool.or_false _).symm

theorem ne_nil_of_points {fs : List F64} {n : RNode} {pts : List RNode}
    (h : points fs n = some pts) : fs ≠ [] := by
  rintro rfl
  unfold points at h
  split at h <;> cases h

/-- The values of the nodes that stand for integers. -/
theorem any_points (row : Fields) {p : Predicate} {n : RNode} {field : String} {pts : List RNode}
    {got : List F64}
    (h : pts.mapM (point debug params p n field) = .ok got) :
    (∀ k, row field = some (.int k) →
      (pts.any (BoolTree.eval (RLeaf.holds params row)) = true ↔ .fin k ∈ got)) ∧
    ((∀ k, row field ≠ some (.int k)) →
      pts.any (BoolTree.eval (RLeaf.holds params row)) = false) := by
  have hall := mapM_eq_ok.mp h
  clear h
  induction hall with
  | nil =>
      exact ⟨fun _ _ ↦ iff_of_false Bool.false_ne_true List.not_mem_nil, fun _ ↦ rfl⟩
  | cons hpt _ ih =>
      obtain ⟨hint, hother⟩ := eval_of_point row hpt
      refine ⟨fun k hk ↦ ?_, fun hk ↦ ?_⟩
      · rw [List.any_cons, Bool.or_eq_true, List.mem_cons, eq_comm (a := F64.fin _)]
        exact or_congr (hint k hk) (ih.1 k hk)
      · rw [List.any_cons, hother hk, ih.2 hk]
        rfl

/-! ## One leaf -/

section Leaf

variable {l : PredicateLeaf} {n : RNode} {b : Bool}

theorem eval_of_walkWords (row : Fields) {p : Predicate} {field : String} {ops : List Operand}
    (h : walkWords debug params p field ops n = .ok ()) :
    (∀ s, row field = some (.keyword s) →
      (n.eval (RLeaf.holds params row) = true ↔ s ∈ words ops)) ∧
    ((∀ s, row field ≠ some (.keyword s)) → n.eval (RLeaf.holds params row) = false) := by
  unfold walkWords at h
  split at h
  · next f ps =>
      obtain ⟨got, hgot, h⟩ := bind_eq_ok.mp h
      split_ifs at h with hsame
      · obtain ⟨rfl, hsort⟩ := hsame
        have hperm := perm_of_mergeSort hsort
        rw [BoolTree.eval_leaf, RLeaf.holds]
        refine ⟨fun s hs ↦ ?_, fun hs ↦ ?_⟩
        · rw [hs]
          exact (any_str hgot s).trans hperm.mem_iff
        · split
          · next s hrow => exact absurd hrow (hs s)
          · rfl
      · exact absurd h not_mismatch
  · exact absurd h not_mismatch

theorem eval_of_walkInts (row : Fields) {p : Predicate} {field : String} {ops : List Operand}
    (h : walkInts debug params p field ops n = .ok ()) :
    ints ops ≠ [] ∧
    (∀ k, row field = some (.int k) →
      (n.eval (RLeaf.holds params row) = true ↔ .fin k ∈ ints ops)) ∧
    ((∀ k, row field ≠ some (.int k)) → n.eval (RLeaf.holds params row) = false) := by
  unfold walkInts at h
  split at h
  · exact absurd h not_mismatch
  · next pts hpts =>
      obtain ⟨got, hgot, h⟩ := bind_eq_ok.mp h
      split_ifs at h with hsame
      · have hperm := perm_of_mergeSort (F64.eq_of_isEqv hsame)
        obtain ⟨hint, hother⟩ := any_points row hgot
        rw [eval_points hpts]
        exact ⟨ne_nil_of_points hpts, fun k hk ↦ (hint k hk).trans hperm.mem_iff, hother⟩
      · exact absurd h not_mismatch

theorem walkLeaf_match {field : String} {ops : List Operand} :
    walkLeaf debug params ⟨field, .match ops⟩ n =
      if words ops ≠ [] ∧ ints ops = [] then
        walkWords debug params (.leaf ⟨field, .match ops⟩) field ops n
      else walkInts debug params (.leaf ⟨field, .match ops⟩) field ops n := by
  unfold walkLeaf
  rcases n with (_ | _ | _) | _ | _ <;> rfl

/-- A range leaf is expressed by one interval. -/
theorem walkLeaf_range {field : String} {gt gte lt lte : Option F64}
    (h : walkLeaf debug params ⟨field, .range gt gte lt lte⟩ n = .ok ()) :
    ∃ lo hi, n = .leaf (.range field lo hi) ∧
      walkRange debug params (.leaf ⟨field, .range gt gte lt lte⟩) n gt gte lt lte lo hi =
        .ok () := by
  unfold walkLeaf at h
  rcases n with (⟨f, lo, hi⟩ | _ | _) | _ | _
  · dsimp only at h
    split_ifs at h with hf
    · exact absurd h not_mismatch
    · rw [ne_eq, not_not] at hf
      exact ⟨lo, hi, hf ▸ rfl, h⟩
  all_goals exact absurd h not_mismatch

/-- A text leaf is expressed by its term. -/
theorem walkLeaf_text {field term : String}
    (h : walkLeaf debug params ⟨field, .text term⟩ n = .ok ()) :
    ∃ p, n = .leaf (.text field p) ∧ params p = some (.str term) := by
  unfold walkLeaf at h
  rcases n with (_ | _ | ⟨f, p⟩) | _ | _
  case leaf.text =>
      dsimp only at h
      split_ifs at h with hf
      · exact absurd h not_mismatch
      · rw [ne_eq, not_not] at hf
        obtain ⟨s, hs, h⟩ := bind_eq_ok.mp h
        split_ifs at h with hterm
        · exact ⟨p, hf ▸ rfl, hterm ▸ text_eq_ok.mp hs⟩
        · exact absurd h not_mismatch
  all_goals exact absurd h not_mismatch

/-- Operands of one kind, compared with the node they were accepted for. -/
theorem eval_of_walkMatch {field : String} {ops : List Operand} (hexact : ∀ op ∈ ops, op.Exact)
    (hwalk : walkLeaf debug params ⟨field, .match ops⟩ n = .ok ()) {value : FieldValue}
    (hrow : row field = some value)
    (hmatch : (LeafOp.match ops).matches debug.string field value = .ok b) :
    n.eval (RLeaf.holds params row) = b := by
  rw [walkLeaf_match] at hwalk
  cases value with
  | keyword s =>
      obtain ⟨hnone, hb⟩ := matches_keyword hmatch
      split_ifs at hwalk with hwords
      · exact Bool.eq_iff_iff.mpr (((eval_of_walkWords row hwalk).1 s hrow).trans hb.symm)
      · exact absurd hnone (eval_of_walkInts row hwalk).1
  | int k =>
      obtain ⟨hnone, hb⟩ := matches_int hexact hmatch
      rw [if_neg fun h ↦ h.1 hnone] at hwalk
      exact Bool.eq_iff_iff.mpr (((eval_of_walkInts row hwalk).2.1 k hrow).trans hb.symm)
  | other => cases hmatch
  | unknown => cases hmatch

theorem eval_of_walkRange {field : String} {gt gte lt lte : Option F64}
    (hcompiled : (LeafOp.range gt gte lt lte).Compiled)
    (hwalk : walkLeaf debug params ⟨field, .range gt gte lt lte⟩ n = .ok ()) {value : FieldValue}
    (hrow : row field = some value)
    (hmatch : (LeafOp.range gt gte lt lte).matches debug.string field value = .ok b) :
    n.eval (RLeaf.holds params row) = b := by
  obtain ⟨lo, hi, rfl, hrange⟩ := walkLeaf_range hwalk
  obtain ⟨hlo, hhi⟩ := resolved_of_walkRange hrange
  cases value with
  | int k =>
      rw [LeafOp.matches] at hmatch
      split_ifs at hmatch with hexact
      have hk := F64.ofInt_of_le (not_lt.mp hexact)
      cases hmatch
      rw [BoolTree.eval_leaf, RLeaf.holds, hrow]
      dsimp only
      rw [endHolds_of_resolved hcompiled.1 hlo, endHolds_of_resolved hcompiled.2 hhi, hk,
        Bool.and_assoc, Bool.and_assoc, Bool.and_assoc]
  | keyword s => cases hmatch
  | other => cases hmatch
  | unknown => cases hmatch

theorem eval_of_walkText {field term : String}
    (hwalk : walkLeaf debug params ⟨field, .text term⟩ n = .ok ()) {value : FieldValue}
    (hrow : row field = some value)
    (hmatch : (LeafOp.text term).matches debug.string field value = .ok b) :
    n.eval (RLeaf.holds params row) = b := by
  obtain ⟨p, rfl, hp⟩ := walkLeaf_text hwalk
  cases value with
  | keyword s =>
      rw [LeafOp.matches] at hmatch
      rw [BoolTree.eval_leaf, RLeaf.holds, hrow, hp]
      dsimp only
      split at hmatch
      · next hyes =>
          cases hmatch
          rw [hyes]
          rfl
      · next hno =>
          cases hmatch
          rw [hno]
          rfl
      · cases hmatch
  | int k => cases hmatch
  | other => cases hmatch
  | unknown => cases hmatch

/-- The node of an accepted leaf is false of a row without the field. -/
theorem eval_of_absent {field : String} {op : LeafOp}
    (hwalk : walkLeaf debug params ⟨field, op⟩ n = .ok ()) (hrow : row field = none) :
    n.eval (RLeaf.holds params row) = false := by
  have habsent : ∀ value, row field ≠ some value := fun value hv ↦ by
    rw [hrow] at hv
    cases hv
  rcases op with ops | ⟨gt, gte, lt, lte⟩ | term
  · rw [walkLeaf_match] at hwalk
    split_ifs at hwalk
    · exact (eval_of_walkWords row hwalk).2 fun s ↦ habsent (.keyword s)
    · exact (eval_of_walkInts row hwalk).2.2 fun k ↦ habsent (.int k)
  · obtain ⟨lo, hi, rfl, -⟩ := walkLeaf_range hwalk
    rw [BoolTree.eval_leaf, RLeaf.holds, hrow]
  · obtain ⟨p, rfl, -⟩ := walkLeaf_text hwalk
    rw [BoolTree.eval_leaf, RLeaf.holds, hrow]

/-- The node of an accepted leaf says what the leaf says, of every row the leaf can be
evaluated on. -/
theorem eval_of_walkLeaf (hwalk : walkLeaf debug params l n = .ok ())
    (hcompiled : l.leaf.Compiled) (hmatch : l.matches debug.string row = .ok b) :
    n.eval (RLeaf.holds params row) = b := by
  obtain ⟨field, op⟩ := l
  rw [PredicateLeaf.matches] at hmatch
  split at hmatch
  · next hrow =>
      cases hmatch
      exact eval_of_absent hwalk hrow
  · next value hrow =>
      rcases op with ops | ⟨gt, gte, lt, lte⟩ | term
      · exact eval_of_walkMatch hcompiled hwalk hrow hmatch
      · exact eval_of_walkRange hcompiled hwalk hrow hmatch
      · exact eval_of_walkText hwalk hrow hmatch

end Leaf

/-! ## Trees -/

theorem walkEach_eq_ok {R : Predicate → RNode → Prop} {ps : List Predicate} {ns : List RNode}
    (h : ∀ p ∈ ps, ∀ n, walk debug params p n = .ok () ↔ R p n) (hlen : ps.length = ns.length) :
    walkEach debug params ps ns = .ok () ↔ List.Forall₂ R ps ns := by
  induction ps generalizing ns with
  | nil =>
      cases ns with
      | nil =>
          rw [walkEach]
          · exact iff_of_true rfl .nil
          · rintro p ps n ns ⟨⟩
      | cons n ns => cases hlen
  | cons p ps ih =>
      cases ns with
      | nil => cases hlen
      | cons n ns =>
          rw [walkEach, List.forall₂_cons, ← h p List.mem_cons_self n,
            ← ih (fun p hp ↦ h p (List.mem_cons_of_mem _ hp)) (Nat.succ.inj hlen)]
          constructor
          · intro hwalk
            obtain ⟨⟨⟩, hp, hps⟩ := bind_eq_ok.mp hwalk
            exact ⟨hp, hps⟩
          · rintro ⟨hp, hps⟩
            rw [hp]
            exact hps

/-- The walk accepts exactly the trees that are aligned and whose leaves it accepts. -/
theorem walk_eq_ok {p : Predicate} {n : RNode} :
    walk debug params p n = .ok () ↔
      BoolTree.Aligned (fun l n ↦ walkLeaf debug params l n = .ok ()) p n := by
  induction p using BoolTree.induct generalizing n with
  | leaf l =>
      rw [BoolTree.aligned_leaf]
      cases n <;> rw [walk]
  | all ps ih =>
      rw [BoolTree.aligned_all]
      cases n with
      | leaf l =>
          refine iff_of_false not_mismatch ?_
          rintro ⟨ns, ⟨⟩, -⟩
      | any ns =>
          refine iff_of_false not_mismatch ?_
          rintro ⟨ns, ⟨⟩, -⟩
      | all ns =>
          rw [walk]
          split_ifs with hlen
          · refine iff_of_false not_mismatch ?_
            rintro ⟨ns', ⟨⟩, h⟩
            exact hlen h.length_eq
          · rw [walkEach_eq_ok (fun p hp n ↦ ih p hp) (not_not.mp hlen)]
            constructor
            · exact fun h ↦ ⟨ns, rfl, h⟩
            · rintro ⟨ns', ⟨⟩, h⟩
              exact h
  | any ps ih =>
      rw [BoolTree.aligned_any]
      cases n with
      | leaf l =>
          refine iff_of_false not_mismatch ?_
          rintro ⟨ns, ⟨⟩, -⟩
      | all ns =>
          refine iff_of_false not_mismatch ?_
          rintro ⟨ns, ⟨⟩, -⟩
      | any ns =>
          rw [walk]
          split_ifs with hlen
          · refine iff_of_false not_mismatch ?_
            rintro ⟨ns', ⟨⟩, h⟩
            exact hlen h.length_eq
          · rw [walkEach_eq_ok (fun p hp n ↦ ih p hp) (not_not.mp hlen)]
            constructor
            · exact fun h ↦ ⟨ns, rfl, h⟩
            · rintro ⟨ns', ⟨⟩, h⟩
              exact h

/-- An accepted filter is true of exactly the rows the predicate is true of, among those
the predicate can be evaluated on. -/
theorem checkRedisFilter_sound {display : Json → String} {conditions : Json} {p : Predicate}
    {expr : Text} (hcompile : compile display debug.string conditions = .ok p)
    (hcheck : checkRedisFilter debug params p expr = .ok ()) :
    ∃ node, parseRedisFilter debug expr = .ok node ∧
      ∀ (row : Fields) (b : Bool), p.matches debug.string row = .ok b →
        node.eval (RLeaf.holds params row) = b := by
  rw [checkRedisFilter] at hcheck
  obtain ⟨node, hparse, hwalk⟩ := bind_eq_ok.mp hcheck
  refine ⟨node, hparse, fun row b hmatch ↦ ?_⟩
  have hleaves := compiled_of_compile hcompile
  rw [← BoolTree.leaves_flatten] at hleaves
  rw [Predicate.matches, ← BoolTree.run_flatten] at hmatch
  rw [← BoolTree.eval_flatten]
  exact (walk_eq_ok.mp hwalk).eval_of_run
    (fun l hl n b hn hb ↦ eval_of_walkLeaf hn (hleaves l hl) hb) hmatch

/-- A term or a range with one bound. -/
def textOrTier : Json :=
  .object [("or", .array
    [.object [("title", .object [("match", .object [("text", .string "corpus")])])],
      .object [("tier", .object [("range", .object
        [("lte", .number (.posInt 4 (Nat.le_of_ble_eq_true rfl)))])])]])]

def textOrTierPredicate : Predicate :=
  .any [.leaf ⟨"title", .text "corpus"⟩, .leaf ⟨"tier", .range none none none (some (.fin 4))⟩]

def textOrTierParams (name : String) : Option RedisParam :=
  if name = "c" then some (.str "corpus") else if name = "d" then some (.num (.fin 4)) else none

theorem checkRedisFilter_sound_textOrTier :
    ∃ node, parseRedisFilter ⟨id, fun _ ↦ "", fun _ ↦ "", fun _ ↦ ""⟩
        "(@title:($c) | @tier:[-inf $d])".toList = .ok node ∧
      ∀ (row : Fields) (b : Bool), textOrTierPredicate.matches id row = .ok b →
        node.eval (RLeaf.holds textOrTierParams row) = b := by
  have hcompile : compile (fun _ ↦ "") id textOrTier = .ok textOrTierPredicate := rfl
  refine checkRedisFilter_sound hcompile ?_
  decide +kernel

end Hybrid

end VectorDbBenchmark
