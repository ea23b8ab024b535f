import VectorDbBenchmark.Kit.FirstOfKey
import VectorDbBenchmark.Msmarco.DerivedRow

/-!
# Counting the rows that match

`count_matches` and `matching_ids` of `src/msmarco/derived.rs`, which first ask every leaf of the
predicate about the first row.  A loop that runs in parallel reports the first of its errors.
-/

namespace VectorDbBenchmark.Msmarco

open Kit

section Code

variable {R : Type} (debug : String → String) (field : R → Fields) (rows : List R)

mutual

/-- Every leaf on the first row. -/
def checkLeaves : Predicate → Except String Unit
  | .leaf l =>
    match rows with
    | [] => .ok ()
    | row :: _ => (Predicate.matches debug (field row) (.leaf l)).map fun _ ↦ ()
  | .all ps => checkEach ps
  | .any ps => checkEach ps

def checkEach : List Predicate → Except String Unit
  | [] => .ok ()
  | p :: ps => do
    checkLeaves p
    checkEach ps

end

def countMatches (p : Predicate) : Except String ℕ := do
  checkLeaves debug field rows p
  let hits ← rows.mapM fun row ↦ (p.matches debug (field row)).map Bool.toNat
  .ok hits.sum

/-- One row with its id. -/
def matchingId (p : Predicate) (row : R × ℕ) : Except String (Option ℕ) :=
  (p.matches debug (field row.1)).map fun hit ↦ if hit then some row.2 else none

def matchingIds (p : Predicate) : Except String (List ℕ) := do
  checkLeaves debug field rows p
  let hits ← rows.zipIdx.mapM (matchingId debug field p)
  .ok (hits.filterMap id)

end Code

/-! ## The check -/

section Check

variable {R : Type} {debug : String → String} {field : R → Fields} {rows : List R} {row : R}

mutual

theorem checkLeaves_cons_eq_ok {p : Predicate} :
    checkLeaves debug field (row :: rows) p = .ok () ↔
      ∀ l ∈ p.leaves, ∃ b, l.matches debug (field row) = .ok b := by
  match p with
  | .leaf l =>
      rw [checkLeaves, Predicate.matches, BoolTree.run_leaf, BoolTree.leaves_leaf,
        List.forall_mem_singleton, map_eq_ok]
      exact exists_congr fun _ ↦ and_iff_left rfl
  | .all ps =>
      rw [checkLeaves, BoolTree.leaves_all]
      exact checkEach_cons_eq_ok
  | .any ps =>
      rw [checkLeaves, BoolTree.leaves_any]
      exact checkEach_cons_eq_ok

theorem checkEach_cons_eq_ok {ps : List Predicate} :
    checkEach debug field (row :: rows) ps = .ok () ↔
      ∀ l ∈ ps.flatMap BoolTree.leaves, ∃ b, l.matches debug (field row) = .ok b := by
  match ps with
  | [] => exact iff_of_true rfl fun l hl ↦ absurd hl List.not_mem_nil
  | p :: ps =>
      rw [checkEach, bind_eq_ok, List.flatMap_cons, List.forall_mem_append,
        ← checkLeaves_cons_eq_ok, ← checkEach_cons_eq_ok]
      constructor
      · rintro ⟨⟨⟩, hp, hps⟩
        exact ⟨hp, hps⟩
      · rintro ⟨hp, hps⟩
        exact ⟨(), hp, hps⟩

end

mutual

theorem checkLeaves_nil (p : Predicate) : checkLeaves debug field [] p = .ok () := by
  match p with
  | .leaf l => rw [checkLeaves]
  | .all ps => rw [checkLeaves, checkEach_nil]
  | .any ps => rw [checkLeaves, checkEach_nil]

theorem checkEach_nil (ps : List Predicate) : checkEach debug field [] ps = .ok () := by
  match ps with
  | [] => rfl
  | p :: ps =>
      rw [checkEach, checkLeaves_nil p, ok_bind]
      exact checkEach_nil ps

end

end Check

/-! ## Derived rows -/

section Derived

variable (debug : String → String)

/-- The truth of a leaf, false where it fails. -/
def PredicateLeaf.truth (row : DerivedRow) (l : PredicateLeaf) : Bool :=
  (l.matches debug row.field).toOption.getD false

/-- The truth of a predicate whose groups ask all their children. -/
def Predicate.truth (p : Predicate) (row : DerivedRow) : Bool :=
  p.eval (PredicateLeaf.truth debug row)

variable {debug} {rows : List DerivedRow} {p : Predicate}

/-- The first row speaks for all. -/
theorem checkLeaves_eq_ok :
    checkLeaves debug (fun row : DerivedRow ↦ row.field) rows p = .ok () ↔
      rows = [] ∨ ∀ l ∈ p.leaves, l.WellTyped := by
  cases rows with
  | nil => exact iff_of_true (checkLeaves_nil p) (.inl rfl)
  | cons row rows =>
      rw [checkLeaves_cons_eq_ok, or_iff_right (List.cons_ne_nil row rows)]
      exact forall₂_congr fun l _ ↦ row.matches_ok_iff debug l

theorem matches_of_wellTyped (row : DerivedRow) {l : PredicateLeaf} (h : l.WellTyped) :
    l.matches debug row.field = .ok (l.truth debug row) := by
  obtain ⟨b, hb⟩ := (row.matches_ok_iff debug l).mpr h
  rw [PredicateLeaf.truth, hb]
  rfl

theorem matches_eq_truth (row : DerivedRow) (h : ∀ l ∈ p.leaves, l.WellTyped) :
    p.matches debug row.field = .ok (p.truth debug row) :=
  BoolTree.run_eq_ok_eval fun l hl ↦ matches_of_wellTyped row (h l hl)

theorem sum_map_toNat {α : Type} (f : α → Bool) (xs : List α) :
    (xs.map fun x ↦ (f x).toNat).sum = xs.countP f := by
  induction xs with
  | nil => rfl
  | cons x xs ih =>
      rw [List.map_cons, List.sum_cons, ih, List.countP_cons, Nat.add_comm]
      cases f x <;> rfl

theorem matches_of_mem (h : rows = [] ∨ ∀ l ∈ p.leaves, l.WellTyped) {row : DerivedRow}
    (hrow : row ∈ rows) : p.matches debug row.field = .ok (p.truth debug row) := by
  rcases h with rfl | h
  · cases hrow
  · exact matches_eq_truth row h

/-- The plain count, where nothing is ill-typed. -/
theorem countMatches_eq_ok (h : rows = [] ∨ ∀ l ∈ p.leaves, l.WellTyped) :
    countMatches debug (fun row : DerivedRow ↦ row.field) rows p =
      .ok (rows.countP (Predicate.truth debug p)) := by
  have hrounds : (rows.mapM fun row ↦ (p.matches debug row.field).map Bool.toNat) =
      .ok (rows.map fun row ↦ (p.truth debug row).toNat) := by
    rw [mapM_eq_ok, List.forall₂_map_right_iff, List.forall₂_same]
    intro row hrow
    rw [matches_of_mem h hrow]
    rfl
  rw [countMatches, checkLeaves_eq_ok.mpr h, ok_bind, hrounds, ok_bind, sum_map_toNat]

theorem filterMap_ids {α : Type} (f : α → Bool) (xs : List (α × ℕ)) :
    (xs.map fun x ↦ if f x.1 then some x.2 else none).filterMap id =
      (xs.filter fun x ↦ f x.1).map Prod.snd := by
  induction xs with
  | nil => rfl
  | cons x xs ih =>
      rw [List.map_cons, List.filter_cons]
      cases f x.1 with
      | true => exact congrArg (List.cons x.2) ih
      | false => exact ih

theorem matchingIds_eq_ok (h : rows = [] ∨ ∀ l ∈ p.leaves, l.WellTyped) :
    matchingIds debug (fun row : DerivedRow ↦ row.field) rows p =
      .ok (positions (Predicate.truth debug p) rows) := by
  have hrounds : rows.zipIdx.mapM (matchingId debug (fun row : DerivedRow ↦ row.field) p) =
      .ok (rows.zipIdx.map fun row ↦ if p.truth debug row.1 then some row.2 else none) := by
    rw [mapM_eq_ok, List.forall₂_map_right_iff, List.forall₂_same]
    intro row hrow
    rw [matchingId, matches_of_mem h (List.fst_mem_of_mem_zipIdx hrow)]
    rfl
  rw [matchingIds, checkLeaves_eq_ok.mpr h, ok_bind, hrounds, ok_bind, filterMap_ids, positions]

/-- A count is the plain count, with every leaf of a type that fits, and the matching ids are
the positions that it counts; with an ill-typed leaf both fail, as soon as there is a row. -/
theorem countMatches_spec (debug : String → String) (rows : List DerivedRow) (p : Predicate) :
    (∀ n, countMatches debug (fun row : DerivedRow ↦ row.field) rows p = .ok n →
      (∀ row ∈ rows, ∀ l ∈ p.leaves, l.matches debug row.field = .ok (l.truth debug row)) ∧
      n = rows.countP (Predicate.truth debug p) ∧
      ∃ ids, matchingIds debug (fun row : DerivedRow ↦ row.field) rows p = .ok ids ∧
        ids.Pairwise (· < ·) ∧
        ∀ i, i ∈ ids ↔ ∃ row, rows[i]? = some row ∧ p.truth debug row = true) ∧
    (rows ≠ [] → (∃ l ∈ p.leaves, ¬l.WellTyped) →
      (∃ e, countMatches debug (fun row : DerivedRow ↦ row.field) rows p = .error e) ∧
      ∃ e, matchingIds debug (fun row : DerivedRow ↦ row.field) rows p = .error e) := by
  constructor
  · intro n hn
    obtain ⟨⟨⟩, hcheck, -⟩ := bind_eq_ok.mp hn
    have h := checkLeaves_eq_ok.mp hcheck
    rw [countMatches_eq_ok h] at hn
    refine ⟨fun row hrow l hl ↦ ?_, (Except.ok.inj hn).symm, _, matchingIds_eq_ok h,
      pairwise_positions _ rows, fun i ↦ mem_positions⟩
    rcases h with rfl | h
    · cases hrow
    · exact matches_of_wellTyped row (h l hl)
  · rintro hrows ⟨l, hl, hill⟩
    have hcheck : checkLeaves debug (fun row : DerivedRow ↦ row.field) rows p ≠ .ok () := by
      rw [ne_eq, checkLeaves_eq_ok, not_or]
      exact ⟨hrows, fun h ↦ hill (h l hl)⟩
    rw [countMatches, matchingIds]
    cases h : checkLeaves debug (fun row : DerivedRow ↦ row.field) rows p with
    | ok _ => exact absurd h hcheck
    | error e => exact ⟨⟨e, rfl⟩, e, rfl⟩

/-- The first disjunct holds of the row, and the second is ill-typed. -/
def tierOrInteger : Predicate :=
  .any [.leaf ⟨"tier", .match [.int 3]⟩, .leaf ⟨"category", .match [.int 7]⟩]

theorem countMatches_sampleRow :
    (∃ ids, matchingIds id (fun row : DerivedRow ↦ row.field) [sampleRow]
        (.leaf ⟨"tier", .match [.int 3]⟩) = .ok ids ∧ 0 ∈ ids) ∧
    tierOrInteger.matches id sampleRow.field = .ok true ∧
    ∃ e, countMatches id (fun row : DerivedRow ↦ row.field) [sampleRow] tierOrInteger =
      .error e := by
  have htext : ¬(LeafOp.match [.int 7]).OnKeyword := by
    rintro h
    obtain ⟨s, ⟨⟩⟩ := h _ List.mem_cons_self
  refine ⟨?_, rfl, ?_⟩
  · obtain ⟨-, -, ids, hids, -, hmem⟩ :=
      (countMatches_spec id [sampleRow] (.leaf ⟨"tier", .match [.int 3]⟩)).1 1 rfl
    exact ⟨ids, hids, (hmem 0).mpr ⟨sampleRow, rfl, rfl⟩⟩
  · refine ((countMatches_spec id [sampleRow] tierOrInteger).2 (List.cons_ne_nil _ _) ?_).1
    refine ⟨⟨"category", .match [.int 7]⟩, by decide, ?_⟩
    rw [PredicateLeaf.WellTyped, if_pos rfl]
    exact htext

end Derived

end VectorDbBenchmark.Msmarco
