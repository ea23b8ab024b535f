import Mathlib.Order.UpperLower.Basic
import VectorDbBenchmark.Kit.Ordered
import VectorDbBenchmark.Redis.Query

/-!
# Numeric ranges, read back

What the server reads the text of a range leaf as, a conjunction of intervals each of which
some value of the field has to lie in, and that this asks for one value within all bounds.
-/

namespace VectorDbBenchmark.Redis

open Kit

/-! ## Intervals -/

inductive RangeEnd where
  | unbounded
  | param (name : String) (exclusive : Bool)
deriving DecidableEq

structure Interval where
  field : String
  lo : RangeEnd
  hi : RangeEnd
deriving DecidableEq

/-- Where the reader stands in a conjunction of intervals. -/
inductive Cursor where
  | next
  | field
  | colon (field : String)
  | lo (field : String) (exclusive : Bool)
  | blank (field : String) (lo : RangeEnd)
  | hi (field : String) (lo : RangeEnd) (exclusive : Bool)
  | shut (i : Interval)
  | between
deriving DecidableEq

structure Reader where
  intervals : List Interval := []
  cursor : Cursor := .next
deriving DecidableEq

/-- The piece is the text `s`, and the reader goes on at a place. -/
def Reader.expect (r : Reader) (s : String) (p : Piece) (c : Cursor) : Option Reader :=
  if p = .lit s then some { r with cursor := c } else none

/-- An end of an interval. -/
def Reader.readEnd (r : Reader) (inf : String) (exclusive : Bool) (p : Piece)
    (again : Cursor) (k : RangeEnd → Cursor) : Option Reader :=
  match p with
  | .ref name => some { r with cursor := k (.param name exclusive) }
  | .lit s =>
    if exclusive then none
    else if s = "(" then some { r with cursor := again }
    else if s = inf then some { r with cursor := k .unbounded }
    else none

def Reader.step (r : Reader) (p : Piece) : Option Reader :=
  match r.cursor with
  | .next => r.expect "@" p .field
  | .field =>
    match p with
    | .lit f => some { r with cursor := .colon f }
    | .ref _ => none
  | .colon f => r.expect ":[" p (.lo f false)
  | .lo f exclusive => r.readEnd "-inf" exclusive p (.lo f true) (.blank f)
  | .blank f lo => r.expect " " p (.hi f lo false)
  | .hi f lo exclusive => r.readEnd "+inf" exclusive p (.hi f lo true) fun hi ↦ .shut ⟨f, lo, hi⟩
  | .shut i => (r.expect "]" p .between).map fun r ↦ { r with intervals := r.intervals ++ [i] }
  | .between => r.expect " " p .next

/-- The intervals of a query: one at least, with blanks between them. -/
def readIntervals (q : Query) : Option (List Interval) :=
  (q.foldlM Reader.step {}).bind fun r ↦ if r.cursor = .between then some r.intervals else none

/-! ## Rendered intervals -/

namespace RangeEnd

/-- The text of an end. -/
def query (inf : String) : RangeEnd → Query
  | unbounded => [.lit inf]
  | param name true => [.lit "(", .ref name]
  | param name false => [.ref name]

end RangeEnd

/-- The left end a bound asks for. -/
def Bound.lowerEndpoint (b : Bound) : Option RangeEnd :=
  match b.operator with
  | .gt => some (.param b.parameter true)
  | .gte => some (.param b.parameter false)
  | .lt | .lte => none

/-- The right end a bound asks for. -/
def Bound.upperEndpoint (b : Bound) : Option RangeEnd :=
  match b.operator with
  | .lt => some (.param b.parameter true)
  | .lte => some (.param b.parameter false)
  | .gt | .gte => none

/-- The ends on one side, which is open when there are none. -/
def orUnbounded (ends : List RangeEnd) : List RangeEnd :=
  if ends.isEmpty then [.unbounded] else ends

/-- The intervals of a list of bounds. -/
def pairings (field : String) (bounds : List Bound) : List Interval :=
  (orUnbounded (bounds.filterMap Bound.lowerEndpoint)).flatMap fun lo ↦
    (orUnbounded (bounds.filterMap Bound.upperEndpoint)).map fun hi ↦ ⟨field, lo, hi⟩

theorem lower_eq_query (b : Bound) : b.lower = b.lowerEndpoint.map (RangeEnd.query "-inf") := by
  obtain ⟨p, op⟩ := b
  cases op <;> rfl

theorem upper_eq_query (b : Bound) : b.upper = b.upperEndpoint.map (RangeEnd.query "+inf") := by
  obtain ⟨p, op⟩ := b
  cases op <;> rfl

theorem endsOr_map (inf : String) (ends : List RangeEnd) :
    endsOr inf (ends.map (RangeEnd.query inf)) = (orUnbounded ends).map (RangeEnd.query inf) := by
  cases ends <;> rfl

def Interval.query (i : Interval) : Query :=
  interval i.field (i.lo.query "-inf") (i.hi.query "+inf")

theorem render_eq (field : String) {bounds : List Bound} (h : bounds ≠ []) :
    render field bounds = some (.join " " ((pairings field bounds).map Interval.query)) := by
  have hlower : bounds.filterMap Bound.lower =
      (bounds.filterMap Bound.lowerEndpoint).map (RangeEnd.query "-inf") := by
    rw [List.map_filterMap]
    exact List.filterMap_congr fun b _ ↦ lower_eq_query b
  have hupper : bounds.filterMap Bound.upper =
      (bounds.filterMap Bound.upperEndpoint).map (RangeEnd.query "+inf") := by
    rw [List.map_filterMap]
    exact List.filterMap_congr fun b _ ↦ upper_eq_query b
  rw [render, if_neg (mt List.isEmpty_iff.mp h), hlower, hupper, endsOr_map, endsOr_map, pairings]
  simp only [List.flatMap_map, List.map_flatMap, List.map_map]
  rfl

/-! ## What they are read as -/

theorem foldlM_lo (r : Reader) (field : String) (e : RangeEnd) :
    (e.query "-inf").foldlM Reader.step { r with cursor := .lo field false } =
      some { r with cursor := .blank field e } := by
  rcases e with _ | ⟨name, _ | _⟩ <;> rfl

theorem foldlM_hi (r : Reader) (field : String) (lo e : RangeEnd) :
    (e.query "+inf").foldlM Reader.step { r with cursor := .hi field lo false } =
      some { r with cursor := .shut ⟨field, lo, e⟩ } := by
  rcases e with _ | ⟨name, _ | _⟩ <;> rfl

theorem foldlM_interval (r : Reader) (i : Interval) :
    i.query.foldlM Reader.step { r with cursor := .next } =
      some ⟨r.intervals ++ [i], .between⟩ := by
  obtain ⟨field, lo, hi⟩ := i
  have hopen : [Piece.lit "@", .lit field, .lit ":["].foldlM Reader.step
      { r with cursor := .next } = some { r with cursor := .lo field false } := rfl
  have hblank : [Piece.lit " "].foldlM Reader.step { r with cursor := .blank field lo } =
      some { r with cursor := .hi field lo false } := rfl
  have hshut : [Piece.lit "]"].foldlM Reader.step { r with cursor := .shut ⟨field, lo, hi⟩ } =
      some ⟨r.intervals ++ [⟨field, lo, hi⟩], .between⟩ := rfl
  simp only [Interval.query, interval, List.foldlM_append, hopen, foldlM_lo, hblank, foldlM_hi,
    hshut, Option.bind_eq_bind, Option.bind_some]

/-- Intervals with blanks between them. -/
theorem foldlM_intervals (r : Reader) (i : Interval) (is : List Interval) :
    (Query.join " " ((i :: is).map Interval.query)).foldlM Reader.step { r with cursor := .next } =
      some ⟨r.intervals ++ i :: is, .between⟩ := by
  induction is generalizing r i with
  | nil =>
      rw [List.map_singleton, Query.join_singleton]
      exact foldlM_interval r i
  | cons j is ih =>
      have hblank : Reader.step ⟨r.intervals ++ [i], .between⟩ (.lit " ") =
          some ⟨r.intervals ++ [i], .next⟩ := rfl
      rw [List.map_cons, List.map_cons, Query.join_cons_cons, List.foldlM_append, foldlM_interval,
        Option.bind_eq_bind, Option.bind_some, List.foldlM_cons, hblank, Option.bind_eq_bind,
        Option.bind_some, ← List.map_cons]
      refine (ih ⟨r.intervals ++ [i], .next⟩ j).trans ?_
      rw [List.append_assoc, List.singleton_append]

theorem orUnbounded_ne_nil (ends : List RangeEnd) : orUnbounded ends ≠ [] := by
  rw [orUnbounded]
  split_ifs with h
  · exact List.cons_ne_nil _ _
  · exact mt List.isEmpty_iff.mpr h

/-- The text of a range leaf is read as its pairings. -/
theorem readIntervals_render (field : String) {bounds : List Bound} (h : bounds ≠ []) :
    ∃ q, render field bounds = some q ∧ readIntervals q = some (pairings field bounds) := by
  refine ⟨_, render_eq field h, ?_⟩
  obtain ⟨lo, los, hlo⟩ := List.exists_cons_of_ne_nil
    (orUnbounded_ne_nil (bounds.filterMap Bound.lowerEndpoint))
  obtain ⟨hi, his, hhi⟩ := List.exists_cons_of_ne_nil
    (orUnbounded_ne_nil (bounds.filterMap Bound.upperEndpoint))
  obtain ⟨i, is, his⟩ : ∃ i is, pairings field bounds = i :: is := by
    rw [pairings, hlo, hhi]
    exact ⟨_, _, rfl⟩
  rw [his, readIntervals]
  refine (congrArg (Option.bind · _) (foldlM_intervals {} i is)).trans ?_
  rfl

section Holds

universe u

variable {α : Type u} [LinearOrder α] (value : String → α) (x : α)

def RangeEnd.above : RangeEnd → Prop
  | unbounded => True
  | param p true => value p < x
  | param p false => value p ≤ x

def RangeEnd.below : RangeEnd → Prop
  | unbounded => True
  | param p true => x < value p
  | param p false => x ≤ value p

def Interval.holds (i : Interval) : Prop := i.lo.above value x ∧ i.hi.below value x

/-- Whether a value is on the right side of a bound. -/
def Bound.holds (b : Bound) : Prop :=
  match b.operator with
  | .lt => x < value b.parameter
  | .gt => value b.parameter < x
  | .lte => x ≤ value b.parameter
  | .gte => value b.parameter ≤ x

variable {value : String → α}

theorem isUpperSet_above (e : RangeEnd) : IsUpperSet {x | e.above value x} := by
  intro x y hxy hx
  rcases e with _ | ⟨name, _ | _⟩
  · exact trivial
  · exact le_trans hx hxy
  · exact lt_of_lt_of_le hx hxy

theorem isLowerSet_below (e : RangeEnd) : IsLowerSet {x | e.below value x} := by
  intro x y hxy hx
  rcases e with _ | ⟨name, _ | _⟩
  · exact trivial
  · exact le_trans hxy hx
  · exact lt_of_le_of_lt hxy hx

theorem forall_orUnbounded {ends : List RangeEnd} {P : RangeEnd → Prop} (h : P .unbounded) :
    (∀ e ∈ orUnbounded ends, P e) ↔ ∀ e ∈ ends, P e := by
  cases ends with
  | nil =>
      refine ⟨fun _ e he ↦ absurd he List.not_mem_nil, fun _ ↦ ?_⟩
      exact List.forall_mem_singleton.mpr h
  | cons _ _ => rfl

/-- A value is on the right side of a bound when it is so of the end the bound asks for. -/
theorem holds_iff (b : Bound) (x : α) :
    b.holds value x ↔ (∀ e, b.lowerEndpoint = some e → e.above value x) ∧
      ∀ e, b.upperEndpoint = some e → e.below value x := by
  obtain ⟨p, op⟩ := b
  cases op <;>
    simp [Bound.holds, Bound.lowerEndpoint, Bound.upperEndpoint, RangeEnd.above, RangeEnd.below]

theorem forall_holds_iff (bounds : List Bound) (x : α) :
    (∀ b ∈ bounds, b.holds value x) ↔
      (∀ e ∈ orUnbounded (bounds.filterMap Bound.lowerEndpoint), e.above value x) ∧
        ∀ e ∈ orUnbounded (bounds.filterMap Bound.upperEndpoint), e.below value x := by
  rw [forall_orUnbounded (by exact trivial), forall_orUnbounded (by exact trivial)]
  simp only [holds_iff, List.mem_filterMap]
  constructor
  · intro h
    constructor
    · rintro e ⟨b, hb, he⟩
      exact (h b hb).1 e he
    · rintro e ⟨b, hb, he⟩
      exact (h b hb).2 e he
  · rintro ⟨hlo, hhi⟩ b hb
    exact ⟨fun e he ↦ hlo e ⟨b, hb, he⟩, fun e he ↦ hhi e ⟨b, hb, he⟩⟩

end Holds

/-! ## One value within all bounds -/

universe u

/-- For each pairing of ends a value of the field lies between them exactly when one value
lies within all. -/
theorem forall_pairings_iff {α : Type u} [LinearOrder α] {value : String → α} {held : Finset α}
    {los his : List RangeEnd} (hlos : los ≠ []) (hhis : his ≠ []) :
    (∀ lo ∈ los, ∀ hi ∈ his, ∃ x ∈ held, lo.above value x ∧ hi.below value x) ↔
      ∃ x ∈ held, (∀ lo ∈ los, lo.above value x) ∧ ∀ hi ∈ his, hi.below value x := by
  constructor
  · intro h
    obtain ⟨lo, hlo, hlow⟩ := exists_strongest (s := fun e : RangeEnd ↦ {x | e.above value x}) hlos
      fun e _ e' _ ↦ (isUpperSet_above e).total (isUpperSet_above e')
    obtain ⟨hi, hhi, hhigh⟩ := exists_strongest (s := fun e : RangeEnd ↦ {x | e.below value x}) hhis
      fun e _ e' _ ↦ (isLowerSet_below e).total (isLowerSet_below e')
    obtain ⟨x, hx, habove, hbelow⟩ := h lo hlo hi hhi
    exact ⟨x, hx, fun e he ↦ hlow e he habove, fun e he ↦ hhigh e he hbelow⟩
  · rintro ⟨x, hx, habove, hbelow⟩ lo hlo hi hhi
    exact ⟨x, hx, habove lo hlo, hbelow hi hhi⟩

/-- A range leaf is read as intervals of its field, and each of them has a value of the field
in it exactly when one value of the field satisfies all bounds. -/
theorem render_holds_iff (field : String) {bounds : List Bound} (h : bounds ≠ []) :
    ∃ q is, render field bounds = some q ∧ readIntervals q = some is ∧
      (∀ i ∈ is, i.field = field) ∧
      ∀ {α : Type u} [LinearOrder α] (value : String → α) (held : Finset α),
        (∀ i ∈ is, ∃ x ∈ held, i.holds value x) ↔
          ∃ x ∈ held, ∀ b ∈ bounds, b.holds value x := by
  obtain ⟨q, hq, hread⟩ := readIntervals_render field h
  refine ⟨q, _, hq, hread, ?_, ?_⟩
  · intro i hi
    obtain ⟨lo, -, hi⟩ := List.mem_flatMap.mp hi
    obtain ⟨hi', -, rfl⟩ := List.mem_map.mp hi
    rfl
  · intro α _ value held
    have hpairs : (∀ i ∈ pairings field bounds, ∃ x ∈ held, i.holds value x) ↔
        ∀ lo ∈ orUnbounded (bounds.filterMap Bound.lowerEndpoint),
          ∀ hi ∈ orUnbounded (bounds.filterMap Bound.upperEndpoint),
            ∃ x ∈ held, lo.above value x ∧ hi.below value x := by
      simp only [pairings, List.forall_mem_flatMap, List.forall_mem_map]
      rfl
    rw [hpairs, forall_pairings_iff (orUnbounded_ne_nil _) (orUnbounded_ne_nil _)]
    simp only [forall_holds_iff]

/-- Two lower bounds and an upper one. -/
theorem render_holds_iff_between :
    ∃ q is, render "n" [⟨"hi", .lt⟩, ⟨"lo", .gte⟩, ⟨"low", .gt⟩] = some q ∧
      readIntervals q = some is ∧ (∀ i ∈ is, i.field = "n") ∧
      ∀ {α : Type} [LinearOrder α] (value : String → α) (held : Finset α),
        (∀ i ∈ is, ∃ x ∈ held, i.holds value x) ↔
          ∃ x ∈ held, ∀ b ∈ [⟨"hi", .lt⟩, ⟨"lo", .gte⟩, ⟨"low", .gt⟩], Bound.holds value x b :=
  render_holds_iff "n" (List.cons_ne_nil _ _)

end VectorDbBenchmark.Redis
