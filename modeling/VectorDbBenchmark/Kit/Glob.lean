import Mathlib.Data.List.Infix
import VectorDbBenchmark.Kit.Bytes
import VectorDbBenchmark.Kit.Text

/-!
# Glob patterns

Patterns over bytes in which `*` stands for any bytes, `?` for one byte, brackets for one of
several and a backslash for the byte behind it.  A pattern without such bytes in front of a
final `*` accepts what begins with it.
-/

namespace Kit

/-- A part of a pattern. -/
inductive GlobPart where
  | star
  | any
  | literal (b : UInt8)
  /-- A byte in one of the ranges, or in none of them. -/
  | oneOf (negated : Bool) (ranges : List (UInt8 × UInt8))
deriving DecidableEq

abbrev Glob := List GlobPart

/-- Whether a part stands for a byte. -/
def GlobPart.admits (b : UInt8) : GlobPart → Bool
  | star => false
  | any => true
  | literal b' => b = b'
  | oneOf negated ranges => (ranges.any fun r ↦ r.1 ≤ b && b ≤ r.2) != negated

namespace Glob

def accepts : Glob → Bytes → Bool
  | [], bs => bs.isEmpty
  | .star :: ps, bs => bs.tails.any (accepts ps)
  | _ :: _, [] => false
  | p :: ps, b :: bs => p.admits b && accepts ps bs

/-- The bytes with a meaning: star, question mark, bracket and backslash. -/
def special : List UInt8 := [42, 63, 91, 92]

mutual

/-- The parts that a pattern is made of. -/
def parse : Bytes → Glob
  | [] => []
  | 42 :: bs => .star :: parse bs
  | 63 :: bs => .any :: parse bs
  | 91 :: 94 :: bs => parseClass true [] bs
  | 91 :: bs => parseClass false [] bs
  | 92 :: b :: bs => .literal b :: parse bs
  | b :: bs => .literal b :: parse bs

/-- A class up to its bracket; a range may be given from its greater end. -/
def parseClass (negated : Bool) (ranges : List (UInt8 × UInt8)) : Bytes → Glob
  | [] => [.oneOf negated ranges]
  | 92 :: b :: bs => parseClass negated ((b, b) :: ranges) bs
  | 93 :: bs => .oneOf negated ranges :: parse bs
  | b :: 45 :: b' :: bs => parseClass negated ((min b b', max b b') :: ranges) bs
  | b :: bs => parseClass negated ((b, b) :: ranges) bs

end

/-! ## Literal patterns -/

theorem accepts_literal {b : UInt8} {ps : Glob} {bs : Bytes} :
    accepts (.literal b :: ps) bs = true ↔ ∃ cs, bs = b :: cs ∧ accepts ps cs = true := by
  cases bs with
  | nil => simp [accepts]
  | cons c cs =>
      rw [accepts, Bool.and_eq_true, GlobPart.admits, decide_eq_true_eq]
      constructor
      · rintro ⟨rfl, h⟩
        exact ⟨cs, rfl, h⟩
      · rintro ⟨cs', heq, h⟩
        obtain ⟨rfl, rfl⟩ := List.cons.inj heq
        exact ⟨rfl, h⟩
      · intro hstar
        cases hstar

/-- A star at the end accepts all bytes. -/
theorem accepts_star (bs : Bytes) : accepts [.star] bs = true := by
  rw [accepts, List.any_eq_true]
  exact ⟨[], (List.mem_tails _ _).mpr List.nil_suffix, rfl⟩

theorem accepts_literals_star {bs cs : Bytes} :
    accepts (bs.map .literal ++ [.star]) cs = true ↔ bs <+: cs := by
  induction bs generalizing cs with
  | nil => exact iff_of_true (accepts_star cs) List.nil_prefix
  | cons b bs ih =>
      rw [List.map_cons, List.cons_append, accepts_literal]
      constructor
      · rintro ⟨cs, rfl, h⟩
        exact List.cons_prefix_cons.mpr ⟨rfl, ih.mp h⟩
      · rintro ⟨ds, rfl⟩
        exact ⟨bs ++ ds, rfl, ih.mpr (List.prefix_append bs ds)⟩

/-- A byte without a meaning stands for itself. -/
theorem parse_cons {b : UInt8} (h : b ∉ special) (bs : Bytes) :
    parse (b :: bs) = .literal b :: parse bs := by
  simp only [special, List.mem_cons, List.not_mem_nil, or_false, not_or] at h
  obtain ⟨hstar, hany, hclass, hescape⟩ := h
  rw [parse]
  · exact hstar
  · exact hany
  · exact fun _ hb _ ↦ hclass hb
  · exact hclass
  · exact fun _ _ hb _ ↦ hescape hb

theorem parse_append {bs : Bytes} (h : ∀ b ∈ bs, b ∉ special) (rest : Bytes) :
    parse (bs ++ rest) = bs.map .literal ++ parse rest := by
  induction bs with
  | nil => rfl
  | cons b bs ih =>
      rw [List.forall_mem_cons] at h
      rw [List.cons_append, parse_cons h.1, ih h.2, List.map_cons, List.cons_append]

/-- A pattern of bytes without a meaning in front of a star. -/
theorem accepts_parse_star {bs cs : Bytes} (h : ∀ b ∈ bs, b ∉ special) :
    accepts (parse (bs ++ [42])) cs = true ↔ bs <+: cs := by
  rw [parse_append h]
  exact accepts_literals_star

/-! ## Escaped patterns -/

/-- A backslash in front of every byte that is one of `escaped`. -/
def escape (escaped : List UInt8) (bs : Bytes) : Bytes :=
  bs.flatMap fun b ↦ if b ∈ escaped then [92, b] else [b]

theorem parse_escape_append {escaped : List UInt8} (hspecial : special ⊆ escaped) (bs : Bytes)
    (rest : Bytes) : parse (escape escaped bs ++ rest) = bs.map .literal ++ parse rest := by
  induction bs with
  | nil => rfl
  | cons b bs ih =>
      rw [escape, List.flatMap_cons, List.append_assoc, ← escape, List.map_cons, List.cons_append,
        ← ih]
      split_ifs with hb
      · rfl
      · exact parse_cons (fun hmem ↦ hb (hspecial hmem)) _

/-- An escaped pattern in front of a star accepts what begins with the bytes it stands for. -/
theorem accepts_escape_star {escaped : List UInt8} (hspecial : special ⊆ escaped) {bs cs : Bytes} :
    accepts (parse (escape escaped bs ++ [42])) cs = true ↔ bs <+: cs := by
  rw [parse_escape_append hspecial]
  exact accepts_literals_star

end Glob

end Kit
