import VectorDbBenchmark.Kividb.Filter

/-!
# Rendered trees are read back

The text of a tree whose groups have at least two children: it is read as a formula with
the truth of the tree, in which no group holds nothing but a group, and in every
conjunction the groups are in front.
-/

namespace VectorDbBenchmark.Kividb

open Kit

universe u v

variable {L : Type u} {σ : Type v}

/-! ## The shape of a filter -/

/-- Whether an operand stands in parentheses. -/
def isGroup : Formula L → Bool
  | .any _ => true
  | _ => false

/-- Whether a group holds nothing but a group. -/
def wraps : Formula L → Bool
  | .any [.all [t]] => isGroup t
  | _ => false

/-- A filter without negations, in which no group holds nothing but a group, the groups of
every conjunction are in front of its other operands, and the leaves satisfy `P`. -/
inductive Shaped (P : L → Prop) : Formula L → Prop
  | leaf {l : L} (h : P l) : Shaped P (.leaf l)
  | all {ts : List (Formula L)} (h : ∀ t ∈ ts, Shaped P t) (hwraps : ∀ t ∈ ts, wraps t = false)
    (horder : ts.Pairwise fun t u ↦ isGroup u = true → isGroup t = true) : Shaped P (.all ts)
  | any {ts : List (Formula L)} (h : ∀ t ∈ ts, Shaped P t) : Shaped P (.any ts)

/-! ## Operands -/

def operandText (p : Part) : Text := if p.1 then parens p.2 else p.2

section Operands

-- The machines that read the leaves, what they read them as, and what is known of that.
variable (ms : QuerySyntax.LeafMachine L σ → Prop) (read : Text → Option L) (P : L → Prop)

/-- A leaf that every machine reads alike. -/
def LeafReads (t : Text) : Prop :=
  ∃ l, read t = some l ∧ P l ∧ ∀ m, ms m → QuerySyntax.IsItem m t (.leaf l)

/-- A rendered child of a group, and the operand it is read as. -/
structure Operand (p : Part) (T : Formula L) : Prop where
  reads : ∀ m, ms m → QuerySyntax.IsItem m (operandText p) T
  grouped : isGroup T = p.1
  wraps : wraps T = false
  shaped : Shaped P T

/-- The text of a group, and what stands in parentheses when it is one. -/
structure Grouped (t : Text) (T : Formula L) : Prop where
  reads : ∀ m, ms m → QuerySyntax.Fills m t T
  grouped : isGroup T = true
  wraps : Kividb.wraps T = false
  shaped : Shaped P T

variable {ms read P}

theorem Grouped.operand {t : Text} {T : Formula L} (h : Grouped ms P t T) :
    Operand ms P (true, t) T where
  reads m hm := (h.reads m hm).isItem
  grouped := h.grouped
  wraps := h.wraps
  shaped := h.shaped

/-- The truth of a tree of texts. -/
def valuation (read : Text → Option L) (v : L → Bool) (t : Text) : Bool := (read t).any v

theorem Operand.leaf {t : Text} {l : L} (hP : P l)
    (h : ∀ m, ms m → QuerySyntax.IsItem m t (.leaf l)) : Operand ms P (false, t) (.leaf l) where
  reads := h
  grouped := rfl
  wraps := rfl
  shaped := .leaf hP

/-- The operands with the groups in front. -/
def groupsFirst (Ts : List (Formula L)) : List (Formula L) :=
  Ts.filter (isGroup · == true) ++ Ts.filter (isGroup · == false)

theorem groupsFirst_perm (Ts : List (Formula L)) : List.Perm (groupsFirst Ts) Ts := by
  have hfalse : Ts.filter (isGroup · == false) = Ts.filter fun T ↦ !(isGroup T == true) :=
    List.filter_congr fun T _ ↦ by cases isGroup T <;> rfl
  rw [groupsFirst, hfalse]
  exact List.filter_append_perm _ Ts

theorem filter_operands {ps : List Part} {Ts : List (Formula L)}
    (h : List.Forall₂ (Operand ms P) ps Ts) (b : Bool) :
    List.Forall₂ (Operand ms P) (ps.filter (·.1 == b)) (Ts.filter (isGroup · == b)) := by
  induction h with
  | nil => exact .nil
  | @cons p T ps Ts hp _ ih =>
      rw [List.filter_cons, List.filter_cons, hp.grouped]
      split_ifs
      · exact .cons hp ih
      · exact ih

/-- What two operands or more are joined to in a conjunction. -/
theorem joinAll_eq {ps : List Part} (h : 2 ≤ ps.length) :
    joinAll ps = [' '].intercalate
      ((ps.filter (·.1 == true) ++ ps.filter (·.1 == false)).map operandText) := by
  have hin : ∀ b, ∀ p ∈ ps.filter (·.1 == b), p.1 = b := fun b p hp ↦
    eq_of_beq (List.mem_filter.mp hp).2
  have htrue : ps.filter Prod.fst = ps.filter (·.1 == true) :=
    List.filter_congr fun p _ ↦ by cases p.1 <;> rfl
  have hfalse : ps.filter (!·.1) = ps.filter (·.1 == false) :=
    List.filter_congr fun p _ ↦ by cases p.1 <;> rfl
  have hgroups : (ps.filter Prod.fst).map (fun p ↦ parens p.2) =
      (ps.filter (·.1 == true)).map operandText := by
    rw [htrue]
    refine List.map_congr_left fun p hp ↦ ?_
    rw [operandText, if_pos (hin true p hp)]
  have hleaves : (ps.filter (!·.1)).map Prod.snd = (ps.filter (·.1 == false)).map operandText := by
    rw [hfalse]
    refine List.map_congr_left fun p hp ↦ ?_
    rw [operandText, hin false p hp, if_neg Bool.false_ne_true]
  rw [List.map_append, ← hgroups, ← hleaves]
  rcases ps with _ | ⟨p, _ | ⟨p', ps⟩⟩
  · cases h
  · exact absurd h (Nat.not_succ_le_self 1)
  · rfl

theorem joinAny_eq {ps : List Part} (h : 2 ≤ ps.length) :
    joinAny ps = [' ', '|', ' '].intercalate (ps.map operandText) := by
  rcases ps with _ | ⟨p, _ | ⟨p', ps⟩⟩
  · cases h
  · exact absurd h (Nat.not_succ_le_self 1)
  · rfl

/-- The texts of operands are items. -/
theorem items_of_operands {ps : List Part} {Ts : List (Formula L)}
    (h : List.Forall₂ (Operand ms P) ps Ts) {m : QuerySyntax.LeafMachine L σ} (hm : ms m) :
    List.Forall₂ (QuerySyntax.IsItem m) (ps.map operandText) Ts := by
  rw [List.forall₂_map_left_iff]
  exact h.imp fun _ _ hp ↦ hp.reads m hm

theorem operand_of_mem {ps : List Part} {Ts : List (Formula L)}
    (h : List.Forall₂ (Operand ms P) ps Ts) {T : Formula L} (hT : T ∈ Ts) :
    ∃ p, Operand ms P p T := by
  induction h with
  | nil => cases hT
  | cons hp _ ih =>
      rcases List.mem_cons.mp hT with rfl | hT
      · exact ⟨_, hp⟩
      · exact ih hT

theorem wraps_any_eq_false {Us : List (Formula L)} (h : ∀ Ts, Us = [.all Ts] → 2 ≤ Ts.length) :
    wraps (.any Us) = false := by
  unfold wraps
  split
  · next T hT =>
      cases hT
      exact absurd (h _ rfl) (Nat.not_succ_le_self 1)
  · rfl

theorem grouped_joinAll {ps : List Part} {Ts : List (Formula L)}
    (h : List.Forall₂ (Operand ms P) ps Ts) (hlen : 2 ≤ Ts.length) :
    Grouped ms P (joinAll ps) (.any [.all (groupsFirst Ts)]) := by
  have hperm := groupsFirst_perm Ts
  have hps : 2 ≤ ps.length := h.length_eq ▸ hlen
  have hoperand : ∀ T ∈ groupsFirst Ts, ∃ p, Operand ms P p T := fun T hT ↦
    operand_of_mem h (hperm.subset hT)
  refine ⟨fun m hm ↦ ?_, rfl, wraps_any_eq_false ?_, .any ?_⟩
  · have hitems : List.Forall₂ (QuerySyntax.IsItem m)
        ((ps.filter (·.1 == true) ++ ps.filter (·.1 == false)).map operandText)
        (groupsFirst Ts) :=
      items_of_operands (List.rel_append (filter_operands h true) (filter_operands h false)) hm
    rw [joinAll_eq hps]
    refine QuerySyntax.fills_items hitems fun hnil ↦ ?_
    rw [hnil] at hitems
    have hzero := hperm.length_eq
    rw [List.forall₂_nil_left_iff.mp hitems] at hzero
    rw [← hzero] at hlen
    exact absurd hlen (Nat.not_succ_le_zero 1)
  · intro Us hUs
    cases hUs
    rwa [hperm.length_eq]
  · rw [List.forall_mem_singleton]
    refine .all (fun T hT ↦ (hoperand T hT).choose_spec.shaped)
      (fun T hT ↦ (hoperand T hT).choose_spec.wraps) ?_
    rw [groupsFirst, List.pairwise_append]
    refine ⟨?_, ?_, ?_⟩
    · refine List.pairwise_of_forall_mem_list fun T hT U _ _ ↦ ?_
      exact eq_of_beq (List.mem_filter.mp hT).2
    · refine List.pairwise_of_forall_mem_list fun T _ U hU hgroup ↦ ?_
      have hfalse := eq_of_beq (List.mem_filter.mp hU).2
      exact absurd (hgroup.symm.trans hfalse) (by decide)
    · intro T hT U _ _
      exact eq_of_beq (List.mem_filter.mp hT).2

theorem grouped_joinAny {ps : List Part} {Ts : List (Formula L)}
    (h : List.Forall₂ (Operand ms P) ps Ts) (hlen : 2 ≤ Ts.length) :
    Grouped ms P (joinAny ps) (.any (Ts.map fun T ↦ .all [T])) := by
  have hps : 2 ≤ ps.length := h.length_eq ▸ hlen
  refine ⟨fun m hm ↦ ?_, rfl, wraps_any_eq_false ?_, .any ?_⟩
  · rw [joinAny_eq hps]
    refine QuerySyntax.fills_bars (items_of_operands h hm) fun hnil ↦ ?_
    rw [List.map_eq_nil_iff.mp hnil] at hps
    exact absurd hps (by decide)
  · intro Us hUs
    have hone := congrArg List.length hUs
    rw [List.length_map, List.length_singleton] at hone
    rw [hone] at hlen
    exact absurd hlen (by decide)
  · intro T hT
    obtain ⟨T, hmem, rfl⟩ := List.mem_map.mp hT
    obtain ⟨p, hp⟩ := operand_of_mem h hmem
    refine .all ?_ ?_ (List.pairwise_singleton _ _)
    · rw [List.forall_mem_singleton]
      exact hp.shaped
    · rw [List.forall_mem_singleton]
      exact hp.wraps

/-! ## Trees -/

/-- What stands under a group: as many operands as children at least, and their truth. -/
structure Children (ms : QuerySyntax.LeafMachine L σ → Prop) (P : L → Prop) (ps : List Part)
    (Ts : List (Formula L)) (count : ℕ) : Prop where
  operands : List.Forall₂ (Operand ms P) ps Ts
  count : count ≤ Ts.length

theorem Children.append {ps qs : List Part} {Ts Us : List (Formula L)} {i j : ℕ}
    (h : Children ms P ps Ts i) (h' : Children ms P qs Us j) :
    Children ms P (ps ++ qs) (Ts ++ Us) (i + j) where
  operands := List.rel_append h.operands h'.operands
  count := by
    have := h.count
    have := h'.count
    rw [List.length_append]
    omega

theorem Children.one {p : Part} {T : Formula L} (h : Operand ms P p T) :
    Children ms P [p] [T] 1 := ⟨.cons h .nil, le_rfl⟩

/-- The truth of a conjunction does not depend on the order. -/
theorem eval_groupsFirst (v : L → Bool) (Ts : List (Formula L)) :
    (Formula.any [.all (groupsFirst Ts)]).eval v = Ts.all (Formula.eval v) := by
  rw [Formula.eval_any, List.any_cons, List.any_nil, Bool.or_false, Formula.eval_all]
  exact (groupsFirst_perm Ts).all_eq

theorem eval_alternatives (v : L → Bool) (Ts : List (Formula L)) :
    (Formula.any (Ts.map fun T ↦ .all [T])).eval v = Ts.any (Formula.eval v) := by
  rw [Formula.eval_any, List.any_map]
  refine any_congr_of_mem fun T _ ↦ ?_
  rw [Function.comp_apply, Formula.eval_all, List.all_cons, List.all_nil, Bool.and_true]

mutual

theorem children_allParts {ns : List Node} (h : ∀ n ∈ ns, n.Wide (LeafReads ms read P)) :
    ∃ Ts, Children ms P (allParts ns) Ts ns.length ∧
      ∀ v, Ts.all (Formula.eval v) = ns.all (BoolTree.eval (valuation read v)) := by
  match ns with
  | [] =>
      rw [allParts]
      exact ⟨[], ⟨.nil, le_rfl⟩, fun v ↦ rfl⟩
  | n :: ns =>
      rw [List.forall_mem_cons] at h
      obtain ⟨Ts, hTs, heval⟩ := children_allPart h.1
      obtain ⟨Us, hUs, hevals⟩ := children_allParts h.2
      refine ⟨Ts ++ Us, ?_, fun v ↦ ?_⟩
      · rw [allParts, List.length_cons, Nat.add_comm]
        exact hTs.append hUs
      · rw [List.all_append, heval, hevals, List.all_cons]

theorem children_allPart {n : Node} (h : n.Wide (LeafReads ms read P)) :
    ∃ Ts, Children ms P (allPart n) Ts 1 ∧
      ∀ v, Ts.all (Formula.eval v) = n.eval (valuation read v) := by
  match n with
  | .leaf s =>
      cases h with
      | leaf h =>
          obtain ⟨l, hread, hP, hms⟩ := h
          rw [allPart]
          refine ⟨[.leaf l], .one (.leaf hP hms), fun v ↦ ?_⟩
          rw [List.all_cons, List.all_nil, Bool.and_true, Formula.eval_leaf, BoolTree.eval_leaf,
            valuation, hread]
          rfl
  | .all inner =>
      cases h with
      | all hlen h =>
          obtain ⟨Ts, hTs, heval⟩ := children_allParts h
          rw [allPart]
          refine ⟨Ts, ⟨hTs.operands, (Nat.le_of_lt hlen).trans hTs.count⟩, fun v ↦ ?_⟩
          rw [heval, BoolTree.eval_all]
  | .any inner =>
      cases h with
      | any hlen h =>
          obtain ⟨Ts, hTs, heval⟩ := children_anyParts h
          rw [allPart]
          refine ⟨_, .one (grouped_joinAny hTs.operands (hlen.trans hTs.count)).operand, fun v ↦ ?_⟩
          rw [List.all_cons, List.all_nil, Bool.and_true, eval_alternatives, heval,
            BoolTree.eval_any]

theorem children_anyParts {ns : List Node} (h : ∀ n ∈ ns, n.Wide (LeafReads ms read P)) :
    ∃ Ts, Children ms P (anyParts ns) Ts ns.length ∧
      ∀ v, Ts.any (Formula.eval v) = ns.any (BoolTree.eval (valuation read v)) := by
  match ns with
  | [] =>
      rw [anyParts]
      exact ⟨[], ⟨.nil, le_rfl⟩, fun v ↦ rfl⟩
  | n :: ns =>
      rw [List.forall_mem_cons] at h
      obtain ⟨Ts, hTs, heval⟩ := children_anyPart h.1
      obtain ⟨Us, hUs, hevals⟩ := children_anyParts h.2
      refine ⟨Ts ++ Us, ?_, fun v ↦ ?_⟩
      · rw [anyParts, List.length_cons, Nat.add_comm]
        exact hTs.append hUs
      · rw [List.any_append, heval, hevals, List.any_cons]

theorem children_anyPart {n : Node} (h : n.Wide (LeafReads ms read P)) :
    ∃ Ts, Children ms P (anyPart n) Ts 1 ∧
      ∀ v, Ts.any (Formula.eval v) = n.eval (valuation read v) := by
  match n with
  | .leaf s =>
      cases h with
      | leaf h =>
          obtain ⟨l, hread, hP, hms⟩ := h
          rw [anyPart]
          refine ⟨[.leaf l], .one (.leaf hP hms), fun v ↦ ?_⟩
          rw [List.any_cons, List.any_nil, Bool.or_false, Formula.eval_leaf, BoolTree.eval_leaf,
            valuation, hread]
          rfl
  | .all inner =>
      cases h with
      | all hlen h =>
          obtain ⟨Ts, hTs, heval⟩ := children_allParts h
          rw [anyPart]
          refine ⟨_, .one (grouped_joinAll hTs.operands (hlen.trans hTs.count)).operand, fun v ↦ ?_⟩
          rw [List.any_cons, List.any_nil, Bool.or_false, eval_groupsFirst, heval,
            BoolTree.eval_all]
  | .any inner =>
      cases h with
      | any hlen h =>
          obtain ⟨Ts, hTs, heval⟩ := children_anyParts h
          rw [anyPart]
          refine ⟨Ts, ⟨hTs.operands, (Nat.le_of_lt hlen).trans hTs.count⟩, fun v ↦ ?_⟩
          rw [heval, BoolTree.eval_any]

end

/-- A rendered tree is read as a formula of the shape the server reads right, with the truth
of the tree. -/
theorem exists_reading {n : Node} (h : n.Wide (LeafReads ms read P)) :
    ∃ T, (∀ m, ms m → QuerySyntax.parse m n.render = some T) ∧ Shaped P T ∧
      ∀ v, T.eval v = n.eval (valuation read v) := by
  cases h with
  | leaf h =>
      obtain ⟨l, hread, hP, hms⟩ := h
      refine ⟨.any [.all [.leaf l]], fun m hm ↦ ?_, ?_, fun v ↦ ?_⟩
      · rw [Node.render]
        exact QuerySyntax.parse_of_fills (hms m hm).fills
      · refine .any fun t ht ↦ ?_
        rw [List.mem_singleton.mp ht]
        refine .all ?_ ?_ (List.pairwise_singleton _ _)
        · rw [List.forall_mem_singleton]
          exact .leaf hP
        · rw [List.forall_mem_singleton]
          rfl
      · rw [Formula.eval_any, List.any_cons, List.any_nil, Bool.or_false, Formula.eval_all,
          List.all_cons, List.all_nil, Bool.and_true, Formula.eval_leaf, BoolTree.eval_leaf,
          valuation, hread]
        rfl
  | all hlen h =>
      obtain ⟨Ts, hTs, heval⟩ := children_allParts h
      have hgroup := grouped_joinAll hTs.operands (hlen.trans hTs.count)
      refine ⟨_, fun m hm ↦ ?_, hgroup.shaped, fun v ↦ ?_⟩
      · rw [Node.render]
        exact QuerySyntax.parse_of_fills (hgroup.reads m hm)
      · rw [eval_groupsFirst, heval, BoolTree.eval_all]
  | any hlen h =>
      obtain ⟨Ts, hTs, heval⟩ := children_anyParts h
      have hgroup := grouped_joinAny hTs.operands (hlen.trans hTs.count)
      refine ⟨_, fun m hm ↦ ?_, hgroup.shaped, fun v ↦ ?_⟩
      · rw [Node.render]
        exact QuerySyntax.parse_of_fills (hgroup.reads m hm)
      · rw [eval_alternatives, heval, BoolTree.eval_any]

end Operands

end VectorDbBenchmark.Kividb
