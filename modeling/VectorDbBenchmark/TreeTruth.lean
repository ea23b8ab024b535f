import VectorDbBenchmark.ConditionTree
import VectorDbBenchmark.Kit.InfixSyntax

/-!
# What built clauses say

A builder makes clauses of a condition tree, and a clause says something about each document.
For any monad in which the results of a computation can be spoken of, it is enough to know
what the clauses of an entry and of a group say.  Where an entry becomes one clause, what is
built says what the tree says.  The clauses may be texts of a language whose connectives stand
between operands, where the text of a group is made of the texts of its members.
-/

namespace VectorDbBenchmark.ConditionTree

open Kit Redis InfixSyntax

/-- What holds of the results of computations. -/
structure Outcome (m : Type → Type) [Monad m] where
  Holds : ∀ {α : Type}, (α → Prop) → m α → Prop
  pure : ∀ {α : Type} {p : α → Prop} {a : α}, p a → Holds p (pure a)
  bind : ∀ {α β : Type} {p : α → Prop} {q : β → Prop} {x : m α} {f : α → m β}, Holds p x →
    (∀ a, p a → Holds q (f a)) → Holds q (x >>= f)

namespace Outcome

def id : Outcome Id where
  Holds p x := p x.run
  pure h := h
  bind hx hf := hf _ hx

/-- Whatever the state is. -/
def state (σ : Type) : Outcome (StateM σ) where
  Holds p x := ∀ s, p (x.run s).1
  pure h _ := h
  bind hx hf s := hf _ (hx s) _

end Outcome

namespace GroupBuilder

variable {m : Type → Type} [Monad m] {β D : Type}

/-- The truth of a group of clauses, of which there is one at least. -/
def groupTruth (fs gs : Option (List (D → Bool))) (d : D) : Bool :=
  fs.all (fun fs ↦ fs.all fun f ↦ f d) && gs.all fun gs ↦ gs.any fun g ↦ g d

/-- Clauses that say one thing each, of which there is one at least. -/
def Arm (Says : (D → Bool) → β → Prop) : Option (List (D → Bool)) → Option (List β) → Prop :=
  Option.Rel fun fs bs ↦ fs ≠ [] ∧ List.Forall₂ Says fs bs

/-- What a builder makes of a group. -/
structure Groups (B : GroupBuilder m β) (o : Outcome m) (Says : (D → Bool) → β → Prop) : Prop where
  isGroup : ∀ {obj t}, ofEntry (.object obj) = some t →
    B.isGroup obj = (containsKey "and" obj || containsKey "or" obj)
  enter : ∀ key v, o.Holds (fun _ ↦ True) (B.enter key v)
  leave : ∀ key bs, o.Holds (fun _ ↦ True) (B.leave key bs)
  group : ∀ {obj ts us t fs gs ands ors}, IsGroup obj ts us t →
    (fs.isSome || gs.isSome) = true → Arm Says fs ands → Arm Says gs ors →
    o.Holds (List.Forall₂ Says [groupTruth fs gs]) (B.group obj ands ors)

theorem isSome_of_groupTree {α : Type} {ts us : Option (List (BoolTree α))} {t : BoolTree α}
    (h : groupTree ts us = some t) : (ts.isSome || us.isSome) = true := by
  rcases ts with _ | ts <;> rcases us with _ | us
  · cases h
  · rfl
  · rfl
  · rfl

/-! ## Entries as conjunctions -/

/-- What a builder makes of a group, and of an entry as a whole. -/
structure Conjoins (B : GroupBuilder m β) (o : Outcome m) (P : Leaf → Prop)
    (holds : D → Leaf → Bool) (Says : (D → Bool) → β → Prop) : Prop extends Groups B o Says where
  leaf : ∀ {obj}, (containsKey "and" obj || containsKey "or" obj) = false →
    (∀ e ∈ obj, e.2.asObject.isSome = true) → fieldLeaves obj ≠ [] →
    (∀ l ∈ fieldLeaves obj, P l) →
    o.Holds (List.Forall₂ Says [fun d ↦ (fieldLeaves obj).all (holds d)]) (B.leaf obj)

section Conjoined

variable (holds : D → Leaf → Bool)

/-- What trees say. -/
def verdicts (ts : List (BoolTree Leaf)) : List (D → Bool) := ts.map fun t d ↦ t.eval (holds d)

theorem groupTruth_verdicts {ts us : Option (List (BoolTree Leaf))} {t : BoolTree Leaf}
    (htree : groupTree ts us = some t) :
    groupTruth (ts.map (verdicts holds)) (us.map (verdicts holds)) =
      fun d ↦ t.eval (holds d) := by
  funext d
  rcases ts with _ | ts <;> rcases us with _ | us <;> cases htree <;>
    simp [groupTruth, verdicts, List.all_map, List.any_map, Function.comp_def]

variable {holds} {B : GroupBuilder m β} {o : Outcome m} {P : Leaf → Prop}
  {Says : (D → Bool) → β → Prop}

/-- Whatever such a builder makes of a tree says what the tree says. -/
theorem Conjoins.follows (hB : Conjoins B o P holds Says) :
    B.Follows P (fun t x ↦ o.Holds (List.Forall₂ Says (verdicts holds [t])) x)
      (fun ts x ↦ o.Holds (List.Forall₂ Says (verdicts holds ts)) x)
      (fun ts x ↦ o.Holds (Arm Says (ts.map (verdicts holds))) x) where
  isGroup := hB.isGroup
  leaf {obj t} hnot _ ht hP := by
    obtain ⟨hfields, hne, rfl⟩ := ofEntry_fields hnot ht
    have hverdicts : verdicts holds [.all ((fieldLeaves obj).map .leaf)] =
        [fun d ↦ (fieldLeaves obj).all (holds d)] := by
      rw [verdicts, List.map_singleton]
      congr 1
      funext d
      rw [BoolTree.eval_all, List.all_map]
      exact congrArg _ (funext fun l ↦ BoolTree.eval_leaf l)
    rw [hverdicts]
    apply hB.leaf hnot hfields hne
    intro l hl
    apply hP
    rw [BoolTree.leaves_all, List.flatMap_map]
    exact List.mem_flatMap.mpr ⟨l, hl, by simp⟩
  nil := o.pure .nil
  cons {t ts x xs} hx hxs := by
    apply o.bind hx
    intro bs hbs
    apply o.bind hxs
    intro cs hcs
    apply o.pure
    exact List.rel_append hbs hcs
  absent := o.pure .none
  array {key v vs ts x} hts hx := by
    apply o.bind (hB.enter _ _)
    intro _ _
    apply o.bind hx
    intro bs hbs
    apply o.bind (hB.leave _ _)
    intro _ _
    exact o.pure (.some ⟨mt List.map_eq_nil_iff.mp (ne_nil_of_ofEntries hts), hbs⟩)
  group {obj t ts us x y} hg _ hx hy := by
    have hverdicts : verdicts holds [t] =
        [groupTruth (ts.map (verdicts holds)) (us.map (verdicts holds))] := by
      rw [groupTruth_verdicts holds hg.tree]
      rfl
    rw [hverdicts]
    apply o.bind hx
    intro ands hands
    apply o.bind hy
    intro ors hors
    refine hB.group hg ?_ hands hors
    rw [Option.isSome_map, Option.isSome_map]
    exact isSome_of_groupTree hg.tree

end Conjoined

end GroupBuilder

/-! ## Groups with infix connectives -/

/-- The part of a group that stems from one of its arrays, if there is a clause. -/
def armText (join : List Text → Text) : Option (List Text) → List Text
  | some (b :: bs) => [join (b :: bs)]
  | _ => []

/-- The parts of a group, joined. -/
def groupText (sep : Text) (joinAnd joinOr : List Text → Text) (ands ors : Option (List Text)) :
    Option Text :=
  let parts := armText joinAnd ands ++ armText joinOr ors
  if parts.isEmpty then none else some (sep.intercalate parts)

open GroupBuilder

universe u v

variable {L : Type u} {σ : Type v} {α : Type} {m : Language L σ} {holds : α → L → Bool}
  {A : α → Prop} {fs gs : Option (List (α → Bool))} {ands ors : Option (List Text)}

theorem says_armText {join : List Text → Text} {combine : List (α → Bool) → α → Bool}
    (hjoin : ∀ {fs bs}, List.Forall₂ (Says m holds A) fs bs → bs ≠ [] →
      Says m holds A (combine fs) (join bs))
    (h : Arm (Says m holds A) fs ands) :
    List.Forall₂ (Says m holds A) (fs.toList.map combine) (armText join ands) := by
  cases h with
  | none => exact .nil
  | @some fs bs h =>
      obtain ⟨hne, h⟩ := h
      cases h with
      | nil => exact absurd rfl hne
      | cons hb hbs => exact .cons (hjoin (.cons hb hbs) (List.cons_ne_nil _ _)) .nil

/-- The text of a group says what the group says. -/
theorem says_groupText (hm : Standard m) {sep : Text} (hsep : Spells m sep .conj)
    {joinAnd joinOr : List Text → Text}
    (hand : ∀ {fs bs}, List.Forall₂ (Says m holds A) fs bs → bs ≠ [] →
      Says m holds A (fun a ↦ fs.all fun f ↦ f a) (joinAnd bs))
    (hor : ∀ {fs bs}, List.Forall₂ (Says m holds A) fs bs → bs ≠ [] →
      Says m holds A (fun a ↦ fs.any fun f ↦ f a) (joinOr bs))
    (hsome : (fs.isSome || gs.isSome) = true) (hands : Arm (Says m holds A) fs ands)
    (hors : Arm (Says m holds A) gs ors) :
    ∃ b, groupText (' ' :: (sep ++ [' '])) joinAnd joinOr ands ors = some b ∧
      Says m holds A (groupTruth fs gs) b := by
  have hparts : List.Forall₂ (Says m holds A)
      (fs.toList.map (fun fs a ↦ fs.all fun f ↦ f a) ++ gs.toList.map fun gs a ↦ gs.any fun g ↦ g a)
      (armText joinAnd ands ++ armText joinOr ors) :=
    List.rel_append (says_armText hand hands) (says_armText hor hors)
  have hne : armText joinAnd ands ++ armText joinOr ors ≠ [] := by
    intro hnil
    rw [hnil] at hparts
    have htruths := List.forall₂_nil_right_iff.mp hparts
    cases fs with
    | some fs => cases htruths
    | none =>
        cases gs with
        | some gs => cases htruths
        | none => cases hsome
  refine ⟨_, if_neg (mt List.isEmpty_iff.mp hne), ?_⟩
  apply (says_conj hm hsep hparts hne).congr
  intro a _
  cases fs <;> cases gs <;> simp [groupTruth]

end VectorDbBenchmark.ConditionTree
