import VectorDbBenchmark.ConditionTree
import VectorDbBenchmark.JsonEq

/-!
# Two builders over one conditions value

Relations between what two builders make of the same value, which may be any JSON value, and
the tree of any value: what is no operation on a field stands in it as a leaf without an
operation, and groups without members are left out.
-/

namespace VectorDbBenchmark.ConditionTree

open Kit Redis

namespace GroupBuilder

universe u v w x

variable {m : Type u → Type v} [Monad m] {β : Type u} {n : Type w → Type x} [Monad n] {γ : Type w}

/-- Relations between what two builders make of a value, and of what stands under a key, that
hold of entries without groups and are kept by groups. -/
structure Simulates (B : GroupBuilder m β) (C : GroupBuilder n γ)
    (R : m (List β) → n (List γ) → Prop)
    (A : m (Option (List β)) → n (Option (List γ)) → Prop) : Prop where
  isGroup : ∀ obj, B.isGroup obj = C.isGroup obj
  other : ∀ v, R (B.other v) (C.other v)
  leaf : ∀ obj, R (B.leaf obj) (C.leaf obj)
  nil : R (pure []) (pure [])
  cons : ∀ {x x' y y'}, R x y → R x' y' →
    R (do
        let bs ← x
        let bs' ← x'
        pure (bs ++ bs'))
      (do
        let cs ← y
        let cs' ← y'
        pure (cs ++ cs'))
  absent : A (pure none) (pure none)
  array : ∀ {key vs x y}, R x y →
    A (do
        B.enter key (.array vs)
        let bs ← x
        B.leave key bs
        pure (some bs))
      (do
        C.enter key (.array vs)
        let cs ← y
        C.leave key cs
        pure (some cs))
  notArray : ∀ {key v}, v.asArray = none →
    A (do
        B.enter key v
        pure none)
      (do
        C.enter key v
        pure none)
  group : ∀ {obj x x' y y'}, A x y → A x' y' →
    R (do
        let ands ← x
        let ors ← x'
        B.group obj ands ors)
      (do
        let ands ← y
        let ors ← y'
        C.group obj ands ors)

variable {B : GroupBuilder m β} {C : GroupBuilder n γ} {R : m (List β) → n (List γ) → Prop}
  {A : m (Option (List β)) → n (Option (List γ)) → Prop}

mutual

theorem Simulates.entry (h : Simulates B C R A) (v : Json) : R (B.entry v) (C.entry v) := by
  match v with
  | .object obj =>
      rw [GroupBuilder.entry, GroupBuilder.entry, h.isGroup]
      split_ifs
      · exact h.group (h.arrayAt "and" obj) (h.arrayAt "or" obj)
      · exact h.leaf obj
  | .null => exact h.other .null
  | .bool b => exact h.other (.bool b)
  | .number q => exact h.other (.number q)
  | .string s => exact h.other (.string s)
  | .array vs => exact h.other (.array vs)

theorem Simulates.entries (h : Simulates B C R A) (vs : List Json) :
    R (B.entries vs) (C.entries vs) := by
  match vs with
  | [] =>
      rw [GroupBuilder.entries, GroupBuilder.entries]
      exact h.nil
  | v :: vs =>
      rw [GroupBuilder.entries, GroupBuilder.entries]
      exact h.cons (h.entry v) (h.entries vs)

theorem Simulates.arrayAt (h : Simulates B C R A) (key : String) (obj : List (String × Json)) :
    A (B.arrayAt key obj) (C.arrayAt key obj) := by
  match obj with
  | [] =>
      rw [GroupBuilder.arrayAt, GroupBuilder.arrayAt]
      exact h.absent
  | (k, v) :: es =>
      rw [GroupBuilder.arrayAt, GroupBuilder.arrayAt]
      split_ifs
      · exact h.ofArray key v
      · exact h.arrayAt key es

theorem Simulates.ofArray (h : Simulates B C R A) (key : String) (v : Json) :
    A (B.array key v) (C.array key v) := by
  match v with
  | .array vs =>
      rw [GroupBuilder.array, GroupBuilder.array]
      exact h.array (h.entries vs)
  | .null => exact h.notArray rfl
  | .bool _ => exact h.notArray rfl
  | .number _ => exact h.notArray rfl
  | .string _ => exact h.notArray rfl
  | .object _ => exact h.notArray rfl

end

end GroupBuilder

/-! ## The tree of any value -/

/-- What is no operation on a field. -/
def stray (key : String) (v : Json) : BoolTree Leaf := .leaf ⟨key, "", v⟩

/-- The operations of an entry; a field without operations counts as one. -/
def fieldParts (obj : List (String × Json)) : List Leaf :=
  obj.flatMap fun (field, v) ↦
    match v with
    | .object ops => ops.map fun (op, criteria) ↦ ⟨field, op, criteria⟩
    | v => [⟨field, "", v⟩]

/-- What stands in a group beside its members. -/
def strays (obj : List (String × Json)) : List (BoolTree Leaf) :=
  (obj.filter fun e ↦ !((e.1 = "and" || e.1 = "or") && e.2.asArray.isSome)).map fun e ↦
    stray e.1 e.2

/-- A group that has members. -/
def armParts (group : List (BoolTree Leaf) → BoolTree Leaf) :
    Option (List (BoolTree Leaf)) → List (BoolTree Leaf)
  | some (t :: ts) => [group (t :: ts)]
  | _ => []

def groupParts (parts : List (BoolTree Leaf)) : List (BoolTree Leaf) :=
  match parts with
  | [] => []
  | [t] => [t]
  | ts => [.all ts]

def treeBuilder : GroupBuilder Id (BoolTree Leaf) where
  isGroup obj := containsKey "and" obj || containsKey "or" obj
  other v := [stray "" v]
  leaf obj := if (fieldParts obj).isEmpty then [] else [.all ((fieldParts obj).map .leaf)]
  enter _ _ := ⟨⟩
  leave _ _ := ⟨⟩
  group obj ands ors := groupParts (armParts .all ands ++ armParts .any ors ++ strays obj)

/-- The tree of a conditions value that is an object. -/
def treeOf : Json → Option (BoolTree Leaf)
  | .object obj =>
    (treeBuilder.group obj (treeBuilder.arrayAt "and" obj) (treeBuilder.arrayAt "or" obj)).run.head?
  | _ => none

/-! ### Groups -/

theorem armParts_getD (group : List (BoolTree Leaf) → BoolTree Leaf)
    (ts : Option (List (BoolTree Leaf))) :
    armParts group (some (ts.getD [])) = armParts group ts := by
  cases ts <;> rfl

theorem leaves_armParts {group : List (BoolTree Leaf) → BoolTree Leaf}
    (hgroup : ∀ ts, (group ts).leaves = ts.flatMap BoolTree.leaves)
    (ts : Option (List (BoolTree Leaf))) :
    (armParts group ts).flatMap BoolTree.leaves = (ts.getD []).flatMap BoolTree.leaves := by
  rcases ts with _ | _ | ⟨t, ts⟩
  · rfl
  · rfl
  · exact (List.flatMap_singleton _ _).trans (hgroup _)

theorem leaves_groupParts (parts : List (BoolTree Leaf)) :
    (groupParts parts).flatMap BoolTree.leaves = parts.flatMap BoolTree.leaves := by
  rcases parts with _ | ⟨t, _ | ⟨t', parts⟩⟩
  · rfl
  · rfl
  · exact (List.flatMap_singleton _ _).trans (BoolTree.leaves_all _)

theorem armParts_ne_nil {group : List (BoolTree Leaf) → BoolTree Leaf}
    {ts : Option (List (BoolTree Leaf))} (h : ts.getD [] ≠ []) : armParts group ts ≠ [] := by
  rcases ts with _ | _ | ⟨t, ts⟩
  · exact absurd rfl h
  · exact absurd rfl h
  · exact List.cons_ne_nil _ _

theorem groupParts_ne_nil {parts : List (BoolTree Leaf)} (h : parts ≠ []) :
    groupParts parts ≠ [] := by
  rcases parts with _ | ⟨t, _ | ⟨t', parts⟩⟩
  · exact absurd rfl h
  · exact List.cons_ne_nil _ _
  · exact List.cons_ne_nil _ _

theorem groupParts_eq_singleton {parts : List (BoolTree Leaf)} {t : BoolTree Leaf}
    (h : (groupParts parts).head? = some t) : groupParts parts = [t] := by
  rcases parts with _ | ⟨u, _ | ⟨u', parts⟩⟩
  · cases h
  · cases h
    rfl
  · cases h
    rfl

/-- The value of a tree is an object. -/
theorem exists_object_of_treeOf {v : Json} {t : BoolTree Leaf} (h : treeOf v = some t) :
    ∃ obj, v = .object obj ∧ obj ≠ [] ∧
      (treeBuilder.group obj (treeBuilder.arrayAt "and" obj) (treeBuilder.arrayAt "or" obj)).run =
        [t] := by
  cases v with
  | object obj =>
      refine ⟨obj, rfl, ?_, groupParts_eq_singleton h⟩
      rintro rfl
      cases h
  | null => cases h
  | bool _ => cases h
  | number _ => cases h
  | string _ => cases h
  | array _ => cases h

/-- A group all of whose leaves are operations has nothing beside its members. -/
theorem group_of_forall {P : Leaf → Prop} {obj : List (String × Json)}
    {ts us : Option (List (BoolTree Leaf))} (hstray : ∀ key v, ¬P ⟨key, "", v⟩)
    (hP : ∀ l ∈ (treeBuilder.group obj ts us).run.flatMap BoolTree.leaves, P l) :
    (treeBuilder.group obj ts us).run = groupParts (armParts .all ts ++ armParts .any us) ∧
      (∀ l ∈ (ts.getD []).flatMap BoolTree.leaves, P l) ∧
      ∀ l ∈ (us.getD []).flatMap BoolTree.leaves, P l := by
  have hgroup : (treeBuilder.group obj ts us).run =
      groupParts (armParts .all ts ++ armParts .any us ++ strays obj) := rfl
  rw [hgroup, leaves_groupParts, List.flatMap_append, List.flatMap_append,
    leaves_armParts BoolTree.leaves_all, leaves_armParts BoolTree.leaves_any,
    List.forall_mem_append, List.forall_mem_append] at hP
  have hnil : strays obj = [] := by
    rw [strays, List.map_eq_nil_iff, List.eq_nil_iff_forall_not_mem]
    intro e he
    refine hstray e.1 e.2 (hP.2 _ (List.mem_flatMap.mpr ⟨_, List.mem_map_of_mem he, ?_⟩))
    rw [stray, BoolTree.leaves_leaf]
    exact List.mem_singleton_self _
  rw [hgroup, hnil, List.append_nil]
  exact ⟨rfl, hP.1⟩

section Combine

universe u

variable {δ : Type u}

/-- How clauses that stand for trees are combined, a single one without a wrapper. -/
structure Combines (S : BoolTree Leaf → δ → Prop) (allOf : List δ → Option δ)
    (anyOf : Option (List δ) → List δ) : Prop where
  nil : allOf [] = none
  one : ∀ d, allOf [d] = some d
  none : anyOf none = []
  empty : anyOf (some []) = []
  all : ∀ {ts ds}, ts ≠ [] → List.Forall₂ S ts ds → ∃ d, allOf ds = some d ∧ S (.all ts) d
  any : ∀ {ts ds}, ts ≠ [] → List.Forall₂ S ts ds → ∃ d, anyOf (some ds) = [d] ∧ S (.any ts) d
  nest : ∀ {ts ds u o d}, List.Forall₂ S ts ds → S u o → S (.all (ts ++ [u])) d →
    S (.all [.all ts, u]) d

variable {S : BoolTree Leaf → δ → Prop} {allOf : List δ → Option δ}
  {anyOf : Option (List δ) → List δ}

/-- The clause of a group, in which the disjunction follows the members of the conjunction. -/
theorem Combines.group (h : Combines S allOf anyOf) {ts us : Option (List (BoolTree Leaf))}
    {ands ors : Option (List δ)} (hand : List.Forall₂ S (ts.getD []) (ands.getD []))
    (hor : List.Forall₂ S (us.getD []) (ors.getD [])) :
    List.Forall₂ S (groupParts (armParts .all ts ++ armParts .any us))
      (allOf (ands.getD [] ++ anyOf ors)).toList := by
  have hors : anyOf ors = anyOf (some (ors.getD [])) := by
    cases ors with
    | none => exact h.none.trans h.empty.symm
    | some _ => rfl
  rw [← armParts_getD .all, ← armParts_getD .any, hors]
  generalize ts.getD [] = ts at hand
  generalize us.getD [] = us at hor
  generalize ands.getD [] = as at hand
  generalize ors.getD [] = os at hor
  cases us with
  | nil =>
      cases hor
      rw [h.empty, List.append_nil]
      cases ts with
      | nil =>
          cases hand
          rw [h.nil]
          exact .nil
      | cons t ts =>
          obtain ⟨d, hd, hS⟩ := h.all (List.cons_ne_nil t ts) hand
          rw [hd]
          exact .cons hS .nil
  | cons u us =>
      obtain ⟨o, ho, hany⟩ := h.any (List.cons_ne_nil u us) hor
      rw [ho]
      cases ts with
      | nil =>
          cases hand
          rw [List.nil_append, h.one]
          exact .cons hany .nil
      | cons t ts =>
          obtain ⟨d, hd, hS⟩ := h.all (List.append_ne_nil_of_left_ne_nil (List.cons_ne_nil t ts) _)
            (List.rel_append hand (.cons hany .nil))
          rw [hd]
          exact .cons (h.nest hand hany hS) .nil

end Combine

/-! ### Well-formed groups -/

theorem fieldParts_eq {obj : List (String × Json)} (h : ∀ e ∈ obj, e.2.asObject.isSome = true) :
    fieldParts obj = fieldLeaves obj := by
  refine List.flatMap_congr fun e he ↦ ?_
  obtain ⟨field, v⟩ := e
  have hv : v.asObject.isSome = true := h _ he
  cases v with
  | object ops => rfl
  | null => cases hv
  | bool _ => cases hv
  | number _ => cases hv
  | string _ => cases hv
  | array _ => cases hv

/-- Nothing stands beside the members of a group whose arrays are not empty. -/
theorem strays_eq_nil {obj : List (String × Json)} {ts us : Option (List (BoolTree Leaf))}
    (hkeys : (obj.map Prod.fst).Nodup) (hguard : groupKeys obj = true)
    (hts : ofKey "and" obj = some ts) (hus : ofKey "or" obj = some us) : strays obj = [] := by
  have harray : ∀ {key : String} {ts : Option (List (BoolTree Leaf))} {e : String × Json},
      ofKey key obj = some ts → e ∈ obj → e.1 = key → e.2.asArray.isSome = true := by
    rintro key ts ⟨k, v⟩ hts he rfl
    have hget := Json.getEntry_of_mem hkeys he
    cases ts with
    | none =>
        rw [getEntry_of_ofKey_none hts] at hget
        cases hget
    | some ts =>
        obtain ⟨w, ws, -, hget', -⟩ := exists_cons_of_ofKey hts
        rw [hget] at hget'
        cases hget'
        rfl
  rw [strays, List.map_eq_nil_iff, List.filter_eq_nil_iff]
  intro e he
  have hkey := List.all_eq_true.mp hguard e he
  have hisSome : e.2.asArray.isSome = true := by
    rw [Bool.or_eq_true, decide_eq_true_eq, decide_eq_true_eq] at hkey
    rcases hkey with hkey | hkey
    · exact harray hts he hkey
    · exact harray hus he hkey
  rw [hkey, hisSome]
  exact Bool.false_ne_true

theorem groupParts_eq {ts us : Option (List (BoolTree Leaf))} {t : BoolTree Leaf}
    (hts : ts ≠ some []) (hus : us ≠ some []) (ht : groupTree ts us = some t) :
    groupParts (armParts .all ts ++ armParts .any us) = [t] := by
  rcases ts with _ | _ | ⟨t₁, ts⟩
  · rcases us with _ | _ | ⟨u₁, us⟩
    · cases ht
    · exact absurd rfl hus
    · cases ht
      rfl
  · exact absurd rfl hts
  · rcases us with _ | _ | ⟨u₁, us⟩
    · cases ht
      rfl
    · exact absurd rfl hus
    · cases ht
      rfl

/-- A condition tree is the tree of its value. -/
theorem follows_treeBuilder :
    treeBuilder.Follows (fun _ ↦ True) (fun t ts ↦ ts.run = [t]) (fun ts us ↦ us.run = ts)
      (fun ts us ↦ us.run = ts ∧ ts ≠ some []) where
  isGroup _ := rfl
  leaf hnot _ ht _ := by
    obtain ⟨hfields, hne, rfl⟩ := ofEntry_fields hnot ht
    show (if (fieldParts _).isEmpty then [] else _) = _
    rw [fieldParts_eq hfields, if_neg (mt List.isEmpty_iff.mp hne)]
  nil := rfl
  cons ht hts := congrArg₂ (· ++ ·) ht hts
  absent := ⟨rfl, fun h ↦ by cases h⟩
  array hts h := ⟨congrArg some h, fun h ↦ ne_nil_of_ofEntries hts (Option.some.inj h)⟩
  group hg _ hand hor := by
    obtain ⟨rfl, hts⟩ := hand
    obtain ⟨rfl, hus⟩ := hor
    have hnodup := Json.nodup_of_keysDistinct hg.keysDistinct
    have hstrays := strays_eq_nil hnodup hg.keys hg.ands hg.ors
    show groupParts (armParts .all _ ++ armParts .any _ ++ strays _) = _
    rw [hstrays, List.append_nil]
    exact groupParts_eq hts hus hg.tree

theorem treeOf_eq_some {v : Json} {t : BoolTree Leaf} (hkeys : v.keysDistinct = true)
    (ht : ofConditions v = some t) : treeOf v = some t := by
  obtain ⟨obj, ts, us, rfl, hg, hand, hor⟩ :=
    follows_treeBuilder.arms hkeys ht fun _ _ ↦ trivial
  have hgroup := follows_treeBuilder.group hg (fun _ _ ↦ trivial) hand hor
  exact congrArg List.head? hgroup

end VectorDbBenchmark.ConditionTree
