import VectorDbBenchmark.Redis.ConditionTree

/-!
# Filters built from condition trees

The and/or tree of a conditions value whose leaves are operations on fields.  An entry that
is no group may have several fields and several operations on each: all of them are members
of the group the entry stands in, or their conjunction is.  The filter builders of the engines go
through such a value by one recursion, given what a builder does with an entry that is no group
and with the clauses of a group.  A relation between trees and built clauses that holds at the
leaves and is kept by groups holds of all that is built.
-/

namespace VectorDbBenchmark.ConditionTree

open Kit Redis

/-! ## Entries of several operations -/

/-- Whether the operations on every field are an object. -/
def fieldsAreObjects (obj : List (String × Json)) : Bool := obj.all fun e ↦ e.2.asObject.isSome

/-- The operations of an entry that is no group, which has one at least. -/
def fieldMembers (obj : List (String × Json)) : Option (List (BoolTree Leaf)) :=
  if fieldsAreObjects obj && !(fieldLeaves obj).isEmpty then
    some ((fieldLeaves obj).map .leaf)
  else none

mutual

/-- The members an entry adds to the group it stands in. -/
def entryMembers : Json → Option (List (BoolTree Leaf))
  | .object obj =>
    if containsKey "and" obj || containsKey "or" obj then do
      guard (groupKeys obj)
      let ts ← membersAt "and" obj
      let us ← membersAt "or" obj
      (groupTree ts us).map ([·])
    else fieldMembers obj
  | _ => none

def subfilterMembers : List Json → Option (List (BoolTree Leaf))
  | [] => some []
  | entry :: entries => do
    let ts ← entryMembers entry
    let us ← subfilterMembers entries
    some (ts ++ us)

/-- The members under a key, none when there is no such key. -/
def membersAt (key : String) : List (String × Json) → Option (Option (List (BoolTree Leaf)))
  | [] => some none
  | (k, v) :: entries => if k = key then (arrayMembers v).map some else membersAt key entries

def arrayMembers : Json → Option (List (BoolTree Leaf))
  | .array (entry :: entries) => subfilterMembers (entry :: entries)
  | _ => none

end

/-- The tree of a conditions value: a group whose arrays are not empty, at any depth. -/
def operationTree : Json → Option (BoolTree Leaf)
  | .object obj =>
    if containsKey "and" obj || containsKey "or" obj then do
      guard (groupKeys obj)
      let ts ← membersAt "and" obj
      let us ← membersAt "or" obj
      groupTree ts us
    else none
  | _ => none

/-! ## Groups have members -/

theorem fieldMembers_ne_nil {obj : List (String × Json)} {ts : List (BoolTree Leaf)}
    (h : fieldMembers obj = some ts) : ts ≠ [] := by
  rw [fieldMembers] at h
  split_ifs at h with hobj
  cases h
  rw [Bool.and_eq_true, Bool.not_eq_true', List.isEmpty_eq_false_iff] at hobj
  exact mt List.map_eq_nil_iff.mp hobj.2

theorem entryMembers_ne_nil {v : Json} {ts : List (BoolTree Leaf)}
    (h : entryMembers v = some ts) : ts ≠ [] := by
  cases v with
  | object obj =>
      rw [entryMembers] at h
      split_ifs at h
      · obtain ⟨-, -, h⟩ := Option.bind_eq_some_iff.mp h
        obtain ⟨ts', -, h⟩ := Option.bind_eq_some_iff.mp h
        obtain ⟨us', -, h⟩ := Option.bind_eq_some_iff.mp h
        obtain ⟨t, -, rfl⟩ := Option.map_eq_some_iff.mp h
        exact List.cons_ne_nil _ _
      · exact fieldMembers_ne_nil h
  | null => cases h
  | bool _ => cases h
  | number _ => cases h
  | string _ => cases h
  | array _ => cases h

theorem arrayMembers_ne_nil {v : Json} {ts : List (BoolTree Leaf)}
    (h : arrayMembers v = some ts) : ts ≠ [] := by
  unfold arrayMembers at h
  split at h
  · rw [subfilterMembers] at h
    obtain ⟨ts', hts, h⟩ := Option.bind_eq_some_iff.mp h
    obtain ⟨us', -, h⟩ := Option.bind_eq_some_iff.mp h
    cases h
    exact fun hnil ↦ entryMembers_ne_nil hts (List.append_eq_nil_iff.mp hnil).1
  · cases h

/-! ## Trees -/

mutual

/-- The tree of an entry: a group of nonempty arrays, or all operations on its fields. -/
def ofEntry : Json → Option (BoolTree Leaf)
  | .object obj =>
    if containsKey "and" obj || containsKey "or" obj then do
      guard (groupKeys obj)
      let ts ← ofKey "and" obj
      let us ← ofKey "or" obj
      groupTree ts us
    else (fieldMembers obj).map .all
  | _ => none

def ofEntries : List Json → Option (List (BoolTree Leaf))
  | [] => some []
  | entry :: entries => do
    let t ← ofEntry entry
    let ts ← ofEntries entries
    some (t :: ts)

/-- The trees under a key, none when there is no such key. -/
def ofKey (key : String) : List (String × Json) → Option (Option (List (BoolTree Leaf)))
  | [] => some none
  | (k, v) :: entries => if k = key then (ofArray v).map some else ofKey key entries

def ofArray : Json → Option (List (BoolTree Leaf))
  | .array (entry :: entries) => ofEntries (entry :: entries)
  | _ => none

end

/-- The tree of a conditions value, which is a group. -/
def ofConditions : Json → Option (BoolTree Leaf)
  | .object obj =>
    if containsKey "and" obj || containsKey "or" obj then ofEntry (.object obj) else none
  | _ => none

theorem exists_group_of_ofEntry {obj : List (String × Json)} {t : BoolTree Leaf}
    (hgroup : (containsKey "and" obj || containsKey "or" obj) = true)
    (h : ofEntry (.object obj) = some t) :
    groupKeys obj = true ∧ ∃ ts us, ofKey "and" obj = some ts ∧ ofKey "or" obj = some us ∧
      groupTree ts us = some t := by
  rw [ofEntry, if_pos hgroup] at h
  obtain ⟨_, hkeys, h⟩ := Option.bind_eq_some_iff.mp h
  obtain ⟨ts, hts, h⟩ := Option.bind_eq_some_iff.mp h
  obtain ⟨us, hus, h⟩ := Option.bind_eq_some_iff.mp h
  have hguard : groupKeys obj = true := by simpa using hkeys
  exact ⟨hguard, ts, us, hts, hus, h⟩

theorem exists_object_of_ofConditions {v : Json} {t : BoolTree Leaf}
    (h : ofConditions v = some t) : ∃ obj, v = .object obj ∧
      (containsKey "and" obj || containsKey "or" obj) = true ∧ ofEntry v = some t := by
  cases v with
  | object obj =>
      rw [ofConditions] at h
      split_ifs at h with hgroup
      exact ⟨obj, rfl, hgroup, h⟩
  | null => cases h
  | bool _ => cases h
  | number _ => cases h
  | string _ => cases h
  | array _ => cases h

/-- The tree of an entry that is no group. -/
theorem ofEntry_fields {obj : List (String × Json)} {t : BoolTree Leaf}
    (hgroup : (containsKey "and" obj || containsKey "or" obj) = false)
    (h : ofEntry (.object obj) = some t) :
    (∀ e ∈ obj, e.2.asObject.isSome = true) ∧ fieldLeaves obj ≠ [] ∧
      t = .all ((fieldLeaves obj).map .leaf) := by
  rw [ofEntry, hgroup, if_neg Bool.false_ne_true] at h
  obtain ⟨ts, hts, rfl⟩ := Option.map_eq_some_iff.mp h
  rw [fieldMembers] at hts
  split_ifs at hts with hfields
  cases hts
  rw [Bool.and_eq_true, Bool.not_eq_true', List.isEmpty_eq_false_iff] at hfields
  exact ⟨List.all_eq_true.mp hfields.1, hfields.2, rfl⟩

theorem ne_nil_of_ofEntry {obj : List (String × Json)} {t : BoolTree Leaf}
    (h : ofEntry (.object obj) = some t) : obj ≠ [] := by
  rintro rfl
  obtain ⟨-, hne, -⟩ := ofEntry_fields rfl h
  exact hne rfl

/-- The arrays of a tree's groups are not empty. -/
theorem exists_cons_of_ofKey {key : String} {obj : List (String × Json)}
    {ts : List (BoolTree Leaf)} (h : ofKey key obj = some (some ts)) :
    ∃ v vs, (key, Json.array (v :: vs)) ∈ obj ∧ Json.getEntry key obj = some (.array (v :: vs)) ∧
      ofEntries (v :: vs) = some ts := by
  induction obj with
  | nil => cases h
  | cons e obj ih =>
      obtain ⟨k, w⟩ := e
      rw [ofKey] at h
      rw [Json.getEntry]
      split_ifs at h ⊢ with hk
      · subst hk
        obtain ⟨ts', hts, hts'⟩ := Option.map_eq_some_iff.mp h
        rw [Option.some.injEq] at hts'
        subst hts'
        unfold ofArray at hts
        split at hts
        · exact ⟨_, _, List.mem_cons_self, rfl, hts⟩
        · cases hts
      · obtain ⟨v, vs, hmem, hget, hvs⟩ := ih h
        exact ⟨v, vs, List.mem_cons_of_mem _ hmem, hget, hvs⟩

theorem ofKey_eq_none {key : String} {es : List (String × Json)} (h : key ∉ es.map Prod.fst) :
    ofKey key es = some none := by
  induction es with
  | nil => rfl
  | cons e es ih =>
      rw [List.map_cons, List.mem_cons, not_or] at h
      rw [ofKey, if_neg (Ne.symm h.1)]
      exact ih h.2

theorem getEntry_of_ofKey_none {key : String} {obj : List (String × Json)}
    (h : ofKey key obj = some none) : Json.getEntry key obj = none := by
  induction obj with
  | nil => rfl
  | cons e obj ih =>
      obtain ⟨k, w⟩ := e
      rw [ofKey] at h
      rw [Json.getEntry]
      split_ifs at h ⊢ with hk
      · obtain ⟨ts, -, hts⟩ := Option.map_eq_some_iff.mp h
        cases hts
      · exact ih h

theorem ne_nil_of_ofEntries {v : Json} {vs : List Json} {ts : List (BoolTree Leaf)}
    (h : ofEntries (v :: vs) = some ts) : ts ≠ [] := by
  rw [ofEntries] at h
  obtain ⟨t, -, h⟩ := Option.bind_eq_some_iff.mp h
  obtain ⟨us, -, h⟩ := Option.bind_eq_some_iff.mp h
  cases h
  exact List.cons_ne_nil t us

/-! ## Builders -/

universe u v

/-- What a builder does with the parts of a conditions value. -/
structure GroupBuilder (m : Type u → Type v) (β : Type u) where
  isGroup : List (String × Json) → Bool
  /-- The clauses of an entry that is no object. -/
  other : Json → m (List β)
  /-- The clauses of an entry that is no group. -/
  leaf : List (String × Json) → m (List β)
  /-- A check of the value under `and` or `or`. -/
  enter : String → Json → m PUnit.{u + 1}
  /-- A check of what was built of it. -/
  leave : String → List β → m PUnit.{u + 1}
  /-- The clauses of a group. -/
  group : List (String × Json) → Option (List β) → Option (List β) → m (List β)

namespace GroupBuilder

section Build

variable {m : Type u → Type v} [Monad m] {β : Type u} (B : GroupBuilder m β)

mutual

/-- The clauses of an entry. -/
def entry : Json → m (List β)
  | .object obj =>
    if B.isGroup obj then do
      let ands ← arrayAt "and" obj
      let ors ← arrayAt "or" obj
      B.group obj ands ors
    else B.leaf obj
  | v => B.other v

def entries : List Json → m (List β)
  | [] => pure []
  | v :: vs => do
    let bs ← entry v
    let cs ← entries vs
    pure (bs ++ cs)

/-- The clauses under a key, none when there is no array. -/
def arrayAt (key : String) : List (String × Json) → m (Option (List β))
  | [] => pure none
  | (k, v) :: es => if k = key then array key v else arrayAt key es

def array (key : String) : Json → m (Option (List β))
  | .array vs => do
    B.enter key (.array vs)
    let bs ← entries vs
    B.leave key bs
    pure (some bs)
  | v => do
    B.enter key v
    pure none

end

end Build

/-! ## What holds of all that is built -/

section Follows

variable {m : Type u → Type v} [Monad m] {β : Type u}

/-- The group that an object is, and the trees of its members. -/
structure IsGroup (obj : List (String × Json)) (ts us : Option (List (BoolTree Leaf)))
    (t : BoolTree Leaf) : Prop where
  keysDistinct : (Json.object obj).keysDistinct = true
  entry : ofEntry (.object obj) = some t
  keys : groupKeys obj = true
  ands : ofKey "and" obj = some ts
  ors : ofKey "or" obj = some us
  tree : groupTree ts us = some t

/-- Relations between trees and what is built of them that hold at the leaves and are kept by
groups, for trees with leaves in `P`. -/
structure Follows (B : GroupBuilder m β) (P : Leaf → Prop)
    (R : BoolTree Leaf → m (List β) → Prop) (S : List (BoolTree Leaf) → m (List β) → Prop)
    (A : Option (List (BoolTree Leaf)) → m (Option (List β)) → Prop) : Prop where
  isGroup : ∀ {obj t}, ofEntry (.object obj) = some t →
    B.isGroup obj = (containsKey "and" obj || containsKey "or" obj)
  leaf : ∀ {obj t}, (containsKey "and" obj || containsKey "or" obj) = false →
    (Json.object obj).keysDistinct = true → ofEntry (.object obj) = some t →
    (∀ l ∈ t.leaves, P l) → R t (B.leaf obj)
  nil : S [] (pure [])
  cons : ∀ {t ts x xs}, R t x → S ts xs →
    S (t :: ts) (do
      let bs ← x
      let cs ← xs
      pure (bs ++ cs))
  absent : A none (pure none)
  array : ∀ {key v vs ts x}, ofEntries (v :: vs) = some ts → S ts x →
    A (some ts) (do
      B.enter key (.array (v :: vs))
      let bs ← x
      B.leave key bs
      pure (some bs))
  group : ∀ {obj t ts us x y}, IsGroup obj ts us t → (∀ l ∈ t.leaves, P l) → A ts x → A us y →
    R t (do
      let ands ← x
      let ors ← y
      B.group obj ands ors)

variable {B : GroupBuilder m β} {P : Leaf → Prop} {R : BoolTree Leaf → m (List β) → Prop}
  {S : List (BoolTree Leaf) → m (List β) → Prop}
  {A : Option (List (BoolTree Leaf)) → m (Option (List β)) → Prop}

mutual

theorem Follows.entry (hB : Follows B P R S A) {v : Json} {t : BoolTree Leaf}
    (hkeys : v.keysDistinct = true) (ht : ofEntry v = some t) (hP : ∀ l ∈ t.leaves, P l) :
    R t (B.entry v) := by
  match v with
  | .object obj =>
      rw [GroupBuilder.entry, hB.isGroup ht]
      cases hgroup : containsKey "and" obj || containsKey "or" obj with
      | false => exact hB.leaf hgroup hkeys ht hP
      | true =>
          obtain ⟨hguard, ts, us, hts, hus, htree⟩ := exists_group_of_ofEntry hgroup ht
          have hin := hkeys
          rw [Json.keysDistinct, Bool.and_eq_true] at hin
          have hleaves := hP
          rw [leaves_groupTree htree, List.forall_mem_append] at hleaves
          exact hB.group ⟨hkeys, ht, hguard, hts, hus, htree⟩ hP
            (hB.arrayAt hin.2 hts hleaves.1) (hB.arrayAt hin.2 hus hleaves.2)
  | .null => cases ht
  | .bool _ => cases ht
  | .number _ => cases ht
  | .string _ => cases ht
  | .array _ => cases ht

theorem Follows.entries (hB : Follows B P R S A) {vs : List Json} {ts : List (BoolTree Leaf)}
    (hkeys : Json.keysDistinctEach vs = true) (hts : ofEntries vs = some ts)
    (hP : ∀ l ∈ ts.flatMap BoolTree.leaves, P l) : S ts (B.entries vs) := by
  match vs with
  | [] =>
      cases hts
      rw [GroupBuilder.entries]
      exact hB.nil
  | v :: vs =>
      rw [ofEntries] at hts
      obtain ⟨t, ht, hts⟩ := Option.bind_eq_some_iff.mp hts
      obtain ⟨us, hus, hts⟩ := Option.bind_eq_some_iff.mp hts
      cases hts
      rw [List.flatMap_cons, List.forall_mem_append] at hP
      rw [Json.keysDistinctEach, Bool.and_eq_true] at hkeys
      rw [GroupBuilder.entries]
      exact hB.cons (hB.entry hkeys.1 ht hP.1) (hB.entries hkeys.2 hus hP.2)

theorem Follows.arrayAt (hB : Follows B P R S A) {key : String} {obj : List (String × Json)}
    {ts : Option (List (BoolTree Leaf))} (hkeys : Json.keysDistinctIn obj = true)
    (hts : ofKey key obj = some ts) (hP : ∀ l ∈ (ts.getD []).flatMap BoolTree.leaves, P l) :
    A ts (B.arrayAt key obj) := by
  match obj with
  | [] =>
      cases hts
      rw [GroupBuilder.arrayAt]
      exact hB.absent
  | (k, v) :: es =>
      rw [ofKey] at hts
      rw [Json.keysDistinctIn, Bool.and_eq_true] at hkeys
      rw [GroupBuilder.arrayAt]
      split_ifs at hts ⊢
      · obtain ⟨ts', hts', rfl⟩ := Option.map_eq_some_iff.mp hts
        exact hB.ofArray hkeys.1 hts' hP
      · exact hB.arrayAt hkeys.2 hts hP

theorem Follows.ofArray (hB : Follows B P R S A) {key : String} {v : Json}
    {ts : List (BoolTree Leaf)} (hkeys : v.keysDistinct = true) (hts : ofArray v = some ts)
    (hP : ∀ l ∈ ts.flatMap BoolTree.leaves, P l) : A (some ts) (B.array key v) := by
  match v with
  | .array (w :: ws) =>
      rw [ConditionTree.ofArray] at hts
      rw [Json.keysDistinct] at hkeys
      rw [GroupBuilder.array]
      exact hB.array hts (hB.entries hkeys hts hP)
  | .array [] => cases hts
  | .null => cases hts
  | .bool _ => cases hts
  | .number _ => cases hts
  | .string _ => cases hts
  | .object _ => cases hts

end

/-- The two arrays of a conditions value, and the tree of its group. -/
theorem Follows.arms (hB : Follows B P R S A) {v : Json} {t : BoolTree Leaf}
    (hkeys : v.keysDistinct = true) (ht : ofConditions v = some t) (hP : ∀ l ∈ t.leaves, P l) :
    ∃ obj ts us, v = .object obj ∧ IsGroup obj ts us t ∧
      A ts (B.arrayAt "and" obj) ∧ A us (B.arrayAt "or" obj) := by
  obtain ⟨obj, rfl, hgroup, hobj⟩ := exists_object_of_ofConditions ht
  obtain ⟨hguard, ts, us, hts, hus, htree⟩ := exists_group_of_ofEntry hgroup hobj
  have hin := hkeys
  rw [Json.keysDistinct, Bool.and_eq_true] at hin
  rw [leaves_groupTree htree, List.forall_mem_append] at hP
  exact ⟨obj, ts, us, rfl, ⟨hkeys, hobj, hguard, hts, hus, htree⟩, hB.arrayAt hin.2 hts hP.1,
    hB.arrayAt hin.2 hus hP.2⟩

end Follows

end GroupBuilder

end VectorDbBenchmark.ConditionTree
