import VectorDbBenchmark.Kit.Projection
import VectorDbBenchmark.Kividb.Faithful

/-!
# Parts that the builder skips

A conditions value of any shape as a tree: an empty `and` is true, and an empty `or` and what is
malformed are false.  The builder renders what is left of the tree without the parts that hold
no operation.
-/

namespace VectorDbBenchmark.Kividb

open Kit Redis ConditionTree BoolTree

/-! ## Trees of all values -/

/-- The keys of a group that are neither `and` nor `or`, which are malformed. -/
def otherKeys (obj : List (String × Json)) : List (BoolTree Leaf) :=
  if groupKeys obj then [] else [.any []]

mutual

/-- The members an entry adds to its group: those of a malformed entry are false. -/
def readEntry : Json → List (BoolTree Leaf)
  | .object obj =>
    if containsKey "and" obj || containsKey "or" obj then
      [.all (readAt .all "and" obj ++ (readAt .any "or" obj ++ otherKeys obj))]
    else (fieldMembers obj).getD [.any []]
  | _ => [.any []]

def readEntries : List Json → List (BoolTree Leaf)
  | [] => []
  | v :: vs => readEntry v ++ readEntries vs

/-- What stands under a key, which is false when it is no array. -/
def readAt (join : List (BoolTree Leaf) → BoolTree Leaf) (key : String) :
    List (String × Json) → List (BoolTree Leaf)
  | [] => []
  | (k, v) :: es => if k = key then [readArray join v] else readAt join key es

def readArray (join : List (BoolTree Leaf) → BoolTree Leaf) : Json → BoolTree Leaf
  | .array vs => join (readEntries vs)
  | _ => .any []

end

/-- The tree of a conditions value. -/
def conditionsTree : Json → BoolTree Leaf
  | .object obj => .all (readAt .all "and" obj ++ (readAt .any "or" obj ++ otherKeys obj))
  | _ => .any []

mutual

/-- Whether an entry is an object, and all groups in it hold arrays of objects. -/
def holdsObjects : Json → Bool
  | .object obj =>
    if containsKey "and" obj || containsKey "or" obj then
      objectsAt "and" obj && objectsAt "or" obj
    else true
  | _ => false

def allObjects : List Json → Bool
  | [] => true
  | v :: vs => holdsObjects v && allObjects vs

def objectsAt (key : String) : List (String × Json) → Bool
  | [] => true
  | (k, v) :: es => if k = key then isObjects v else objectsAt key es

def isObjects : Json → Bool
  | .array vs => allObjects vs
  | _ => false

end

/-- Every `and` and `or` in a conditions value is an array of objects. -/
def groupsHoldObjects : Json → Bool
  | .object obj => objectsAt "and" obj && objectsAt "or" obj
  | _ => true

/-! ## Rendering a tree -/

section Rendering

variable (env : Env) (tagsSupported : Bool)

mutual

/-- The node of a tree of operations. -/
def treeNode : BoolTree Leaf → Except String Node
  | .leaf l => buildFilter env l.field l.op l.criteria tagsSupported
  | .all ts => (treeNodes ts).map nodeAnd
  | .any ts => (treeNodes ts).map nodeOr

def treeNodes : List (BoolTree Leaf) → Except String (List Node)
  | [] => .ok []
  | t :: ts => do
    let n ← treeNode t
    let ns ← treeNodes ts
    .ok (n :: ns)

end

variable {env tagsSupported}

theorem treeNodes_append {ts us : List (BoolTree Leaf)} {ns ms : List Node}
    (hts : treeNodes env tagsSupported ts = .ok ns)
    (hus : treeNodes env tagsSupported us = .ok ms) :
    treeNodes env tagsSupported (ts ++ us) = .ok (ns ++ ms) := by
  induction ts generalizing ns with
  | nil =>
      cases hts
      exact hus
  | cons t ts ih =>
      rw [treeNodes] at hts
      obtain ⟨n, hn, hts⟩ := bind_eq_ok.mp hts
      obtain ⟨ns', hns, hts⟩ := bind_eq_ok.mp hts
      cases hts
      rw [List.cons_append, treeNodes, hn, ih hns]
      rfl

theorem isEmpty_of_treeNodes {ts : List (BoolTree Leaf)} {ns : List Node}
    (h : treeNodes env tagsSupported ts = .ok ns) : ts.isEmpty = ns.isEmpty := by
  cases ts with
  | nil =>
      cases h
      rfl
  | cons t ts =>
      rw [treeNodes] at h
      obtain ⟨n, -, h⟩ := bind_eq_ok.mp h
      obtain ⟨ns', -, h⟩ := bind_eq_ok.mp h
      cases h
      rfl

/-- The node of a group, of nothing none. -/
def armNode (node : List Node → Node) (ns : List Node) : List Node :=
  if ns.isEmpty then [] else [node ns]

/-- Groups of trees become groups of nodes, and empty ones nothing. -/
def Joins (env : Env) (tagsSupported : Bool) (join : List (BoolTree Leaf) → BoolTree Leaf)
    (node : List Node → Node) : Prop :=
  ∀ {ts ns}, treeNodes env tagsSupported (pruneEach ts) = .ok ns →
    treeNodes env tagsSupported (join ts).prune.toList = .ok (armNode node ns)

theorem joins_regroup {join : List (BoolTree Leaf) → BoolTree Leaf} {node : List Node → Node}
    (hprune : ∀ ts, (join ts).prune = regroup join (pruneEach ts))
    (hnode : ∀ ts, treeNode env tagsSupported (join ts) =
      (treeNodes env tagsSupported ts).map node) : Joins env tagsSupported join node := by
  intro ts ns h
  rw [hprune, regroup, armNode, isEmpty_of_treeNodes h]
  split_ifs
  · rfl
  · rw [Option.toList_some, treeNodes, hnode, h]
    rfl

theorem joins_all : Joins env tagsSupported .all nodeAnd :=
  joins_regroup (fun _ ↦ by rw [prune, project]; rfl) fun _ ↦ by rw [treeNode]

theorem joins_any : Joins env tagsSupported .any nodeOr :=
  joins_regroup (fun _ ↦ by rw [prune, project]; rfl) fun _ ↦ by rw [treeNode]

theorem pruneEach_append (ts us : List (BoolTree Leaf)) :
    pruneEach (ts ++ us) = pruneEach ts ++ pruneEach us := by
  rw [pruneEach_eq, pruneEach_eq, pruneEach_eq, List.flatMap_append]

theorem pruneEach_otherKeys (obj : List (String × Json)) : pruneEach (otherKeys obj) = [] := by
  rw [otherKeys]
  split_ifs <;> rfl

theorem pruneEach_leaves (ls : List Leaf) : pruneEach (ls.map .leaf) = ls.map BoolTree.leaf := by
  rw [pruneEach_eq, List.flatMap_map, List.map_eq_flatMap]
  exact List.flatMap_congr fun l _ ↦ by rw [prune_leaf, Option.toList_some]

theorem toList_groupNode (ns ms : List Node) : (groupNode ns ms).toList =
    armNode nodeAnd (armNode nodeAnd ns ++ armNode nodeOr ms) := by
  have hparts : ∀ parts : List Node, (if parts.isEmpty then none else some (nodeAnd parts)).toList =
      armNode nodeAnd parts := by
    intro parts
    rw [armNode]
    split_ifs <;> rfl
  exact hparts _

/-- The node of a group is made of those of its arrays. -/
theorem treeNodes_group {as os : List (BoolTree Leaf)} {ns ms : List Node}
    {obj : List (String × Json)}
    (has : treeNodes env tagsSupported (pruneEach as) = .ok (armNode nodeAnd ns))
    (hos : treeNodes env tagsSupported (pruneEach os) = .ok (armNode nodeOr ms)) :
    treeNodes env tagsSupported (BoolTree.all (as ++ (os ++ otherKeys obj))).prune.toList =
      .ok (groupNode ns ms).toList := by
  have hparts : treeNodes env tagsSupported (pruneEach (as ++ (os ++ otherKeys obj))) =
      .ok (armNode nodeAnd ns ++ armNode nodeOr ms) := by
    rw [pruneEach_append, pruneEach_append, pruneEach_otherKeys, List.append_nil]
    exact treeNodes_append has hos
  rw [joins_all hparts, toList_groupNode]

theorem treeNodes_leaves {obj : List (String × Json)} {ns : List Node}
    (h : buildLeaves env tagsSupported obj = .ok ns) : fieldsAreObjects obj = true ∧
      treeNodes env tagsSupported ((fieldLeaves obj).map .leaf) = .ok ns := by
  have hops : ∀ {field : String} {ops : List (String × Json)} {ns : List Node},
      buildOps env tagsSupported field ops = .ok ns →
      treeNodes env tagsSupported (ops.map fun e ↦ .leaf ⟨field, e.1, e.2⟩) = .ok ns := by
    intro field ops ns h
    induction ops generalizing ns with
    | nil =>
        cases h
        rfl
    | cons e ops ih =>
        rw [buildOps] at h
        obtain ⟨n, hn, h⟩ := bind_eq_ok.mp h
        obtain ⟨ns', hns, h⟩ := bind_eq_ok.mp h
        cases h
        rw [List.map_cons, treeNodes, treeNode, hn, ih hns]
        rfl
  induction obj generalizing ns with
  | nil =>
      cases h
      exact ⟨rfl, rfl⟩
  | cons e obj ih =>
      obtain ⟨field, fieldFilters⟩ := e
      cases fieldFilters with
      | object ops =>
          rw [buildLeaves] at h
          obtain ⟨ns', hns, h⟩ := bind_eq_ok.mp h
          obtain ⟨rest, hrest, h⟩ := bind_eq_ok.mp h
          cases h
          obtain ⟨hobjects, hnodes⟩ := ih hrest
          refine ⟨hobjects, ?_⟩
          rw [fieldLeaves, List.flatMap_cons, ← fieldLeaves, List.map_append]
          refine treeNodes_append ?_ hnodes
          rw [List.map_map]
          exact hops hns
      | null => cases h
      | bool _ => cases h
      | number _ => cases h
      | string _ => cases h
      | array _ => cases h

mutual

/-- What is built of an entry is what is left of its members. -/
theorem treeNodes_entry {v : Json} {ns : List Node} (h : buildEntry env tagsSupported v = .ok ns) :
    treeNodes env tagsSupported (pruneEach (readEntry v)) = .ok ns := by
  match v with
  | .object obj =>
      rw [buildEntry] at h
      rw [readEntry]
      split_ifs at h ⊢ with hgroup
      · obtain ⟨andChildren, hand, h⟩ := bind_eq_ok.mp h
        obtain ⟨orChildren, hor, h⟩ := bind_eq_ok.mp h
        cases h
        rw [pruneEach_singleton]
        exact treeNodes_group (treeNodes_at joins_all hand) (treeNodes_at joins_any hor)
      · obtain ⟨hobjects, hnodes⟩ := treeNodes_leaves h
        rw [fieldMembers, hobjects, Bool.true_and]
        cases hempty : (fieldLeaves obj).isEmpty with
        | true =>
            rw [List.isEmpty_iff.mp hempty] at hnodes
            exact hnodes
        | false =>
            rw [Bool.not_false, if_pos rfl, Option.getD_some, pruneEach_leaves]
            exact hnodes
  | .null => cases h
  | .bool _ => cases h
  | .number _ => cases h
  | .string _ => cases h
  | .array _ => cases h

theorem treeNodes_entries {vs : List Json} {ns : List Node}
    (h : buildSubfilters env tagsSupported vs = .ok ns) :
    treeNodes env tagsSupported (pruneEach (readEntries vs)) = .ok ns := by
  match vs with
  | [] =>
      rw [buildSubfilters] at h
      cases h
      rfl
  | v :: vs =>
      rw [buildSubfilters] at h
      obtain ⟨ns', hns, h⟩ := bind_eq_ok.mp h
      obtain ⟨rest, hrest, h⟩ := bind_eq_ok.mp h
      cases h
      rw [readEntries, pruneEach_append]
      exact treeNodes_append (treeNodes_entry hns) (treeNodes_entries hrest)

theorem treeNodes_at {join : List (BoolTree Leaf) → BoolTree Leaf} {node : List Node → Node}
    (hjoin : Joins env tagsSupported join node) {key : String} {obj : List (String × Json)}
    {ns : List Node} (h : buildArrayAt env tagsSupported key obj = .ok ns) :
    treeNodes env tagsSupported (pruneEach (readAt join key obj)) = .ok (armNode node ns) := by
  match obj with
  | [] =>
      rw [buildArrayAt] at h
      cases h
      rfl
  | (k, v) :: es =>
      rw [buildArrayAt] at h
      rw [readAt]
      split_ifs at h ⊢
      · rw [pruneEach_singleton]
        exact treeNodes_array hjoin h
      · exact treeNodes_at hjoin h

theorem treeNodes_array {join : List (BoolTree Leaf) → BoolTree Leaf} {node : List Node → Node}
    (hjoin : Joins env tagsSupported join node) {v : Json} {ns : List Node}
    (h : buildArray env tagsSupported v = .ok ns) :
    treeNodes env tagsSupported (readArray join v).prune.toList = .ok (armNode node ns) := by
  match v with
  | .array vs =>
      rw [buildArray] at h
      rw [readArray]
      exact hjoin (treeNodes_entries h)
  | .null | .bool _ | .number _ | .string _ | .object _ =>
      rw [buildArray] at h
      · cases h
        rfl
      · exact fun _ h ↦ nomatch h

end

/-! ## Reading a rendered tree -/

section Reading

variable {strict : Prop} {ls : List Leaf}

theorem saysMembers_prune {ts : List (BoolTree Leaf)} {ns : List Node}
    (hts : ∀ t ∈ ts, ∀ u n, t.prune = some u → treeNode env tagsSupported u = .ok n →
      Says strict (FromOperations ls) n (treeHolds env u))
    (h : treeNodes env tagsSupported (pruneEach ts) = .ok ns) :
    SaysMembers env strict ls (pruneEach ts) ns := by
  induction ts generalizing ns with
  | nil =>
      cases h
      exact .nil
  | cons t ts ih =>
      rw [List.forall_mem_cons] at hts
      rw [pruneEach_cons] at h ⊢
      cases hprune : t.prune with
      | none =>
          rw [hprune, Option.toList_none, List.nil_append] at h
          exact ih hts.2 h
      | some u =>
          rw [hprune, Option.toList_some, List.singleton_append, treeNodes] at h
          obtain ⟨n, hn, h⟩ := bind_eq_ok.mp h
          obtain ⟨ns', hns, h⟩ := bind_eq_ok.mp h
          cases h
          exact .cons (hts.1 u n hprune hn) (ih hts.2 hns)

/-- The node of what is left of a tree says what is left of it. -/
theorem says_prune (hls : Readable env strict ls) {t u : BoolTree Leaf} {n : Node}
    (hleaves : ∀ l ∈ t.leaves, l ∈ ls) (hprune : t.prune = some u)
    (h : treeNode env tagsSupported u = .ok n) :
    Says strict (FromOperations ls) n (treeHolds env u) := by
  induction t generalizing u n with
  | leaf l =>
      rw [leaves_leaf, List.forall_mem_singleton] at hleaves
      rw [prune_leaf] at hprune
      cases hprune
      rw [treeNode] at h
      have htold := says_buildFilter hls.env hleaves (hls.names _ hleaves) (hls.floats _ hleaves)
        hls.strict h
      exact ⟨htold.wide, fun d hd ↦ (htold.truth d hd).trans (eval_leaf _).symm⟩
  | all ts ih =>
      rw [leaves_all] at hleaves
      rw [prune_all, ← pruneEach_eq, regroup] at hprune
      split_ifs at hprune with hempty
      cases hprune
      rw [treeNode] at h
      obtain ⟨ns, hns, rfl⟩ := map_eq_ok.mp h
      refine Says.and (mt List.isEmpty_iff.mpr hempty) (saysMembers_prune ?_ hns)
      intro t ht u n hu hn
      exact ih t ht (fun l hl ↦ hleaves l (List.mem_flatMap.mpr ⟨t, ht, hl⟩)) hu hn
  | any ts ih =>
      rw [leaves_any] at hleaves
      rw [prune_any, ← pruneEach_eq, regroup] at hprune
      split_ifs at hprune with hempty
      cases hprune
      rw [treeNode] at h
      obtain ⟨ns, hns, rfl⟩ := map_eq_ok.mp h
      refine Says.or (mt List.isEmpty_iff.mpr hempty) (saysMembers_prune ?_ hns)
      intro t ht u n hu hn
      exact ih t ht (fun l hl ↦ hleaves l (List.mem_flatMap.mpr ⟨t, ht, hl⟩)) hu hn

end Reading

/-! ## Prefilters -/

variable {conditions : Json} {s : Text}

/-- A prefilter that is not the one of all documents renders what is left of the tree. -/
theorem exists_rendered (h : parseConditions env tagsSupported conditions = .ok s)
    (hs : s ≠ matchAll) : ∃ t n, (conditionsTree conditions).prune = some t ∧
      treeNode env tagsSupported t = .ok n ∧ s = Node.render n := by
  cases conditions with
  | object obj =>
      rw [parseConditions] at h
      split_ifs at h
      · cases h
        exact absurd rfl hs
      · obtain ⟨node, hnode, h⟩ := bind_eq_ok.mp h
        rw [buildGroup] at hnode
        obtain ⟨andChildren, hand, hnode⟩ := bind_eq_ok.mp hnode
        obtain ⟨orChildren, hor, hnode⟩ := bind_eq_ok.mp hnode
        have hgroup : treeNodes env tagsSupported (conditionsTree (.object obj)).prune.toList =
            .ok (groupNode andChildren orChildren).toList :=
          treeNodes_group (treeNodes_at joins_all hand) (treeNodes_at joins_any hor)
        cases hnode
        cases hn : groupNode andChildren orChildren with
        | none =>
            rw [hn] at h
            cases h
            exact absurd rfl hs
        | some n =>
            rw [hn] at h hgroup
            cases h
            cases hprune : (conditionsTree (.object obj)).prune with
            | none =>
                rw [hprune] at hgroup
                cases hgroup
            | some t =>
                rw [hprune, Option.toList_some, treeNodes] at hgroup
                obtain ⟨n', hn', hgroup⟩ := bind_eq_ok.mp hgroup
                cases hgroup
                exact ⟨t, n, rfl, hn', rfl⟩
  | _ =>
      cases h
      exact absurd rfl hs

/-- A prefilter is read as what is left of the tree. -/
theorem exists_reading_rendered {t : BoolTree Leaf} {n : Node}
    (hprune : (conditionsTree conditions).prune = some t)
    (hnode : treeNode env tagsSupported t = .ok n)
    (hread : Readable env False (conditionsTree conditions).leaves) :
    ∃ F, readFilter (Node.render n) = some F ∧ ∀ d : Document, d.NeverFree →
      F.eval (clauseHolds d) = t.eval (operationHolds env d) := by
  have htold := says_prune hread (fun _ hl ↦ hl) hprune hnode
  obtain ⟨F, hreads, -, heval⟩ := exists_reading htold.wide
  refine ⟨F, hreads _ ⟨lenient, .inl rfl, rfl⟩, fun d hd ↦ ?_⟩
  rw [heval, htold.truth d hd]
  rfl

end Rendering

/-! ## What is kept -/

/-- The groups of a conditions value are arrays of objects, and what is rendered of it implies it,
whatever the truth of its operations. -/
structure Kept (conditions : Json) (t : BoolTree Leaf) : Prop where
  objects : groupsHoldObjects conditions = true
  implies : ∀ truth : Leaf → Bool, t.eval truth = true →
    (conditionsTree conditions).eval truth = true

/-- Whether what the builder leaves out of a conditions value makes no difference. -/
def keepsAll (conditions : Json) : Bool :=
  groupsHoldObjects conditions && (conditionsTree conditions).keeps

/-- A prefilter other than that of all documents renders a tree of operations, and is read as that
tree where it can be read.  It skips nothing if the parts without operations make no difference,
and if no operation stands twice, only if. -/
theorem parseConditions_kept {env : Env} {tagsSupported : Bool} {conditions : Json} {s : Text}
    (h : parseConditions env tagsSupported conditions = .ok s) (hs : s ≠ matchAll) :
    ∃ t, (conditionsTree conditions).prune = some t ∧
      (treeNode env tagsSupported t).map Node.render = .ok s ∧
      (Readable env False (conditionsTree conditions).leaves → ∃ F, readFilter s = some F ∧
        ∀ d : Document, d.NeverFree → F.eval (clauseHolds d) = t.eval (operationHolds env d)) ∧
      (keepsAll conditions = true → Kept conditions t) ∧
      ((conditionsTree conditions).leaves.Nodup →
        (Kept conditions t ↔ keepsAll conditions = true)) := by
  obtain ⟨t, n, hprune, hnode, rfl⟩ := exists_rendered h hs
  have hleft : ∀ truth : Leaf → Bool, (conditionsTree conditions).prune.all (eval truth) =
      t.eval truth := fun truth ↦ by rw [hprune, Option.all_some]
  have hkept : keepsAll conditions = true → Kept conditions t := by
    intro hkeeps
    rw [keepsAll, Bool.and_eq_true] at hkeeps
    exact ⟨hkeeps.1, fun truth ht ↦ eval_of_keeps hkeeps.2 ((hleft truth).trans ht)⟩
  refine ⟨t, hprune, ?_, exists_reading_rendered hprune hnode, hkept,
    fun hnodup ↦ ⟨fun hall ↦ ?_, hkept⟩⟩
  · rw [hnode]
    rfl
  · rw [keepsAll, hall.objects, Bool.true_and, keeps_iff hnodup]
    exact fun truth ht ↦ hall.implies truth ((hleft truth).symm.trans ht)

/-! ## Examples -/

section Examples

/-- A condition on the number `n`. -/
def numberIs (k : ℕ) : Json := leafEntry "n" "match" [("value", .ofNat k)]

/-- An empty conjunction beside a condition, and an empty disjunction beside an alternative. -/
def padded : Json :=
  .object [("and", .array [numberIs 1, .object [("and", .array [])]]),
    ("or", .array [.object [("or", .array [])], numberIs 2])]

theorem parseConditions_kept_padded :
    ∃ t, (conditionsTree padded).prune = some t ∧
      (treeNode plainEnv true t).map Node.render = .ok "@n:[1 1] @n:[2 2]".toList ∧
      Kept padded t := by
  obtain ⟨t, hprune, hnode, -, hkept, -⟩ := parseConditions_kept
    (by rfl : parseConditions plainEnv true padded = .ok "@n:[1 1] @n:[2 2]".toList) (by decide)
  exact ⟨t, hprune, hnode, hkept (by decide)⟩

/-- A disjunction that is no array. -/
def strayNumber : Json := .object [("and", .array [numberIs 1]), ("or", .ofNat 5)]

/-- An empty disjunction in a conjunction. -/
def emptyChoice : Json :=
  .object [("and", .array [numberIs 1, .object [("or", .array [])]])]

/-- What is no array is skipped, and an empty disjunction is. -/
theorem parseConditions_skips :
    (parseConditions plainEnv true strayNumber = .ok "@n:[1 1]".toList ∧
      groupsHoldObjects strayNumber = false) ∧
    parseConditions plainEnv true emptyChoice = .ok "@n:[1 1]".toList ∧
      ∀ truth, (conditionsTree emptyChoice).eval truth = false := by
  refine ⟨⟨by rfl, by decide⟩, by rfl, fun truth ↦ ?_⟩
  have htree : conditionsTree emptyChoice =
      .all [.all [.leaf ⟨"n", "match", .object [("value", .ofNat 1)]⟩, .all [.any []]]] := rfl
  rw [htree]
  simp

end Examples

end VectorDbBenchmark.Kividb
