import VectorDbBenchmark.Kividb.Leaves

/-!
# The prefilter of a condition tree

What the builder returns for a tree of operations is read as a filter that is true of the
documents the tree is true of, in the shape the server reads right.
-/

namespace VectorDbBenchmark.Kividb

open Kit Redis ConditionTree

section Builder

variable {env : Env} {strict : Prop} {tagsSupported : Bool} {ls : List Leaf}

/-- The truth of a tree of operations. -/
def treeHolds (env : Env) (t : BoolTree Leaf) (d : Document) : Bool := t.eval (operationHolds env d)

/-- Operations whose clauses can be read. -/
structure Readable (env : Env) (strict : Prop) (ls : List Leaf) : Prop where
  env : env.Lawful
  names : ∀ l ∈ ls, PlainName l.field.toList
  floats : ∀ l ∈ ls, ∀ q ∈ l.criteria.floats, F64.IsValue q
  strict : strict → ∀ l ∈ ls, ¬asksForNone l

/-- Nodes that say what the members of a group say. -/
abbrev SaysMembers (env : Env) (strict : Prop) (ls : List Leaf) :
    List (BoolTree Leaf) → List Node → Prop :=
  SaysEach strict (FromOperations ls) (treeHolds env)

/-- The same of what stands under a key. -/
def SaysAt (env : Env) (strict : Prop) (ls : List Leaf) :
    Option (List (BoolTree Leaf)) → List Node → Prop
  | none, ns => ns = []
  | some ts, ns => ts ≠ [] ∧ SaysMembers env strict ls ts ns

theorem ne_nil_of_saysMembers {ts : List (BoolTree Leaf)} {ns : List Node} (hne : ts ≠ [])
    (h : SaysMembers env strict ls ts ns) : ns ≠ [] := by
  rintro rfl
  cases h
  exact hne rfl

theorem Says.and {ts : List (BoolTree Leaf)} {ns : List Node} (hne : ts ≠ [])
    (h : SaysMembers env strict ls ts ns) :
    Says strict (FromOperations ls) (nodeAnd ns) (treeHolds env (.all ts)) := by
  have htold := says_nodeAnd (ne_nil_of_saysMembers hne h) h
  refine ⟨htold.wide, fun d hd ↦ (htold.truth d hd).trans ?_⟩
  exact (BoolTree.eval_all ts).symm

theorem Says.or {ts : List (BoolTree Leaf)} {ns : List Node} (hne : ts ≠ [])
    (h : SaysMembers env strict ls ts ns) :
    Says strict (FromOperations ls) (nodeOr ns) (treeHolds env (.any ts)) := by
  have htold := says_nodeOr (ne_nil_of_saysMembers hne h) h
  refine ⟨htold.wide, fun d hd ↦ (htold.truth d hd).trans ?_⟩
  exact (BoolTree.eval_any ts).symm

/-- The node of a group. -/
theorem says_groupNode {ts us : Option (List (BoolTree Leaf))} {t : BoolTree Leaf}
    {ns ms : List Node} (ht : groupTree ts us = some t) (hand : SaysAt env strict ls ts ns)
    (hor : SaysAt env strict ls us ms) :
    ∃ n, groupNode ns ms = some n ∧ Says strict (FromOperations ls) n (treeHolds env t) := by
  have hone : ∀ n : Node, nodeAnd [n] = n := fun n ↦ rfl
  have hempty : ∀ {xs : List (BoolTree Leaf)} {ns : List Node}, xs ≠ [] →
      SaysMembers env strict ls xs ns → ns.isEmpty = false := fun hne h ↦
    List.isEmpty_eq_false_iff.mpr (ne_nil_of_saysMembers hne h)
  rcases ts with _ | ts <;> rcases us with _ | us
  · cases ht
  · cases ht
    cases hand
    refine ⟨_, ?_, .or hor.1 hor.2⟩
    rw [groupNode, hempty hor.1 hor.2]
    rfl
  · cases ht
    cases hor
    refine ⟨_, ?_, .and hand.1 hand.2⟩
    rw [groupNode, hempty hand.1 hand.2]
    rfl
  · cases ht
    have hpair : SaysMembers env strict ls [.all ts, .any us] [nodeAnd ns, nodeOr ms] :=
      .cons (.and hand.1 hand.2) (.cons (.or hor.1 hor.2) .nil)
    refine ⟨nodeAnd [nodeAnd ns, nodeOr ms], ?_, .and (List.cons_ne_nil _ _) hpair⟩
    rw [groupNode, hempty hand.1 hand.2, hempty hor.1 hor.2]
    rfl

theorem says_buildOps {field : String} {ops : List (String × Json)} {ns : List Node}
    (hls : Readable env strict ls)
    (hops : ∀ e ∈ ops, (⟨field, e.1, e.2⟩ : Leaf) ∈ ls)
    (h : buildOps env tagsSupported field ops = .ok ns) :
    SaysMembers env strict ls (ops.map fun e ↦ .leaf ⟨field, e.1, e.2⟩) ns := by
  induction ops generalizing ns with
  | nil =>
      cases h
      exact .nil
  | cons e ops ih =>
      rw [List.forall_mem_cons] at hops
      rw [buildOps] at h
      obtain ⟨n, hn, h⟩ := bind_eq_ok.mp h
      obtain ⟨ns', hns, h⟩ := bind_eq_ok.mp h
      cases h
      have htold := says_buildFilter hls.env hops.1 (hls.names _ hops.1) (hls.floats _ hops.1)
        hls.strict hn
      refine .cons ⟨htold.wide, fun d hd ↦ ?_⟩ (ih hops.2 hns)
      exact (htold.truth d hd).trans (BoolTree.eval_leaf _).symm

theorem says_buildLeaves {obj : List (String × Json)} {ns : List Node}
    (hls : Readable env strict ls) (hobj : ∀ l ∈ fieldLeaves obj, l ∈ ls)
    (h : buildLeaves env tagsSupported obj = .ok ns) :
    SaysMembers env strict ls ((fieldLeaves obj).map .leaf) ns := by
  induction obj generalizing ns with
  | nil =>
      cases h
      exact .nil
  | cons e obj ih =>
      obtain ⟨field, fieldFilters⟩ := e
      rw [fieldLeaves, List.flatMap_cons, ← fieldLeaves] at hobj ⊢
      rw [List.forall_mem_append] at hobj
      cases fieldFilters with
      | object ops =>
          rw [buildLeaves] at h
          obtain ⟨ns', hns, h⟩ := bind_eq_ok.mp h
          obtain ⟨rest, hrest, h⟩ := bind_eq_ok.mp h
          cases h
          rw [List.map_append]
          refine List.rel_append ?_ (ih hobj.2 hrest)
          have htold := says_buildOps hls
            (fun e he ↦ hobj.1 _ (List.mem_map_of_mem he)) hns
          rwa [List.map_map]
      | null => cases h
      | bool _ => cases h
      | number _ => cases h
      | string _ => cases h
      | array _ => cases h

mutual

/-- The nodes of an entry say what its members say. -/
theorem says_buildEntry (hls : Readable env strict ls) {v : Json} {ts : List (BoolTree Leaf)}
    {ns : List Node} (ht : entryMembers v = some ts)
    (hts : ∀ l ∈ ts.flatMap BoolTree.leaves, l ∈ ls)
    (h : buildEntry env tagsSupported v = .ok ns) : SaysMembers env strict ls ts ns := by
  match v with
  | .object obj =>
      rw [entryMembers] at ht
      rw [buildEntry] at h
      split_ifs at ht h with hgroup
      · obtain ⟨-, -, ht⟩ := Option.bind_eq_some_iff.mp ht
        obtain ⟨as, has, ht⟩ := Option.bind_eq_some_iff.mp ht
        obtain ⟨os, hos, ht⟩ := Option.bind_eq_some_iff.mp ht
        obtain ⟨t, htree, rfl⟩ := Option.map_eq_some_iff.mp ht
        obtain ⟨andChildren, hand, h⟩ := bind_eq_ok.mp h
        obtain ⟨orChildren, hor, h⟩ := bind_eq_ok.mp h
        cases h
        rw [List.flatMap_singleton, leaves_groupTree htree, List.forall_mem_append] at hts
        obtain ⟨n, hn, htold⟩ := says_groupNode htree (says_buildArrayAt hls has hts.1 hand)
          (says_buildArrayAt hls hos hts.2 hor)
        rw [hn]
        exact .cons htold .nil
      · rw [fieldMembers] at ht
        split_ifs at ht
        cases ht
        refine says_buildLeaves hls (fun l hl ↦ hts l ?_) h
        rw [List.flatMap_map]
        refine List.mem_flatMap.mpr ⟨l, hl, ?_⟩
        rw [BoolTree.leaves_leaf]
        exact List.mem_singleton_self l
  | .null => cases ht
  | .bool _ => cases ht
  | .number _ => cases ht
  | .string _ => cases ht
  | .array _ => cases ht

theorem says_buildSubfilters (hls : Readable env strict ls) {vs : List Json}
    {ts : List (BoolTree Leaf)} {ns : List Node} (ht : subfilterMembers vs = some ts)
    (hts : ∀ l ∈ ts.flatMap BoolTree.leaves, l ∈ ls)
    (h : buildSubfilters env tagsSupported vs = .ok ns) : SaysMembers env strict ls ts ns := by
  match vs with
  | [] =>
      rw [subfilterMembers] at ht
      rw [buildSubfilters] at h
      cases ht
      cases h
      exact .nil
  | v :: vs =>
      rw [subfilterMembers] at ht
      obtain ⟨ts', hv, ht⟩ := Option.bind_eq_some_iff.mp ht
      obtain ⟨us, hvs, ht⟩ := Option.bind_eq_some_iff.mp ht
      cases ht
      rw [buildSubfilters] at h
      obtain ⟨ns', hns, h⟩ := bind_eq_ok.mp h
      obtain ⟨rest, hrest, h⟩ := bind_eq_ok.mp h
      cases h
      rw [List.flatMap_append, List.forall_mem_append] at hts
      exact List.rel_append (says_buildEntry hls hv hts.1 hns)
        (says_buildSubfilters hls hvs hts.2 hrest)

theorem says_buildArrayAt (hls : Readable env strict ls) {key : String}
    {obj : List (String × Json)} {ts : Option (List (BoolTree Leaf))} {ns : List Node}
    (ht : membersAt key obj = some ts)
    (hts : ∀ l ∈ (ts.getD []).flatMap BoolTree.leaves, l ∈ ls)
    (h : buildArrayAt env tagsSupported key obj = .ok ns) : SaysAt env strict ls ts ns := by
  match obj with
  | [] =>
      rw [membersAt] at ht
      rw [buildArrayAt] at h
      cases ht
      cases h
      rfl
  | (k, v) :: entries =>
      rw [membersAt] at ht
      rw [buildArrayAt] at h
      split_ifs at ht h
      · obtain ⟨ts', hts', rfl⟩ := Option.map_eq_some_iff.mp ht
        exact ⟨arrayMembers_ne_nil hts', says_buildArray hls hts' hts h⟩
      · exact says_buildArrayAt hls ht hts h

theorem says_buildArray (hls : Readable env strict ls) {v : Json} {ts : List (BoolTree Leaf)}
    {ns : List Node} (ht : arrayMembers v = some ts)
    (hts : ∀ l ∈ ts.flatMap BoolTree.leaves, l ∈ ls)
    (h : buildArray env tagsSupported v = .ok ns) : SaysMembers env strict ls ts ns := by
  match v with
  | .array (e :: es) =>
      rw [arrayMembers] at ht
      rw [buildArray] at h
      exact says_buildSubfilters hls ht hts h
  | .array [] => cases ht
  | .null => cases ht
  | .bool _ => cases ht
  | .number _ => cases ht
  | .string _ => cases ht
  | .object _ => cases ht

end

/-- The prefilter of a tree is the rendering of a node that says what the tree says. -/
theorem exists_node {conditions : Json} {t : BoolTree Leaf} {s : Text}
    (hls : Readable env strict t.leaves) (ht : operationTree conditions = some t)
    (h : parseConditions env tagsSupported conditions = .ok s) :
    ∃ n, s = Node.render n ∧ Says strict (FromOperations t.leaves) n (treeHolds env t) := by
  unfold operationTree at ht
  split at ht
  · next obj =>
      split_ifs at ht with hgroup
      obtain ⟨-, -, ht⟩ := Option.bind_eq_some_iff.mp ht
      obtain ⟨as, has, ht⟩ := Option.bind_eq_some_iff.mp ht
      obtain ⟨os, hos, ht⟩ := Option.bind_eq_some_iff.mp ht
      have hne : obj.isEmpty = false := by
        cases obj with
        | nil => cases hgroup
        | cons e es => rfl
      rw [parseConditions, hne, if_neg Bool.false_ne_true] at h
      obtain ⟨node, hnode, h⟩ := bind_eq_ok.mp h
      rw [buildGroup] at hnode
      obtain ⟨andChildren, hand, hnode⟩ := bind_eq_ok.mp hnode
      obtain ⟨orChildren, hor, hnode⟩ := bind_eq_ok.mp hnode
      have hts := leaves_groupTree ht
      obtain ⟨n, hn, htold⟩ := says_groupNode ht
        (says_buildArrayAt hls has (fun l hl ↦ hts ▸ List.mem_append_left _ hl) hand)
        (says_buildArrayAt hls hos (fun l hl ↦ hts ▸ List.mem_append_right _ hl) hor)
      rw [hn] at hnode
      cases hnode
      cases h
      exact ⟨n, rfl, htold⟩
  · cases ht

end Builder

/-- The prefilter of a tree of operations is read as a filter of the shape the server reads
right, it is true of exactly the documents the tree is true of, and in its tags all
punctuation is escaped unless an operation asks for one of no values. -/
theorem parseConditions_faithful {env : Env} {tagsSupported : Bool} {conditions : Json}
    {t : BoolTree Leaf} {s : Text} (henv : env.Lawful)
    (ht : operationTree conditions = some t)
    (hnames : ∀ l ∈ t.leaves, PlainName l.field.toList)
    (hfloats : ∀ l ∈ t.leaves, ∀ q ∈ l.criteria.floats, F64.IsValue q)
    (h : parseConditions env tagsSupported conditions = .ok s) :
    ∃ F, readFilter s = some F ∧ Shaped (FromOperations t.leaves) F ∧
      (∀ d : Document, d.NeverFree →
        F.eval (clauseHolds d) = t.eval (operationHolds env d)) ∧
      ((∀ l ∈ t.leaves, ¬asksForNone l) → readQuery s = some F) := by
  have hread : Readable env (∀ l ∈ t.leaves, ¬asksForNone l) t.leaves :=
    ⟨henv, hnames, hfloats, fun hs ↦ hs⟩
  obtain ⟨n, rfl, htold⟩ := exists_node hread ht h
  obtain ⟨F, hreads, hshaped, heval⟩ := exists_reading htold.wide
  refine ⟨F, hreads _ ⟨lenient, .inl rfl, rfl⟩, hshaped, fun d hd ↦ ?_, fun hs ↦ ?_⟩
  · rw [heval, htold.truth d hd]
    rfl
  · exact hreads _ ⟨_, .inr hs, rfl⟩

/-! ## Examples -/

section Examples

def plainEnv : Env :=
  ⟨noNumbers, Char.isAlphanum, fun _ ↦ "", id, fun c ↦ c.toString⟩

theorem lawful_plainEnv : plainEnv.Lawful where
  paren := by decide
  parseF64 s f h := by cases h

def digit (n : Fin 10) : Json :=
  .number (.posInt n (Nat.lt_trans n.isLt (Nat.le_of_ble_eq_true rfl)))

/-- A disjunction with a range of two bounds behind a single clause. -/
def nested : Json :=
  .object [("and", .array [leafEntry "c" "match" [("value", .string "a b")],
    .object [("or", .array [leafEntry "k" "match" [("any", .array [.string "x", .string "y"])],
      .object [("n", .object [("range", .object [("gt", digit 1), ("lte", digit 9)])])]])]])]

def nestedTree : BoolTree Leaf :=
  .all [.leaf ⟨"c", "match", .object [("value", .string "a b")]⟩,
    .any [.leaf ⟨"k", "match", .object [("any", .array [.string "x", .string "y"])]⟩,
      .leaf ⟨"n", "range", .object [("gt", digit 1), ("lte", digit 9)]⟩]]

def nestedText : Text :=
  ("(@k:\x7bx\x7d | @k:\x7by\x7d | (@n:[1.0000000000000002 +inf] @n:[-inf 9])) " ++
    "@c:\x7ba\\ b\x7d").toList

theorem parseConditions_faithful_nested :
    ∃ F, readFilter nestedText = some F ∧ Shaped (FromOperations nestedTree.leaves) F ∧
      (∀ d : Document, d.NeverFree →
        F.eval (clauseHolds d) = nestedTree.eval (operationHolds plainEnv d)) ∧
      ((∀ l ∈ nestedTree.leaves, ¬asksForNone l) → readQuery nestedText = some F) :=
  parseConditions_faithful lawful_plainEnv (by rfl : operationTree nested = some nestedTree)
    (by decide) (by decide)
    (toOption_eq_some.mp (by decide +kernel :
      (parseConditions plainEnv true nested).toOption = some nestedText))

/-- A field name that holds a clause and a bar. -/
def injected : Json :=
  .object [("and", .array [leafEntry "a:[0 1] | @b" "match" [("value", digit 1)]])]

/-- One of no values. -/
def oneOfNone : Json := .object [("and", .array [leafEntry "f" "match" [("any", .array [])]])]

/-- A document with the number zero in the field `a` and the word for an impossible value in
the field `f`. -/
def oddDocument : Document where
  hasTag field value := field = ['f'] && value = neverMatch
  number field := if field = ['a'] then some 0 else none
  hasTerm _ _ := false
  isValue {field} q h := by
    split_ifs at h
    cases h
    exact F64.isValue_zero

/-- The truth of a prefilter and of its tree at a document, and whether all tags of the
prefilter are escaped. -/
def verdicts (conditions : Json) (d : Document) : Option Bool × Option Bool × Option Bool :=
  let s := (parseConditions plainEnv true conditions).toOption
  ((s.bind readFilter).map (Formula.eval (clauseHolds d)),
    (operationTree conditions).map (BoolTree.eval (operationHolds plainEnv d)),
    s.map fun s ↦ (readQuery s).isSome)

/-- A field name can be read as several clauses; a document can have the word for an
impossible value, which stands in its tag with underscores that are not escaped. -/
theorem parseConditions_unfaithful :
    verdicts injected oddDocument = (some true, some false, some true) ∧
      verdicts oneOfNone oddDocument = (some true, some false, some false) := by
  decide +kernel

end Examples

end VectorDbBenchmark.Kividb
