import VectorDbBenchmark.JsonEq
import VectorDbBenchmark.Msmarco.Predicate

/-!
# The check of an OpenSearch filter

`check_opensearch_filter` of `src/hybrid.rs`: the conditions and the filter are walked
together.  A group reads the clauses of one `bool` query, a leaf is compared with the one
query it is rendered as.
-/

namespace VectorDbBenchmark.Hybrid

open Kit Json Msmarco

-- What `{}` prints of a JSON value.
variable (display : Json → String)

/-- The query a leaf is expected to be. -/
def leafQuery (field : String) (body : Json) : Except String Json :=
  match body.asObject.bind List.head? with
  | none => .error "leaf has no operation"
  | some (op, crit) =>
    if op = "match" then
      match crit.get "text", crit.get "any", crit.get "value" with
      | some t, _, _ => .ok (.object [("match", .object [(field, t)])])
      | none, some any, _ => .ok (.object [("terms", .object [(field, any)])])
      | none, none, some v => .ok (.object [("match", .object [(field, v)])])
      | none, none, none => .error s!"{field}: unsupported match {display crit}"
    else if op = "range" then .ok (.object [("range", .object [(field, crit)])])
    else .error s!"{field}: unsupported operation {op}"

/-- The clause that holds a group's children. -/
def slot (key : String) : String := if key = "and" then "must" else "should"

/-- The clause that a group must not have. -/
def other (key : String) : String := if key = "and" then "should" else "must"

/-- The entries of the clause for a group's children. -/
def clauses (key : String) (f : Json) : Except String (List Json) :=
  match (f.get "bool").bind asObject with
  | none => .error s!"expected a bool query for `{key}`, got {display f}"
  | some b =>
    if (getEntry (other key) b).isSome then
      .error s!"`{key}` group rendered with a `{other key}` clause: {display f}"
    else if key = "or" ∧ ¬(getEntry "minimum_should_match" b).any (fun m ↦ m.eq one) then
      .error s!"`or` without minimum_should_match 1 matches all: {display f}"
    else
      match (getEntry (slot key) b).bind asArray with
      | none => .error s!"`{key}` group has no `{slot key}` array: {display f}"
      | some fk => .ok fk

mutual

def checkNode : Json → Json → Except String Unit
  | .object ((key, body) :: entries), f =>
    if key = "and" ∨ key = "or" then checkGroup key body f
    else do
      let expected ← leafQuery display key body
      if f.eq expected then .ok ()
      else .error (s!"leaf {display (.object ((key, body) :: entries))} rendered as " ++
        s!"{display f}, expected {display expected} — the filter does not express the predicate")
  | .object [], _ => .error "empty condition"
  | _, _ => .error "condition is not an object"

/-- A group with these children. -/
def checkGroup (key : String) : Json → Json → Except String Unit
  | .array kids, f => do
    let fk ← clauses display key f
    if fk.length ≠ kids.length then
      .error (s!"`{key}` group has {kids.length} entries but the filter has {fk.length} — a " ++
        s!"leaf was dropped: {display f}")
    else checkEach kids fk
  | _, _ => .error "group is not an array"

/-- Children and entries, pair by pair. -/
def checkEach : List Json → List Json → Except String Unit
  | c :: cs, f :: fs => do
    checkNode c f
    checkEach cs fs
  | _, _ => .ok ()

end

/-- Whether a filter has the structure of the conditions. -/
def checkOpensearchFilter (conditions filter : Json) : Except String Unit :=
  checkNode display conditions filter

/-! ## The canonical rendering -/

/-- The query of a leaf. -/
def singleQuery (field : String) : Json → Json
  | .object [(op, criteria)] =>
    if op = "range" then .object [("range", .object [(field, criteria)])]
    else match criteria with
      | .object [(kind, v)] =>
        .object [(if kind = "any" then "terms" else "match", .object [(field, v)])]
      | _ => .null
  | _ => .null

/-- The clauses of a group: all of its children, or at least one. -/
def boolClauses (key : String) (children : List Json) : List (String × Json) :=
  if key = "and" then [("must", .array children)]
  else [("should", .array children), ("minimum_should_match", one)]

def groupQuery (key : String) (children : List Json) : Json :=
  .object [("bool", .object (boolClauses key children))]

mutual

def canonical : Json → Json
  | .object ((key, body) :: _) =>
    if key = "and" ∨ key = "or" then groupQuery key (canonicalIn body) else singleQuery key body
  | _ => .null

def canonicalIn : Json → List Json
  | .array kids => canonicalEach kids
  | _ => []

def canonicalEach : List Json → List Json
  | [] => []
  | c :: cs => canonical c :: canonicalEach cs

end

/-! ## What the check does not look at -/

/-- The clauses of a `bool` query that a group looks at. -/
def examined (key : String) : List String :=
  if key = "and" then ["must", "should"] else ["should", "minimum_should_match", "must"]

/-- A `bool` query, and the entries of the clause for the children of a group. -/
def groupClauses (key : String) (f : Json) : List (String × Json) × List Json :=
  let b := ((f.get "bool").bind asObject).getD []
  (b, ((getEntry (slot key) b).bind asArray).getD [])

mutual

/-- A filter without the members that the check does not look at. -/
def pruned : Json → Json → Json
  | .object ((key, body) :: _), f =>
    if key = "and" ∨ key = "or" then prunedGroup key body f else f
  | _, f => f

def prunedGroup (key : String) : Json → Json → Json
  | .array kids, f =>
    match (f.get "bool").bind asObject with
    | none => f
    | some b =>
      .object [("bool", .object ((examined key).filterMap fun k ↦
        (if k = slot key then
          (getEntry k b).map fun v ↦
            match v with
            | .array fk => .array (prunedEach kids fk)
            | v => v
        else getEntry k b).map fun v ↦ (k, v)))]
  | _, f => f

def prunedEach : List Json → List Json → List Json
  | c :: cs, f :: fs => pruned c f :: prunedEach cs fs
  | _, fs => fs

end

/-- Whether the query of a group has members that the check does not look at: beside
`bool`, or clauses in it. -/
def paddedHere (key : String) (f : Json) : Bool :=
  (f.asObject.getD []).any (fun e ↦ e.1 ≠ "bool") ||
    (groupClauses key f).1.any fun e ↦ e.1 ∉ examined key

mutual

/-- Whether some group's query has members that the check does not look at. -/
def padded : Json → Json → Bool
  | .object ((key, body) :: _), f =>
    if key = "and" ∨ key = "or" then paddedHere key f || paddedIn key body f else false
  | _, _ => false

def paddedIn (key : String) : Json → Json → Bool
  | .array kids, f => paddedEach kids (groupClauses key f).2
  | _, _ => false

def paddedEach : List Json → List Json → Bool
  | c :: cs, f :: fs => padded c f || paddedEach cs fs
  | _, _ => false

end

/-! ## A group -/

/-- What a group reads off a filter: a `bool` query with an array for its children, without
the clause it must not have, and for alternatives with a minimum of one. -/
def Reads (key : String) (f : Json) (fk : List Json) : Prop :=
  ∃ b, (f.get "bool").bind asObject = some b ∧ getEntry (other key) b = none ∧
    (key = "or" → ∃ m, getEntry "minimum_should_match" b = some m ∧ m.eq one = true) ∧
    getEntry (slot key) b = some (.array fk)

variable {display : Json → String} {key : String} {f : Json}

theorem eq_array_of_asArray {v : Json} {vs : List Json} (h : v.asArray = some vs) :
    v = .array vs := by
  cases v with
  | array ws => exact congrArg Json.array (Option.some.inj h)
  | _ => cases h

theorem clauses_eq_ok {fk : List Json} : clauses display key f = .ok fk ↔ Reads key f fk := by
  rw [clauses, Reads]
  cases (f.get "bool").bind asObject with
  | none => exact iff_of_false (by rintro ⟨⟩) (by rintro ⟨_, ⟨⟩, _⟩)
  | some b =>
      dsimp only
      split_ifs with hother hmin
      · refine iff_of_false (by rintro ⟨⟩) ?_
        rintro ⟨_, ⟨⟩, hnone, -⟩
        rw [hnone] at hother
        cases hother
      · refine iff_of_false (by rintro ⟨⟩) ?_
        rintro ⟨_, ⟨⟩, -, hone, -⟩
        obtain ⟨m, hm, heq⟩ := hone hmin.1
        exact hmin.2 (by rw [hm]; exact heq)
      · have hnone : getEntry (other key) b = none := Option.not_isSome_iff_eq_none.mp hother
        have hone : key = "or" →
            ∃ m, getEntry "minimum_should_match" b = some m ∧ m.eq one = true := by
          intro hor
          have hany := not_not.mp fun h ↦ hmin ⟨hor, h⟩
          cases hm : getEntry "minimum_should_match" b with
          | none =>
              rw [hm] at hany
              cases hany
          | some m =>
              rw [hm] at hany
              exact ⟨m, rfl, hany⟩
        cases hslot : (getEntry (slot key) b).bind asArray with
        | none =>
            refine iff_of_false (by rintro ⟨⟩) ?_
            rintro ⟨_, ⟨⟩, -, -, h⟩
            rw [h] at hslot
            cases hslot
        | some vs =>
            obtain ⟨v, hv, harray⟩ := Option.bind_eq_some_iff.mp hslot
            constructor
            · rintro ⟨⟩
              exact ⟨b, rfl, hnone, hone, hv.trans (congrArg some (eq_array_of_asArray harray))⟩
            · rintro ⟨_, ⟨⟩, -, -, h⟩
              rw [h] at hslot
              exact congrArg Except.ok (Option.some.inj hslot).symm

/-- Names among some and one more, which is not among them. -/
theorem forall_mem_append_iff (xs : List String) {names : List String} {o : String}
    (ho : o ∉ names) :
    (∀ k ∈ xs, k ∈ names) ↔ (∀ k ∈ xs, k ∈ names ++ [o]) ∧ o ∉ xs := by
  constructor
  · exact fun h ↦ ⟨fun k hk ↦ List.mem_append_left _ (h k hk), fun hmem ↦ ho (h o hmem)⟩
  · rintro ⟨h, hmem⟩ k hk
    rcases List.mem_append.mp (h k hk) with hk' | hk'
    · exact hk'
    · rw [List.mem_singleton.mp hk'] at hk
      exact absurd hk hmem

/-- The `bool` queries that equal a group's. -/
theorem eq_boolClauses_iff {es : List (String × Json)} {ks : List Json}
    (hes : (es.map Prod.fst).Nodup) (hkey : key = "and" ∨ key = "or") :
    (object es).eq (object (boolClauses key ks)) = true ↔
      (∀ k ∈ es.map Prod.fst, k ∈ examined key) ∧ getEntry (other key) es = none ∧
        (key = "or" → ∃ m, getEntry "minimum_should_match" es = some m ∧ m.eq one = true) ∧
        ∃ vs, getEntry (slot key) es = some (.array vs) ∧
          List.Forall₂ (fun v w ↦ v.eq w = true) vs ks := by
  have harray : ∀ k : String, (∃ v, getEntry k es = some v ∧ v.eq (.array ks) = true) ↔
      ∃ vs, getEntry k es = some (.array vs) ∧ List.Forall₂ (fun v w ↦ v.eq w = true) vs ks := by
    intro k
    simp only [eq_array_iff]
    constructor
    · rintro ⟨_, hv, vs, rfl, hvs⟩
      exact ⟨vs, hv, hvs⟩
    · rintro ⟨vs, hv, hvs⟩
      exact ⟨_, hv, vs, rfl, hvs⟩
  have hnodup : ((boolClauses key ks).map Prod.fst).Nodup := by
    rcases hkey with rfl | rfl
    · exact List.nodup_singleton _
    · exact (by decide : ["should", "minimum_should_match"].Nodup)
  rw [object_eq_iff hes hnodup]
  rcases hkey with rfl | rfl
  · have hkeys := forall_mem_append_iff (es.map Prod.fst)
      (by decide : "should" ∉ ["must"])
    have hor : "and" = "or" → ∃ m, getEntry "minimum_should_match" es = some m ∧ m.eq one = true :=
      fun h ↦ absurd h (by decide)
    show (∀ k ∈ es.map Prod.fst, k ∈ ["must"]) ∧ (∀ e ∈ [("must", array ks)], _) ↔
      (∀ k ∈ es.map Prod.fst, k ∈ ["must"] ++ ["should"]) ∧ getEntry "should" es = none ∧ _ ∧ _
    rw [hkeys, List.forall_mem_singleton, harray, ← getEntry_eq_none_iff]
    tauto
  · have hkeys := forall_mem_append_iff (es.map Prod.fst)
      (by decide : "must" ∉ ["should", "minimum_should_match"])
    show (∀ k ∈ es.map Prod.fst, k ∈ ["should", "minimum_should_match"]) ∧
        (∀ e ∈ [("should", array ks), ("minimum_should_match", one)], _) ↔
      (∀ k ∈ es.map Prod.fst, k ∈ ["should", "minimum_should_match"] ++ ["must"]) ∧
        getEntry "must" es = none ∧ _ ∧ _
    rw [hkeys, List.forall_mem_cons, List.forall_mem_singleton, harray, ← getEntry_eq_none_iff]
    tauto

theorem nodup_examined (key : String) : (examined key).Nodup := by
  rw [examined]
  split_ifs <;> decide

theorem prunedGroup_eq_iff {kids ks : List Json} (hkey : key = "and" ∨ key = "or") :
    (prunedGroup key (.array kids) f).eq (groupQuery key ks) = true ↔
      ∃ fk, Reads key f fk ∧
        List.Forall₂ (fun v w ↦ v.eq w = true) (prunedEach kids fk) ks := by
  rw [prunedGroup]
  cases hb : (f.get "bool").bind asObject with
  | none =>
      refine iff_of_false ?_ ?_
      · intro h
        obtain ⟨u, rfl, hu⟩ := eq_singleton_iff.mp h
        obtain ⟨_, rfl, -⟩ := eq_object_iff.mp hu
        cases hb
      · rintro ⟨fk, ⟨b, hb', -⟩, -⟩
        rw [hb] at hb'
        cases hb'
  | some b =>
      dsimp only
      rw [groupQuery, singleton_eq_singleton, eq_boolClauses_iff (nodup_keys_filterMap
        (nodup_examined key) _) hkey]
      simp only [getEntry_filterMap]
      have hother : other key ∈ examined key ∧ other key ≠ slot key := by
        rcases hkey with rfl | rfl <;> decide
      have hslot : slot key ∈ examined key := by
        rcases hkey with rfl | rfl <;> decide
      have hmin : key = "or" → "minimum_should_match" ∈ examined key ∧
          "minimum_should_match" ≠ slot key := by
        rintro rfl
        decide
      rw [if_pos hother.1, if_neg hother.2, if_pos hslot, if_pos trivial]
      constructor
      · rintro ⟨-, hnone, hone, vs, hvs, hall⟩
        obtain ⟨v, hv, hpruned⟩ := Option.map_eq_some_iff.mp hvs
        obtain ⟨fk, rfl, rfl⟩ : ∃ fk, v = .array fk ∧ prunedEach kids fk = vs := by
          cases v with
          | array fk => exact ⟨fk, rfl, Json.array.inj hpruned⟩
          | _ => cases hpruned
        refine ⟨fk, ⟨b, hb, hnone, fun hor ↦ ?_, hv⟩, hall⟩
        obtain ⟨m, hm, heq⟩ := hone hor
        rw [if_pos (hmin hor).1, if_neg (hmin hor).2] at hm
        exact ⟨m, hm, heq⟩
      · rintro ⟨fk, ⟨b', hb', hnone, hone, hv⟩, hall⟩
        cases hb.symm.trans hb'
        refine ⟨?_, hnone, fun hor ↦ ?_, prunedEach kids fk, ?_, hall⟩
        · intro k hk
          obtain ⟨v, hget⟩ := mem_keys_iff.mp hk
          rw [getEntry_filterMap] at hget
          by_contra hnot
          rw [if_neg hnot] at hget
          cases hget
        · rw [if_pos (hmin hor).1, if_neg (hmin hor).2]
          exact hone hor
        · rw [hv]
          rfl

theorem exists_of_get_bool {b : List (String × Json)}
    (h : (f.get "bool").bind asObject = some b) :
    ∃ es, f = .object es ∧ getEntry "bool" es = some (.object b) := by
  obtain ⟨v, hv, hb⟩ := Option.bind_eq_some_iff.mp h
  obtain rfl : v = .object b := by
    cases v with
    | object fs => exact congrArg Json.object (Option.some.inj hb)
    | _ => cases hb
  cases f with
  | object es => exact ⟨es, rfl, hv⟩
  | _ => cases hv

theorem paddedHere_eq_false {es b : List (String × Json)}
    (hb : getEntry "bool" es = some (.object b)) :
    paddedHere key (.object es) = false ↔
      (∀ k ∈ es.map Prod.fst, k = "bool") ∧ ∀ k ∈ b.map Prod.fst, k ∈ examined key := by
  have hclauses : (groupClauses key (.object es)).1 = b := by
    rw [groupClauses, Json.get, hb]
    rfl
  rw [paddedHere, hclauses, Bool.or_eq_false_iff, List.any_eq_false, List.any_eq_false]
  simp [asObject]

theorem eq_groupQuery_iff {ks : List Json} (hkey : key = "and" ∨ key = "or")
    (hf : f.keysDistinct = true) :
    f.eq (groupQuery key ks) = true ↔ paddedHere key f = false ∧
      ∃ fk, Reads key f fk ∧ List.Forall₂ (fun v w ↦ v.eq w = true) fk ks := by
  rw [groupQuery, eq_singleton_iff]
  constructor
  · rintro ⟨u, rfl, hu⟩
    obtain ⟨b, rfl, -⟩ := eq_object_iff.mp hu
    have hb : (b.map Prod.fst).Nodup := nodup_of_keysDistinct (keysDistinct_of_singleton hf)
    obtain ⟨hkeys, hnone, hone, vs, hvs, hall⟩ := (eq_boolClauses_iff hb hkey).mp hu
    have hget : getEntry "bool" [("bool", object b)] = some (object b) := if_pos rfl
    refine ⟨(paddedHere_eq_false hget).mpr ⟨fun k hk ↦ ?_, hkeys⟩, vs,
      ⟨b, rfl, hnone, hone, hvs⟩, hall⟩
    exact List.mem_singleton.mp hk
  · rintro ⟨htight, fk, ⟨b, hb, hnone, hone, hv⟩, hall⟩
    obtain ⟨es, rfl, hbool⟩ := exists_of_get_bool hb
    obtain ⟨hes, hkeys⟩ := (paddedHere_eq_false hbool).mp htight
    have hsingle : es = [("bool", .object b)] := by
      have hperm : (es.map Prod.fst).Perm ["bool"] := by
        refine (List.perm_ext_iff_of_nodup (nodup_of_keysDistinct hf)
          (List.nodup_singleton _)).mpr fun k ↦ ⟨fun hk ↦ ?_, fun hk ↦ ?_⟩
        · exact List.mem_singleton.mpr (hes k hk)
        · rw [List.mem_singleton.mp hk]
          exact mem_keys_iff.mpr ⟨_, hbool⟩
      obtain ⟨⟨k, v⟩, rfl⟩ := List.length_eq_one_iff.mp (by simpa using hperm.length_eq)
      obtain ⟨rfl, rfl⟩ := getEntry_singleton.mp hbool
      rfl
    subst hsingle
    have hnodup : (b.map Prod.fst).Nodup := nodup_of_keysDistinct (keysDistinct_of_singleton hf)
    exact ⟨_, rfl, (eq_boolClauses_iff hnodup hkey).mpr ⟨hkeys, hnone, hone, fk, hv, hall⟩⟩

/-! ## The walk -/

/-- The children that a group reads have distinct keys, too. -/
theorem keysDistinct_of_reads {fk : List Json} (h : Reads key f fk)
    (hf : f.keysDistinct = true) : ∀ v ∈ fk, v.keysDistinct = true := by
  obtain ⟨b, hb, -, -, hv⟩ := h
  obtain ⟨es, rfl, hbool⟩ := exists_of_get_bool hb
  have hinner := keysDistinct_of_mem_object hf _ (mem_of_getEntry hbool)
  exact keysDistinct_of_mem_array (keysDistinct_of_mem_object hinner _ (mem_of_getEntry hv))

theorem groupClauses_of_reads {fk : List Json} (h : Reads key f fk) :
    (groupClauses key f).2 = fk := by
  obtain ⟨b, hb, -, -, hv⟩ := h
  rw [groupClauses, hb, Option.getD_some, hv]
  rfl

variable {debug : String → String}

/-- The query of a compiled leaf is the one it is expected to be. -/
theorem leafQuery_of_leaf {field : String} {body : Json} {op : LeafOp}
    (h : leaf display debug field body = .ok op) :
    leafQuery display field body = .ok (singleQuery field body) := by
  unfold leaf at h
  split at h
  · next name criteria =>
      split_ifs at h with hmatch hrange
      · subst hmatch
        unfold matchLeaf at h
        split at h
        · next kind v =>
            have hmatch : "match" ≠ "range" := by decide
            split_ifs at h with htext hvalue hany
            · subst htext
              rfl
            · subst hvalue
              rfl
            · subst hany
              rfl
        · cases h
      · subst hrange
        rfl
  · cases h

mutual

theorem checkNode_eq_ok {c : Json} {p : Predicate} (hc : node display debug c = .ok p) (f : Json) :
    checkNode display c f = .ok () ↔ (pruned c f).eq (canonical c) = true := by
  unfold node at hc
  split at hc
  · next key body =>
      rw [checkNode, pruned, canonical]
      split_ifs at hc with hkey hand
      · obtain ⟨ps, hps, -⟩ := bind_eq_ok.mp hc
        simp only [if_pos hkey]
        exact checkGroup_eq_ok hkey hps f
      · obtain ⟨ps, hps, -⟩ := bind_eq_ok.mp hc
        simp only [if_pos hkey]
        exact checkGroup_eq_ok hkey hps f
      · obtain ⟨op, hop, -⟩ := map_eq_ok.mp hc
        simp only [if_neg hkey]
        rw [leafQuery_of_leaf hop, ok_bind]
        split_ifs with heq
        · exact iff_of_true rfl heq
        · exact iff_of_false (by rintro ⟨⟩) heq
  · cases hc
  · cases hc

theorem checkGroup_eq_ok {key : String} {body : Json} {ps : List Predicate}
    (hkey : key = "and" ∨ key = "or") (hps : children display debug key body = .ok ps) (f : Json) :
    checkGroup display key body f = .ok () ↔
      (prunedGroup key body f).eq (groupQuery key (canonicalIn body)) = true := by
  unfold children at hps
  split at hps
  · next e es =>
      rw [checkGroup, canonicalIn, prunedGroup_eq_iff hkey, bind_eq_ok]
      refine exists_congr fun fk ↦ and_congr clauses_eq_ok ?_
      rw [← checkEach_eq_ok hps fk]
      split_ifs with hlen
      · exact iff_of_false (by rintro ⟨⟩) fun h ↦ hlen h.1
      · exact ⟨fun h ↦ ⟨not_not.mp hlen, h⟩, fun h ↦ h.2⟩
  · cases hps

theorem checkEach_eq_ok {cs : List Json} {ps : List Predicate}
    (hcs : nodes display debug cs = .ok ps) (fs : List Json) :
    (fs.length = cs.length ∧ checkEach display cs fs = .ok ()) ↔
      List.Forall₂ (fun v w ↦ v.eq w = true) (prunedEach cs fs) (canonicalEach cs) := by
  match cs with
  | [] =>
      cases fs with
      | nil => exact iff_of_true ⟨rfl, rfl⟩ .nil
      | cons f fs => exact iff_of_false (by rintro ⟨⟨⟩, -⟩) (by rintro ⟨⟩)
  | c :: cs =>
      rw [nodes] at hcs
      obtain ⟨p, hp, hcs⟩ := bind_eq_ok.mp hcs
      obtain ⟨ps', hps, -⟩ := bind_eq_ok.mp hcs
      cases fs with
      | nil => exact iff_of_false (by rintro ⟨⟨⟩, -⟩) (by rintro ⟨⟩)
      | cons f fs =>
          rw [checkEach, prunedEach, canonicalEach, List.forall₂_cons, ← checkNode_eq_ok hp f,
            ← checkEach_eq_ok hps fs, List.length_cons, List.length_cons, Nat.add_right_cancel_iff]
          constructor
          · rintro ⟨hlen, h⟩
            obtain ⟨⟨⟩, hnode, hrest⟩ := bind_eq_ok.mp h
            exact ⟨hnode, hlen, hrest⟩
          · rintro ⟨hnode, hlen, hrest⟩
            rw [hnode]
            exact ⟨hlen, hrest⟩

end

mutual

/-- A filter is the canonical rendering when it is that without the members the check does
not look at, and has no such members. -/
theorem eq_canonical_iff {c : Json} {p : Predicate} (hc : node display debug c = .ok p) {f : Json}
    (hf : f.keysDistinct = true) : f.eq (canonical c) = true ↔
      padded c f = false ∧ (pruned c f).eq (canonical c) = true := by
  unfold node at hc
  split at hc
  · next key body =>
      rw [padded, pruned, canonical]
      split_ifs at hc with hkey hand
      · obtain ⟨ps, hps, -⟩ := bind_eq_ok.mp hc
        simp only [if_pos hkey]
        exact eq_group_iff hkey hps hf
      · obtain ⟨ps, hps, -⟩ := bind_eq_ok.mp hc
        simp only [if_pos hkey]
        exact eq_group_iff hkey hps hf
      · simp only [if_neg hkey, true_and]
  · cases hc
  · cases hc

theorem eq_group_iff {key : String} {body : Json} {ps : List Predicate}
    (hkey : key = "and" ∨ key = "or") (hps : children display debug key body = .ok ps) {f : Json}
    (hf : f.keysDistinct = true) : f.eq (groupQuery key (canonicalIn body)) = true ↔
      (paddedHere key f || paddedIn key body f) = false ∧
        (prunedGroup key body f).eq (groupQuery key (canonicalIn body)) = true := by
  unfold children at hps
  split at hps
  · next e es =>
      rw [canonicalIn, prunedGroup_eq_iff hkey, eq_groupQuery_iff hkey hf, paddedIn,
        Bool.or_eq_false_iff, and_assoc]
      refine and_congr_right fun _ ↦ ?_
      constructor
      · rintro ⟨fk, hreads, hall⟩
        obtain ⟨hpadded, hpruned⟩ :=
          (forall₂_canonical_iff hps (keysDistinct_of_reads hreads hf)).mp hall
        rw [groupClauses_of_reads hreads]
        exact ⟨hpadded, fk, hreads, hpruned⟩
      · rintro ⟨hpadded, fk, hreads, hpruned⟩
        rw [groupClauses_of_reads hreads] at hpadded
        exact ⟨fk, hreads, (forall₂_canonical_iff hps (keysDistinct_of_reads hreads hf)).mpr
          ⟨hpadded, hpruned⟩⟩
  · cases hps

theorem forall₂_canonical_iff {cs : List Json} {ps : List Predicate}
    (hcs : nodes display debug cs = .ok ps) {fs : List Json}
    (hfs : ∀ f ∈ fs, f.keysDistinct = true) :
    List.Forall₂ (fun v w ↦ v.eq w = true) fs (canonicalEach cs) ↔
      paddedEach cs fs = false ∧
        List.Forall₂ (fun v w ↦ v.eq w = true) (prunedEach cs fs) (canonicalEach cs) := by
  match cs with
  | [] => exact ⟨fun h ↦ ⟨rfl, h⟩, fun h ↦ h.2⟩
  | c :: cs =>
      rw [nodes] at hcs
      obtain ⟨p, hp, hcs⟩ := bind_eq_ok.mp hcs
      obtain ⟨ps', hps, -⟩ := bind_eq_ok.mp hcs
      cases fs with
      | nil => exact iff_of_false (by rintro ⟨⟩) (by rintro ⟨-, ⟨⟩⟩)
      | cons f fs =>
          obtain ⟨hf, hfs'⟩ := List.forall_mem_cons.mp hfs
          rw [canonicalEach, prunedEach, paddedEach, List.forall₂_cons, List.forall₂_cons,
            eq_canonical_iff hp hf, forall₂_canonical_iff hps hfs', Bool.or_eq_false_iff]
          tauto

end

/-- The accepted filters are the canonical renderings, save for those that become canonical
only without members that the check does not look at. -/
theorem checkOpensearchFilter_exact_iff {conditions filter : Json} {p : Predicate}
    (hcompile : compile display debug conditions = .ok p) (hfilter : filter.keysDistinct = true) :
    (checkOpensearchFilter display conditions filter = .ok () ↔
        filter.eq (canonical conditions) = true) ↔
      ¬(padded conditions filter = true ∧
        (pruned conditions filter).eq (canonical conditions) = true) := by
  have hnode : node display debug conditions = .ok p := by
    unfold compile at hcompile
    split at hcompile
    · split_ifs at hcompile
      exact hcompile
    · cases hcompile
  rw [checkOpensearchFilter, checkNode_eq_ok hnode, eq_canonical_iff hnode hfilter]
  cases padded conditions filter <;> simp

/-- One keyword. -/
def oneKeyword : Json :=
  .object [("and", .array [.object [("category", .object [("match", .object
    [("value", .string "a")])])]])]

def oneKeywordFilter (clauses : List (String × Json)) : Json :=
  .object [("bool", .object
    (("must", .array [.object [("match", .object [("category", .string "a")])]]) :: clauses))]

theorem checkOpensearchFilter_exact_iff_oneKeyword :
    (checkOpensearchFilter (fun _ ↦ "") oneKeyword (oneKeywordFilter []) = .ok () ↔
        (oneKeywordFilter []).eq (canonical oneKeyword) = true) ↔
      ¬(padded oneKeyword (oneKeywordFilter []) = true ∧
        (pruned oneKeyword (oneKeywordFilter [])).eq (canonical oneKeyword) = true) :=
  checkOpensearchFilter_exact_iff
    (show compile (fun _ ↦ "") id oneKeyword =
      .ok (.all [.leaf ⟨"category", .match [.keyword "a"]⟩]) from rfl) rfl

/-- A clause that excludes every document is not looked at. -/
theorem checkOpensearchFilter_accepts_must_not :
    (∃ p, compile (fun _ ↦ "") id oneKeyword = .ok p) ∧
      checkOpensearchFilter (fun _ ↦ "") oneKeyword
        (oneKeywordFilter [("must_not", .array [.object [("match_all", .object [])]])]) = .ok () ∧
      (oneKeywordFilter [("must_not", .array [.object [("match_all", .object [])]])]).eq
        (canonical oneKeyword) = false :=
  ⟨⟨_, rfl⟩, rfl, rfl⟩

end VectorDbBenchmark.Hybrid
