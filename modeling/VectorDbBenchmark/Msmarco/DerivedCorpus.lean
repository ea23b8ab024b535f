import VectorDbBenchmark.Msmarco.SampleCorpus
import VectorDbBenchmark.Msmarco.StreamedCorpus

/-!
# The derived corpus

`DerivedCorpus` of `src/msmarco/derived.rs`: the derived fields of every passage and the keys of
the point lookups, grown payload by payload (`push_payload`) or in batches of lines that are
checked before any is added (`push_json_batch`).  A loop that runs in parallel reports the first
of its errors.
-/

namespace VectorDbBenchmark.Msmarco

open Kit

def pointLookupKeys : ℕ := 5

/-- `VARIANTS[0].threshold`. -/
def smallestThreshold : UInt32 := 886

/-- What comes from outside the repository. -/
structure DerivedEnv where
  hybrid : HybridEnv
  sample : SampleEnv

structure DerivedCorpus where
  rows : List DerivedFields
  lookupKeys : List UInt64
  length_lookupKeys : lookupKeys.length ≤ pointLookupKeys

namespace DerivedCorpus

def new : DerivedCorpus := ⟨[], [], Nat.zero_le _⟩

variable (env : DerivedEnv)

def isPointLookupSource (docid : String) : Bool := crc32Bucket env.sample docid < smallestThreshold

/-- The next row. -/
def pushChecked (c : DerivedCorpus) (docid : String) (d : DerivedFields) : DerivedCorpus :=
  if h : c.lookupKeys.length < pointLookupKeys ∧ isPointLookupSource env docid = true then
    { rows := c.rows ++ [d]
      lookupKeys := c.lookupKeys ++ [d.randKey]
      length_lookupKeys := List.length_append.trans_le h.1 }
  else { c with rows := c.rows ++ [d] }

/-- The result of the call, and the corpus after it. -/
def pushPayload (c : DerivedCorpus) (payload : Json) :
    Except String DerivedFields × DerivedCorpus :=
  match checkPayload env.hybrid payload with
  | .error e => (.error e, c)
  | .ok fields =>
    match (payload.get "docid").bind Json.asStr with
    | none => (.error "payload has no string 'docid'", c)
    | some docid => (.ok fields, c.pushChecked env docid fields)

/-- One line of a batch with its index. -/
def checkLine (line : Text × ℕ) : Except String (String × DerivedFields) := do
  let payload ← (fromStr env.hybrid line.1).mapError fun e ↦ s!"batch row {line.2 + 1}: {e}"
  let fields ← (checkPayload env.hybrid payload).mapError fun e ↦ s!"batch row {line.2 + 1}: {e}"
  match (payload.get "docid").bind Json.asStr with
  | none => .error "payload has no docid"
  | some docid => .ok (docid, fields)

def pushJsonBatch (c : DerivedCorpus) (lines : List Text) : Except String Unit × DerivedCorpus :=
  match lines.zipIdx.mapM (checkLine env) with
  | .error e => (.error e, c)
  | .ok checked => (.ok (), checked.foldl (fun c row ↦ c.pushChecked env row.1 row.2) c)

/-- A line that is parsed on its own. -/
def pushLine (c : DerivedCorpus) (line : Text) : Except String DerivedFields × DerivedCorpus :=
  match fromStr env.hybrid line with
  | .error e => (.error e, c)
  | .ok payload => c.pushPayload env payload

/-! ## One line -/

/-- What is added for a valid line. -/
def Checks (line : Text) (row : String × DerivedFields) : Prop :=
  ∃ payload, fromStr env.hybrid line = .ok payload ∧ checkPayload env.hybrid payload = .ok row.2 ∧
    (payload.get "docid").bind Json.asStr = some row.1

/-- A line that is accepted. -/
def Valid (line : Text) : Prop := ∃ row, Checks env line row

variable {env} {line : Text} {row : String × DerivedFields}

theorem checkLine_eq_ok {i : ℕ} : checkLine env (line, i) = .ok row ↔ Checks env line row := by
  simp only [checkLine, Checks, bind_eq_ok, mapError_eq_ok]
  refine exists_congr fun payload ↦ and_congr_right fun _ ↦ ?_
  constructor
  · rintro ⟨fields, hfields, h⟩
    cases hdocid : (payload.get "docid").bind Json.asStr with
    | none =>
        rw [hdocid] at h
        cases h
    | some docid =>
        rw [hdocid] at h
        cases h
        exact ⟨hfields, rfl⟩
  · rintro ⟨hfields, hdocid⟩
    refine ⟨row.2, hfields, ?_⟩
    rw [hdocid]

theorem Checks.pushLine (h : Checks env line row) (c : DerivedCorpus) :
    c.pushLine env line = (.ok row.2, c.pushChecked env row.1 row.2) := by
  obtain ⟨payload, hparse, hcheck, hdocid⟩ := h
  rw [DerivedCorpus.pushLine, hparse]
  dsimp only
  rw [pushPayload, hcheck]
  dsimp only
  rw [hdocid]

/-- A line is accepted in any state, or in none. -/
theorem pushLine_of_not_valid (h : ¬Valid env line) (c : DerivedCorpus) :
    ∃ e, c.pushLine env line = (.error e, c) := by
  rw [pushLine]
  cases hparse : fromStr env.hybrid line with
  | error e => exact ⟨e, rfl⟩
  | ok payload =>
      dsimp only
      rw [pushPayload]
      cases hcheck : checkPayload env.hybrid payload with
      | error e => exact ⟨e, rfl⟩
      | ok fields =>
          dsimp only
          cases hdocid : (payload.get "docid").bind Json.asStr with
          | none => exact ⟨_, rfl⟩
          | some docid => exact absurd ⟨(docid, fields), payload, hparse, hcheck, hdocid⟩ h

/-! ## Batches -/

variable (env) in
/-- Line by line. -/
def pushLines (c : DerivedCorpus) (lines : List Text) : DerivedCorpus :=
  lines.foldl (fun c line ↦ (c.pushLine env line).2) c

variable (env) in
/-- Batch by batch. -/
def pushBatches (c : DerivedCorpus) (batches : List (List Text)) : DerivedCorpus :=
  batches.foldl (fun c batch ↦ (c.pushJsonBatch env batch).2) c

variable {lines : List Text}

theorem mapM_checkLine_eq_ok {rows : List (String × DerivedFields)} {n : ℕ} :
    (lines.zipIdx n).mapM (checkLine env) = .ok rows ↔ List.Forall₂ (Checks env) lines rows := by
  rw [mapM_eq_ok]
  induction lines generalizing rows n with
  | nil => rw [List.zipIdx_nil, List.forall₂_nil_left_iff, List.forall₂_nil_left_iff]
  | cons line lines ih =>
      rw [List.zipIdx_cons, List.forall₂_cons_left_iff, List.forall₂_cons_left_iff]
      simp only [checkLine_eq_ok, ih]

theorem foldl_pushChecked {rows : List (String × DerivedFields)}
    (h : List.Forall₂ (Checks env) lines rows) (c : DerivedCorpus) :
    rows.foldl (fun c row ↦ c.pushChecked env row.1 row.2) c = pushLines env c lines := by
  rw [pushLines]
  induction h generalizing c with
  | nil => rfl
  | cons hline _ ih => rw [List.foldl_cons, List.foldl_cons, hline.pushLine, ih]

theorem pushJsonBatch_of_valid (h : ∀ line ∈ lines, Valid env line) (c : DerivedCorpus) :
    c.pushJsonBatch env lines = (.ok (), pushLines env c lines) := by
  obtain ⟨rows, hrows⟩ : ∃ rows, List.Forall₂ (Checks env) lines rows := by
    induction lines with
    | nil => exact ⟨[], .nil⟩
    | cons line lines ih =>
        rw [List.forall_mem_cons] at h
        obtain ⟨⟨row, hrow⟩, h⟩ := h
        obtain ⟨rows, hrows⟩ := ih h
        exact ⟨row :: rows, .cons hrow hrows⟩
  rw [pushJsonBatch, mapM_checkLine_eq_ok.mpr hrows]
  dsimp only
  rw [foldl_pushChecked hrows]

/-- One invalid line refuses its whole batch. -/
theorem pushJsonBatch_of_not_valid (hline : line ∈ lines) (h : ¬Valid env line)
    (c : DerivedCorpus) : ∃ e, c.pushJsonBatch env lines = (.error e, c) := by
  rw [pushJsonBatch]
  cases hcheck : lines.zipIdx.mapM (checkLine env) with
  | error e => exact ⟨e, rfl⟩
  | ok rows =>
      have hrows := mapM_checkLine_eq_ok.mp hcheck
      obtain ⟨i, hi, rfl⟩ := List.getElem_of_mem hline
      have hi' : i < rows.length := hrows.length_eq ▸ hi
      exact absurd ⟨_, (List.forall₂_iff_get.mp hrows).2 i hi hi'⟩ h

variable (env) in
/-- Whether a line is accepted, whatever the corpus. -/
def accepts (line : Text) : Bool := (new.pushLine env line).1.toOption.isSome

theorem accepted_iff_valid {c : DerivedCorpus} :
    (c.pushLine env line).1.toOption.isSome = true ↔ Valid env line := by
  by_cases h : Valid env line
  · obtain ⟨row, hrow⟩ := h
    rw [hrow.pushLine c]
    exact iff_of_true rfl ⟨row, hrow⟩
  · obtain ⟨e, he⟩ := pushLine_of_not_valid h c
    rw [he]
    exact iff_of_false Bool.false_ne_true h

theorem accepts_iff : accepts env line = true ↔ Valid env line := accepted_iff_valid

theorem all_accepts_iff : lines.all (accepts env) = true ↔ ∀ line ∈ lines, Valid env line := by
  rw [List.all_eq_true]
  exact forall₂_congr fun _ _ ↦ accepts_iff

theorem pushJsonBatch_of_not_all (h : lines.all (accepts env) = false) (c : DerivedCorpus) :
    ∃ e, c.pushJsonBatch env lines = (.error e, c) := by
  rw [List.all_eq_false] at h
  obtain ⟨line, hline, hrefused⟩ := h
  exact pushJsonBatch_of_not_valid hline (fun hvalid ↦ hrefused (accepts_iff.mpr hvalid)) c

/-- Only the batches that are accepted as a whole leave a trace. -/
theorem pushBatches_eq (c : DerivedCorpus) (batches : List (List Text)) :
    c.pushBatches env batches =
      c.pushLines env (batches.filter fun batch ↦ batch.all (accepts env)).flatten := by
  rw [pushBatches]
  induction batches generalizing c with
  | nil => rfl
  | cons batch batches ih =>
      rw [List.foldl_cons, ih, List.filter_cons]
      cases h : batch.all (accepts env) with
      | true =>
          rw [pushJsonBatch_of_valid (all_accepts_iff.mp h) c, if_pos rfl, List.flatten_cons,
            pushLines,
            pushLines, pushLines, List.foldl_append]
      | false =>
          obtain ⟨e, he⟩ := pushJsonBatch_of_not_all h c
          rw [he, if_neg Bool.false_ne_true]

/-- Batches of valid lines build the corpus that the lines build one by one.  A batch with an
invalid line, one that is refused on its own, is refused and changes nothing, so that of any
batches those without such lines are what is built from. -/
theorem pushBatches_spec (env : DerivedEnv) (c : DerivedCorpus) :
    (∀ line, accepts env line = (c.pushLine env line).1.toOption.isSome) ∧
    (∀ batches : List (List Text), (∀ line ∈ batches.flatten, accepts env line = true) →
      c.pushBatches env batches = c.pushLines env batches.flatten ∧
      ∀ batch ∈ batches, (c.pushJsonBatch env batch).1 = .ok ()) ∧
    (∀ batch : List Text, (∃ line ∈ batch, accepts env line = false) →
      ∃ e, c.pushJsonBatch env batch = (.error e, c)) ∧
    ∀ batches : List (List Text), c.pushBatches env batches =
      c.pushLines env (batches.filter fun batch ↦ batch.all (accepts env)).flatten := by
  refine ⟨fun line ↦ ?_, fun batches h ↦ ?_, fun batch h ↦ ?_, pushBatches_eq c⟩
  · rw [Bool.eq_iff_iff, accepts_iff, accepted_iff_valid]
  · have hall : ∀ batch ∈ batches, batch.all (accepts env) = true := by
      intro batch hbatch
      rw [List.all_eq_true]
      exact fun line hline ↦ h line (List.mem_flatten.mpr ⟨batch, hbatch, hline⟩)
    constructor
    · rw [pushBatches_eq, List.filter_eq_self.mpr hall]
    · intro batch hbatch
      rw [pushJsonBatch_of_valid (all_accepts_iff.mp (hall batch hbatch))]
  · obtain ⟨line, hline, hrefused⟩ := h
    exact pushJsonBatch_of_not_all (List.all_eq_false.mpr ⟨line, hline, by rw [hrefused]; decide⟩) c

/-- The payload of the docid `a` and the empty line. -/
def derivedEnvOfA : DerivedEnv where
  hybrid :=
    { envOfA ["x"] with
      parse := fun line ↦ if line = lineOfA.toList then .ok (payloadOfA ["x"])
        else .error "EOF while parsing a value at line 1 column 0" }
  sample := ⟨fun _ ↦ .error "", fun _ ↦ .error "", fun _ ↦ 3904355907, fun _ ↦ ""⟩

theorem pushBatches_lineOfA :
    new.pushBatches derivedEnvOfA [[lineOfA.toList], [lineOfA.toList, []]] =
      new.pushLines derivedEnvOfA [lineOfA.toList] ∧
    (new.pushLines derivedEnvOfA [lineOfA.toList]).rows = [(rowOfA "x").derived] ∧
    ∃ e, new.pushJsonBatch derivedEnvOfA [lineOfA.toList, []] = (.error e, new) := by
  have hline : accepts derivedEnvOfA lineOfA.toList = true := by decide
  have hempty : accepts derivedEnvOfA [] = false := by decide
  obtain ⟨-, -, hrefused, hall⟩ := pushBatches_spec derivedEnvOfA new
  refine ⟨?_, by decide +kernel, ?_⟩
  · rw [hall]
    simp only [List.filter_cons, List.filter_nil, List.all_cons, List.all_nil, hline, hempty]
    rfl
  · exact hrefused _ ⟨[], List.mem_cons_of_mem _ List.mem_cons_self, hempty⟩

end DerivedCorpus

end VectorDbBenchmark.Msmarco
