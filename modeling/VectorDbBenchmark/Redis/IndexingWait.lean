import VectorDbBenchmark.F64Text
import VectorDbBenchmark.Kit.Fallible
import VectorDbBenchmark.Kit.Outage
import VectorDbBenchmark.Kit.Utf8

/-!
# Waiting for an index

The wait after an upload until the server has indexed the documents (`indexing_wait.rs`, and the
loops of the engines that poll `FT.INFO`).  Instants and durations are nanoseconds.  A poll is what
the server answers and the time at which it does; between polls anything may pass.  How floats and
values print is a parameter, and so is `str::parse::<f64>`.
-/

namespace VectorDbBenchmark.IndexingWait

open Kit

/-! ## Budgets -/

inductive WaitPhase where
  | uploadTail
  | fullBuild

def WaitPhase.docsPerExtraSecond : WaitPhase → ℕ
  | .uploadTail => 10000
  | .fullBuild => 1000

def parseOverride : Option Text → Except String (Option ℕ)
  | none => .ok none
  | some raw =>
    match (parseU64 (trim raw)).filter (0 < ·) with
    | some secs => .ok (some secs)
    | none =>
      .error (s!"INDEXING_WAIT_SECS={(String.ofList raw).quote} is not a whole number of seconds " ++
        "greater than zero; set e.g. INDEXING_WAIT_SECS=36000, or unset it for the computed " ++
        "budget (floor + 1 s per 10,000 docs after an upload)")

/-- Whole seconds. -/
def budget (phase : WaitPhase) (floorSecs expected : ℕ) (overrideSecs : Option ℕ) : ℕ :=
  (overrideSecs.filter (0 < ·)).getD (floorSecs + expected / phase.docsPerExtraSecond)

def nanos (secs : ℕ) : ℕ := secs * 10 ^ 9

def reconnectWindow : ℕ := nanos 120

/-! ## Replies -/

/-- A value in a reply; one without a text is nested. -/
inductive InfoValue where
  | bulkString (b : Bytes)
  | simpleString (s : String)
  | int (n : Int64)
  | double (f : F64)
  | boolean (b : Bool)
  | nested

inductive InfoReply where
  | array (vs : List InfoValue)
  | map (es : List (InfoValue × InfoValue))
  | other

def valueText : InfoValue → Option Text
  | .bulkString b => some (fromUtf8Lossy b)
  | .simpleString s => some s.toList
  | .int n => some (intText n.toInt)
  | .double f => some f.display
  | .boolean b => some (if b then "1" else "0").toList
  | .nested => none

/-- `chunks(2)`, without a last one alone. -/
def chunks : List InfoValue → List (InfoValue × InfoValue)
  | k :: v :: vs => (k, v) :: chunks vs
  | _ => []

/-- A field of the reply. -/
abbrev Field := Text × InfoValue

/-- How values are shown. -/
structure Printing where
  /-- A duration in seconds, without digits after the point. -/
  seconds : ℕ → String
  /-- A percentage, with two digits after the point. -/
  percent : F64 → String
  value : InfoValue → String
  reply : InfoReply → String

structure FtInfoProgress where
  numDocs : Option ℕ := none
  indexing : Bool := false
  percentIndexed : Option F64 := none
  state : Option Text := none
  fields : List Text := []

structure KividbProgress where
  numDocs : Option ℕ := none
  hnswLiveCount : Option ℕ := none
  compactionInProgress : Bool := false

/-- `f as u64`. -/
def asU64 : F64 → ℕ
  | .fin q => min ⌊q⌋.toNat (2 ^ 64 - 1)
  | .posInf => 2 ^ 64 - 1
  | _ => 0

section Code

variable (parseF64 : Text → Option F64) (print : Printing)

def fieldText (f : Field) : Except String Text :=
  match valueText f.2 with
  | some t => .ok t
  | none => .error s!"FT.INFO {String.ofList f.1} is {print.value f.2}"

def parseCount (f : Field) : Except String ℕ := do
  let t ← fieldText print f
  let t := trim t
  match (parseU64 t).orElse fun _ ↦ ((parseF64 t).filter (F64.le (.fin 0))).map asU64 with
  | some n => .ok n
  | none => .error s!"FT.INFO {String.ofList f.1} is not a count: {(String.ofList t).quote}"

def parseFlag (f : Field) : Except String Bool := do
  let t ← fieldText print f
  let t := trim t
  if t = "0".toList ∨ t = "false".toList then .ok false
  else if t = "1".toList ∨ t = "true".toList then .ok true
  else
    match parseF64 t with
    | some x => .ok (!x.eq (.fin 0))
    | none => .error s!"FT.INFO {String.ofList f.1} is not a flag: {(String.ofList t).quote}"

def parsePercent (f : Field) : Except String F64 := do
  let t ← fieldText print f
  match parseF64 (trim t) with
  | some x => .ok x
  | none => .error s!"FT.INFO percent_indexed is not a number: {(String.ofList t).quote}"

def ftInfoPairs : InfoReply → Except String (List Field)
  | .array vs => .ok ((chunks vs).filterMap fun e ↦ (valueText e.1).map (·, e.2))
  | .map es => .ok (es.filterMap fun e ↦ (valueText e.1).map (·, e.2))
  | .other => .error s!"unexpected FT.INFO reply type: {print.reply .other}"

/-- The keys that say that documents are still being indexed. -/
def isIndexingKey (key : Text) : Bool :=
  key = "indexing".toList || key = "backfill_in_progress".toList

/-- What a field says, by its key. -/
def takeField (p : FtInfoProgress) (f : Field) : Except String FtInfoProgress :=
  if f.1 = "num_docs".toList then do
    let n ← parseCount parseF64 print f
    pure { p with numDocs := some n }
  else if isIndexingKey f.1 then do
    let b ← parseFlag parseF64 print f
    pure { p with indexing := p.indexing || b }
  else if f.1 = "percent_indexed".toList then do
    let x ← parsePercent parseF64 print f
    pure { p with percentIndexed := some x }
  else if f.1 = "state".toList then .ok { p with state := valueText f.2 }
  else .ok p

/-- One round of the loop over the fields. -/
def readField (p : FtInfoProgress) (f : Field) : Except String FtInfoProgress := do
  let p ← takeField parseF64 print p f
  pure { p with fields := p.fields ++ [f.1] }

def parseFtInfo (info : InfoReply) : Except String FtInfoProgress := do
  let fields ← ftInfoPairs print info
  fields.foldlM (readField parseF64 print) {}

def readKividbField (p : KividbProgress) (f : Field) : Except String KividbProgress :=
  if f.1 = "hnsw_live_count".toList then do
    let n ← parseCount parseF64 print f
    pure { p with hnswLiveCount := some n }
  else if f.1 = "num_docs".toList then do
    let n ← parseCount parseF64 print f
    pure { p with numDocs := some n }
  else if f.1 = "hnsw_compaction_in_progress".toList then do
    let b ← parseFlag parseF64 print f
    pure { p with compactionInProgress := p.compactionInProgress || b }
  else pure p

def parseKividbFtInfo (info : InfoReply) : Except String KividbProgress := do
  let fields ← ftInfoPairs print info
  fields.foldlM (readKividbField parseF64 print) {}

/-- What stands for a field that is not there. -/
def orAbsent (s : Option String) : String := s.getD "absent"

def FtInfoProgress.describe (p : FtInfoProgress) (expected : ℕ) : String :=
  s!"num_docs={orAbsent (p.numDocs.map toString)}/{expected}, indexing={p.indexing}, " ++
    s!"percent_indexed={orAbsent (p.percentIndexed.map print.percent)}, " ++
    s!"state={orAbsent (p.state.map String.ofList)}"

/-- No state, an empty one, or the one of an index that is built. -/
def stateOk (state : Option Text) : Bool := state.all fun s ↦ s.isEmpty || s = "ready".toList

def ftInfoReady (engine : String) (p : FtInfoProgress) (expected : ℕ) (useState : Bool) :
    Except String Bool :=
  match p.numDocs with
  | none =>
    .error (s!"{engine}: FT.INFO reports no num_docs, so the indexing wait cannot tell whether " ++
      s!"the index holds the {expected} uploaded documents (fields: " ++
      ",".intercalate (p.fields.map String.ofList) ++ ")")
  | some n =>
    .ok (decide (expected ≤ n) && !p.indexing &&
      F64.le (.fin 1) (p.percentIndexed.getD (.fin 1)) && (!useState || stateOk p.state))

def kividbReady (algorithm : String) (p : KividbProgress) (expected : ℕ) : Except String Bool :=
  if eqIgnoreAsciiCase algorithm "hnsw" then
    match p.hnswLiveCount.orElse fun _ ↦ p.numDocs with
    | some n => .ok (decide (expected ≤ n) && !p.compactionInProgress)
    | none => .ok false
  else if eqIgnoreAsciiCase algorithm "flat" then
    match p.numDocs.orElse fun _ ↦ p.hnswLiveCount with
    | some n => .ok (decide (expected ≤ n))
    | none => .ok true
  else
    .error (s!"kividb: no indexing-readiness rule for algorithm {algorithm.quote} " ++
      "(FLAT or HNSW)")

end Code

/-! ## What a reply says -/

section Replies

variable {parseF64 : Text → Option F64} {print : Printing} {f : Field} {fields : List Field}

/-- The field that counts where a key comes more than once. -/
def lastField (key : String) (fields : List Field) : Option Field :=
  (fields.filter (·.1 = key.toList)).getLast?

theorem lastField_concat (key : String) :
    lastField key (fields ++ [f]) = if f.1 = key.toList then some f else lastField key fields := by
  rw [lastField, List.filter_append]
  split_ifs with hkey
  · simp [hkey]
  · simp [hkey, lastField]

theorem bind_pure_eq_ok {α β : Type} {x : Except String α} {g : α → β} {b : β} :
    (do let a ← x; pure (g a)) = Except.ok b ↔ ∃ a, x = .ok a ∧ b = g a := by
  rw [bind_eq_ok]
  constructor
  · rintro ⟨a, ha, h⟩
    exact ⟨a, ha, (Except.ok.inj h).symm⟩
  · rintro ⟨a, ha, rfl⟩
    exact ⟨a, ha, rfl⟩

variable (parseF64 print) in
/-- The checked fields hold what they are read as. -/
structure Readable (f : Field) : Prop where
  count : f.1 = "num_docs".toList → ∃ n, parseCount parseF64 print f = .ok n
  flag : isIndexingKey f.1 → ∃ b, parseFlag parseF64 print f = .ok b
  percent : f.1 = "percent_indexed".toList → ∃ x, parsePercent parseF64 print f = .ok x

variable (parseF64 print) in
/-- The last count, percentage and state, and all flags together. -/
def progressOf (fields : List Field) : FtInfoProgress :=
  { numDocs := (lastField "num_docs" fields).bind fun f ↦ (parseCount parseF64 print f).toOption
    indexing := fields.any fun f ↦
      isIndexingKey f.1 && (parseFlag parseF64 print f).toOption.getD false
    percentIndexed :=
      (lastField "percent_indexed" fields).bind fun f ↦ (parsePercent parseF64 print f).toOption
    state := (lastField "state" fields).bind fun f ↦ valueText f.2
    fields := fields.map Prod.fst }

theorem progressOf_concat :
    progressOf parseF64 print (fields ++ [f]) =
      { numDocs :=
          if f.1 = "num_docs".toList then (parseCount parseF64 print f).toOption
          else (progressOf parseF64 print fields).numDocs
        indexing := (progressOf parseF64 print fields).indexing ||
          (isIndexingKey f.1 && (parseFlag parseF64 print f).toOption.getD false)
        percentIndexed :=
          if f.1 = "percent_indexed".toList then (parsePercent parseF64 print f).toOption
          else (progressOf parseF64 print fields).percentIndexed
        state :=
          if f.1 = "state".toList then valueText f.2
          else (progressOf parseF64 print fields).state
        fields := (progressOf parseF64 print fields).fields ++ [f.1] } := by
  rw [progressOf, lastField_concat, lastField_concat, lastField_concat, List.any_append,
    List.map_append]
  simp only [progressOf, List.any_cons, List.any_nil, Bool.or_false, List.map_cons, List.map_nil,
    FtInfoProgress.mk.injEq, true_and, and_true]
  refine ⟨?_, ?_, ?_⟩
  · split_ifs <;> rfl
  · split_ifs <;> rfl
  · split_ifs <;> rfl

/-- What a round reads, where it reads what its field should be. -/
theorem takeField_eq_ok {p p' : FtInfoProgress} :
    takeField parseF64 print p f = .ok p' ↔
      Readable parseF64 print f ∧ p' =
        { p with
          numDocs :=
            if f.1 = "num_docs".toList then (parseCount parseF64 print f).toOption else p.numDocs
          indexing := p.indexing ||
            (isIndexingKey f.1 && (parseFlag parseF64 print f).toOption.getD false)
          percentIndexed :=
            if f.1 = "percent_indexed".toList then (parsePercent parseF64 print f).toOption
            else p.percentIndexed
          state := if f.1 = "state".toList then valueText f.2 else p.state } := by
  rw [takeField]
  by_cases hcount : f.1 = "num_docs".toList
  · have hflag : isIndexingKey f.1 = false := by simp [hcount, isIndexingKey]
    have hpercent : f.1 ≠ "percent_indexed".toList := by simp [hcount]
    have hstate : f.1 ≠ "state".toList := by simp [hcount]
    rw [if_pos hcount, if_pos hcount, if_neg hpercent, if_neg hstate, hflag, Bool.false_and,
      Bool.or_false, bind_pure_eq_ok]
    constructor
    · rintro ⟨n, hn, rfl⟩
      refine ⟨⟨fun _ ↦ ⟨n, hn⟩, fun h ↦ ?_, fun h ↦ absurd h hpercent⟩, by rw [hn]; rfl⟩
      cases hflag.symm.trans h
    · rintro ⟨hreadable, rfl⟩
      obtain ⟨n, hn⟩ := hreadable.count hcount
      exact ⟨n, hn, by rw [hn]; rfl⟩
  rw [if_neg hcount, if_neg hcount]
  by_cases hflag : isIndexingKey f.1 = true
  · have hpercent : f.1 ≠ "percent_indexed".toList := by
      intro h
      simp [h, isIndexingKey] at hflag
    have hstate : f.1 ≠ "state".toList := by
      intro h
      simp [h, isIndexingKey] at hflag
    rw [if_pos hflag, if_neg hpercent, if_neg hstate, hflag, Bool.true_and, bind_pure_eq_ok]
    constructor
    · rintro ⟨b, hb, rfl⟩
      exact ⟨⟨fun h ↦ absurd h hcount, fun _ ↦ ⟨b, hb⟩, fun h ↦ absurd h hpercent⟩,
        by rw [hb]; rfl⟩
    · rintro ⟨hreadable, rfl⟩
      obtain ⟨b, hb⟩ := hreadable.flag hflag
      exact ⟨b, hb, by rw [hb]; rfl⟩
  have hidle : isIndexingKey f.1 = false := eq_false_of_ne_true hflag
  rw [if_neg hflag, hidle, Bool.false_and, Bool.or_false]
  by_cases hpercent : f.1 = "percent_indexed".toList
  · have hstate : f.1 ≠ "state".toList := by simp [hpercent]
    rw [if_pos hpercent, if_pos hpercent, if_neg hstate, bind_pure_eq_ok]
    constructor
    · rintro ⟨x, hx, rfl⟩
      exact ⟨⟨fun h ↦ absurd h hcount, fun h ↦ absurd h hflag, fun _ ↦ ⟨x, hx⟩⟩,
        by rw [hx]; rfl⟩
    · rintro ⟨hreadable, rfl⟩
      obtain ⟨x, hx⟩ := hreadable.percent hpercent
      exact ⟨x, hx, by rw [hx]; rfl⟩
  rw [if_neg hpercent, if_neg hpercent]
  have hreadable : Readable parseF64 print f :=
    ⟨fun h ↦ absurd h hcount, fun h ↦ absurd h hflag, fun h ↦ absurd h hpercent⟩
  split_ifs
  · exact ⟨fun h ↦ ⟨hreadable, (Except.ok.inj h).symm⟩, fun h ↦ congrArg Except.ok h.2.symm⟩
  · exact ⟨fun h ↦ ⟨hreadable, (Except.ok.inj h).symm⟩, fun h ↦ congrArg Except.ok h.2.symm⟩

theorem foldlM_readField {p : FtInfoProgress} :
    fields.foldlM (readField parseF64 print) {} = .ok p ↔
      (∀ f ∈ fields, Readable parseF64 print f) ∧ p = progressOf parseF64 print fields := by
  induction fields using List.reverseRecOn generalizing p with
  | nil => exact ⟨fun h ↦ ⟨List.forall_mem_nil _, (Except.ok.inj h).symm⟩,
      fun h ↦ congrArg Except.ok h.2.symm⟩
  | append_singleton fields f ih =>
      rw [List.foldlM_append, bind_eq_ok, List.forall_mem_append, List.forall_mem_singleton]
      constructor
      · rintro ⟨before, hbefore, hlast⟩
        obtain ⟨hreadable, rfl⟩ := ih.mp hbefore
        obtain ⟨p'', hround, hnil⟩ := bind_eq_ok.mp hlast
        cases hnil
        obtain ⟨p', hp', rfl⟩ := bind_pure_eq_ok.mp hround
        obtain ⟨hfield, rfl⟩ := takeField_eq_ok.mp hp'
        exact ⟨⟨hreadable, hfield⟩, progressOf_concat.symm⟩
      · rintro ⟨⟨hreadable, hlast⟩, rfl⟩
        refine ⟨_, ih.mpr ⟨hreadable, rfl⟩, bind_eq_ok.mpr ⟨_, ?_, rfl⟩⟩
        exact bind_pure_eq_ok.mpr ⟨_, takeField_eq_ok.mpr ⟨hlast, rfl⟩, progressOf_concat⟩

/-- A field that is there is one of the fields. -/
theorem mem_of_lastField {key : String} (h : lastField key fields = some f) :
    f ∈ fields ∧ f.1 = key.toList := by
  have hmem := List.mem_filter.mp (List.mem_of_getLast? h)
  exact ⟨hmem.1, of_decide_eq_true hmem.2⟩

variable (parseF64 print) in
/-- The fields of an index that holds the documents and is not at work: the last count is not too
small, none of the flags is set, and what is there of a percentage and of a state says so too. -/
structure Indexed (expected : ℕ) (useState : Bool) (fields : List Field) : Prop where
  readable : ∀ f ∈ fields, Readable parseF64 print f
  count : ∃ f n, lastField "num_docs" fields = some f ∧ parseCount parseF64 print f = .ok n ∧
    expected ≤ n
  idle : ∀ f ∈ fields, isIndexingKey f.1 → parseFlag parseF64 print f = .ok false
  percent : ∀ f, lastField "percent_indexed" fields = some f →
    ∃ x, parsePercent parseF64 print f = .ok x ∧ F64.le (.fin 1) x
  state : useState → ∀ f, lastField "state" fields = some f → stateOk (valueText f.2)

theorem ftInfoReady_progressOf {engine : String} {expected : ℕ} {useState : Bool}
    (hreadable : ∀ f ∈ fields, Readable parseF64 print f) :
    ftInfoReady engine (progressOf parseF64 print fields) expected useState = .ok true ↔
      Indexed parseF64 print expected useState fields := by
  have hidle : (progressOf parseF64 print fields).indexing = false ↔
      ∀ f ∈ fields, isIndexingKey f.1 → parseFlag parseF64 print f = .ok false := by
    rw [progressOf]
    simp only [List.any_eq_false, Bool.and_eq_true, not_and]
    refine forall₂_congr fun f hf ↦ forall_congr' fun hflag ↦ ?_
    obtain ⟨b, hb⟩ := (hreadable f hf).flag hflag
    rw [hb]
    cases b <;> simp
  have hpercent : F64.le (.fin 1)
    ((progressOf parseF64 print fields).percentIndexed.getD (.fin 1)) ↔
      ∀ f, lastField "percent_indexed" fields = some f →
        ∃ x, parsePercent parseF64 print f = .ok x ∧ F64.le (.fin 1) x := by
    rw [progressOf]
    cases hlast : lastField "percent_indexed" fields with
    | none => simp [F64.le]
    | some f =>
        obtain ⟨hf, hkey⟩ := mem_of_lastField hlast
        obtain ⟨x, hx⟩ := (hreadable f hf).percent hkey
        simp [hx]
  have hstate : stateOk (progressOf parseF64 print fields).state ↔
      ∀ f, lastField "state" fields = some f → stateOk (valueText f.2) := by
    rw [progressOf]
    cases hlast : lastField "state" fields with
    | none => simp [stateOk]
    | some f => simp
  have hcount : (∃ n, (progressOf parseF64 print fields).numDocs = some n ∧ expected ≤ n) ↔
      ∃ f n, lastField "num_docs" fields = some f ∧ parseCount parseF64 print f = .ok n ∧
        expected ≤ n := by
    rw [progressOf]
    simp only [Option.bind_eq_some_iff, toOption_eq_some]
    constructor
    · rintro ⟨n, ⟨f, hf, hn⟩, hle⟩
      exact ⟨f, n, hf, hn, hle⟩
    · rintro ⟨f, n, hf, hn, hle⟩
      exact ⟨n, ⟨f, hf, hn⟩, hle⟩
  rw [ftInfoReady]
  cases hnum : (progressOf parseF64 print fields).numDocs with
  | none =>
      rw [hnum] at hcount
      constructor
      · intro h
        cases h
      · intro h
        obtain ⟨n, hn, -⟩ := hcount.mpr h.count
        cases hn
  | some n =>
      rw [hnum] at hcount
      simp only [Except.ok.injEq, Bool.and_eq_true, decide_eq_true_eq, Bool.not_eq_true',
        Bool.or_eq_true, hidle, hpercent, hstate]
      constructor
      · rintro ⟨⟨⟨hle, hidle⟩, hpercent⟩, hstate⟩
        refine ⟨hreadable, hcount.mp ⟨n, rfl, hle⟩, hidle, hpercent, fun huse ↦ ?_⟩
        exact hstate.resolve_left fun h ↦ Bool.false_ne_true (h.symm.trans huse)
      · intro h
        obtain ⟨n', hn', hle⟩ := hcount.mpr h.count
        cases hn'
        refine ⟨⟨⟨hle, h.idle⟩, h.percent⟩, ?_⟩
        cases useState with
        | false => exact .inl rfl
        | true => exact .inr (h.state rfl)

/-- What `FT.INFO` has to say for the wait to end. -/
theorem parseFtInfo_ready_iff (parseF64 : Text → Option F64) (print : Printing) (engine : String)
    (expected : ℕ) (useState : Bool) (info : InfoReply) :
    (∃ p, parseFtInfo parseF64 print info = .ok p ∧
        ftInfoReady engine p expected useState = .ok true) ↔
      ∃ fields, ftInfoPairs print info = .ok fields ∧
        Indexed parseF64 print expected useState fields := by
  simp only [parseFtInfo, bind_eq_ok, foldlM_readField]
  constructor
  · rintro ⟨p, ⟨fields, hfields, hreadable, rfl⟩, hready⟩
    exact ⟨fields, hfields, (ftInfoReady_progressOf hreadable).mp hready⟩
  · rintro ⟨fields, hfields, h⟩
    exact ⟨_, ⟨fields, hfields, h.readable, rfl⟩, (ftInfoReady_progressOf h.readable).mpr h⟩

end Replies

/-! ## The loop -/

structure TransientRetry where
  budget : ℕ
  outageSince : Option ℕ

def TransientRetry.onSuccess (r : TransientRetry) : TransientRetry := { r with outageSince := none }

/-- A transient error: try again, or give up. -/
def TransientRetry.onTransient (print : Printing) (r : TransientRetry) (start now : ℕ)
    (error : String) : Except String TransientRetry :=
  let since := r.outageSince.getD now
  let outage := now - since
  if reconnectWindow < outage then
    .error (s!"FT.INFO error: {error} (the server has not answered for {print.seconds outage}s, " ++
      s!"past the {reconnectWindow / 10 ^ 9}s reconnect window; giving up rather than retrying " ++
      "for the whole indexing budget)")
  else if r.budget ≤ now - start then
    .error s!"FT.INFO error: {error} (indexing wait budget of {r.budget / 10 ^ 9}s spent)"
  else .ok { r with outageSince := some since }

/-- After a poll of an index that is not complete. -/
def verdict (print : Printing) (engine : String) (elapsed budget : ℕ) (progress : String) :
    Except String Unit :=
  if budget < elapsed then
    .error (s!"{engine}: index still incomplete after {print.seconds budget}s, the indexing " ++
      s!"wait budget ({progress}); refusing to search a partly built index. Raise the budget " ++
      "with INDEXING_WAIT_SECS=<seconds>")
  else .ok ()

def isTransientConnError (msg : String) : Bool :=
  ["broken pipe", "connection reset", "connection aborted", "connection refused",
    "unexpected end of file", "unexpected eof", "timed out", "timeout", "os error 104",
    "os error 32", "os error 111", "os error 110", "connection dropped", "not connected",
    "errcluster", "uninitialized cluster state"].any fun sig ↦
    containsSub sig.toList (msg.toList.map Char.toLower)

/-- The wait of an engine: what a reply says, with a description of it, and whether an error that
may pass is followed by another poll. -/
structure Waiter where
  name : String
  floorSecs : ℕ
  reconnects : Bool
  look : ℕ → InfoReply → Except String (Bool × String)

section Engines

variable (parseF64 : Text → Option F64) (print : Printing)

def ftInfoLook (name : String) (useState : Bool) (expected : ℕ) (info : InfoReply) :
    Except String (Bool × String) := do
  let progress ← (parseFtInfo parseF64 print info).mapError fun e ↦ s!"{name}: {e}"
  let ready ← ftInfoReady name progress expected useState
  pure (ready, progress.describe print expected)

/-- `{:?}` of an optional count. -/
def debugCount : Option ℕ → String
  | some n => s!"Some({n})"
  | none => "None"

def kividbLook (algorithm : String) (expected : ℕ) (info : InfoReply) :
    Except String (Bool × String) := do
  let progress ← (parseKividbFtInfo parseF64 print info).mapError fun e ↦ s!"kividb: {e}"
  let ready ← kividbReady algorithm progress expected
  pure (ready, s!"algorithm={algorithm}, num_docs={debugCount progress.numDocs}, " ++
    s!"hnsw_live_count={debugCount progress.hnswLiveCount}/{expected}, " ++
    s!"compaction_in_progress={progress.compactionInProgress}")

def redis : Waiter := ⟨"redis", 120, true, ftInfoLook parseF64 print "redis" false⟩

def valkey : Waiter := ⟨"valkey", 600, false, ftInfoLook parseF64 print "valkey" true⟩

def dragonfly : Waiter := ⟨"dragonfly", 600, false, ftInfoLook parseF64 print "dragonfly" false⟩

def kividb (algorithm : String) : Waiter :=
  ⟨"kividb", 600, false, kividbLook parseF64 print algorithm⟩

end Engines

structure Poll where
  now : ℕ
  answer : Except String InfoReply

section Loop

variable (print : Printing) (w : Waiter) (expected start maxWait : ℕ)

def waitStep (retry : TransientRetry) (poll : Poll) : TransientRetry ⊕ Except String Unit :=
  match poll.answer with
  | .error e =>
    if w.reconnects && isTransientConnError e then
      match retry.onTransient print start poll.now e with
      | .ok retry => .inl retry
      | .error e => .inr (.error e)
    else .inr (.error s!"FT.INFO error: {e}")
  | .ok info =>
    match w.look expected info with
    | .error e => .inr (.error e)
    | .ok (true, _) => .inr (.ok ())
    | .ok (false, state) =>
      match verdict print w.name (poll.now - start) maxWait state with
      | .ok () => .inl retry.onSuccess
      | .error e => .inr (.error e)

end Loop

/-- The result of the wait, and the polls that are not made. -/
def waitForIndexing (print : Printing) (w : Waiter) (raw : Option Text) (phase : WaitPhase)
    (expected start : ℕ) (polls : List Poll) : Option (Except String Unit × List Poll) :=
  match parseOverride raw with
  | .error e => some (.error e, polls)
  | .ok overrideSecs =>
    let maxWait := nanos (budget phase w.floorSecs expected overrideSecs)
    readUntil (waitStep print w expected start maxWait) ⟨maxWait, none⟩ polls

/-! ## Whole waits -/

/-- An error that a wait takes for one that passes. -/
def isOutage (w : Waiter) (poll : Poll) : Bool :=
  match poll.answer with
  | .error e => w.reconnects && isTransientConnError e
  | .ok _ => false

/-- The wait is not over: the server is away, or its index is not complete, and there is time. -/
def Pending (w : Waiter) (expected start maxWait : ℕ) (poll : Poll) : Prop :=
  isOutage w poll ∧ poll.now - start < maxWait ∨
    ∃ info state, poll.answer = .ok info ∧ w.look expected info = .ok (false, state) ∧
      poll.now - start ≤ maxWait

/-- The server says that the index is complete. -/
def Ready (w : Waiter) (expected : ℕ) (poll : Poll) : Prop :=
  ∃ info state, poll.answer = .ok info ∧ w.look expected info = .ok (true, state)

/-- From the first poll of several to the last one. -/
def duration (block : List Poll) : ℕ :=
  (block.getLast?.map Poll.now).getD 0 - (block.head?.map Poll.now).getD 0

structure Waited (w : Waiter) (expected start maxWait : ℕ) (polls : List Poll) : Prop where
  pending : ∀ poll ∈ polls, Pending w expected start maxWait poll
  outage_le : ∀ block, block <:+: polls → block ≠ [] → (∀ poll ∈ block, isOutage w poll) →
    duration block ≤ reconnectWindow

section Proofs

variable {print : Printing} {w : Waiter} {expected start maxWait : ℕ} {since : Option ℕ}
  {poll : Poll}

theorem onTransient_eq_ok {r r' : TransientRetry} {now : ℕ} {error : String} :
    r.onTransient print start now error = .ok r' ↔
      (now - start < r.budget ∧ now - r.outageSince.getD now ≤ reconnectWindow) ∧
        r' = { r with outageSince := some (r.outageSince.getD now) } := by
  rw [TransientRetry.onTransient]
  split_ifs with hwindow hbudget
  · simp only [false_iff, not_and]
    exact fun h ↦ absurd hwindow (not_lt.mpr h.2)
  · simp only [false_iff, not_and]
    exact fun h ↦ absurd h.1 (not_lt.mpr hbudget)
  · rw [Except.ok.injEq, eq_comm, and_iff_right ⟨not_le.mp hbudget, not_lt.mp hwindow⟩]

theorem verdict_eq_ok {engine progress : String} {elapsed budget : ℕ} :
    verdict print engine elapsed budget progress = .ok () ↔ elapsed ≤ budget := by
  rw [verdict]
  split_ifs with h
  · simp [h]
  · simp [not_lt.mp h]

theorem waitStep_eq_inl {retry : TransientRetry} :
    waitStep print w expected start maxWait ⟨maxWait, since⟩ poll = .inl retry ↔
      (Pending w expected start maxWait poll ∧
        (isOutage w poll → poll.now - since.getD poll.now ≤ reconnectWindow)) ∧
      retry = ⟨maxWait, if isOutage w poll then some (since.getD poll.now) else none⟩ := by
  rw [waitStep, Pending, isOutage]
  cases poll.answer with
  | error e =>
      dsimp only
      by_cases htransient : (w.reconnects && isTransientConnError e) = true
      · have hretry : TransientRetry.onTransient print ⟨maxWait, since⟩ start poll.now e =
            .ok retry ↔ _ := onTransient_eq_ok
        rw [if_pos htransient, if_pos htransient]
        simp only [htransient, true_and, forall_const, reduceCtorEq, false_and, exists_false,
          or_false]
        rw [← hretry]
        cases TransientRetry.onTransient print ⟨maxWait, since⟩ start poll.now e <;> simp
      · rw [if_neg htransient, if_neg htransient]
        simp only [htransient, false_and, reduceCtorEq, exists_false, or_false]
  | ok info =>
      dsimp only
      cases hlook : w.look expected info with
      | error e => simp [hlook]
      | ok seen =>
          obtain ⟨ready, state⟩ := seen
          cases ready with
          | true => simp [hlook]
          | false =>
              have hverdict : verdict print w.name (poll.now - start) maxWait state = .ok () ↔
                  poll.now - start ≤ maxWait := verdict_eq_ok
              dsimp only
              cases hnext : verdict print w.name (poll.now - start) maxWait state with
              | error e =>
                  rw [hnext] at hverdict
                  simp [← hverdict]
              | ok _ =>
                  rw [hnext] at hverdict
                  simp [hlook, hverdict.mp rfl, TransientRetry.onSuccess, eq_comm]

theorem waitStep_eq_ok {retry : TransientRetry} :
    waitStep print w expected start maxWait retry poll = .inr (.ok ()) ↔ Ready w expected poll := by
  rw [waitStep, Ready]
  cases poll.answer with
  | error e =>
      dsimp only
      split_ifs
      · cases retry.onTransient print start poll.now e <;> simp
      · simp
  | ok info =>
      dsimp only
      cases hlook : w.look expected info with
      | error e => simp [hlook]
      | ok seen =>
          obtain ⟨ready, state⟩ := seen
          cases ready with
          | true => simp [hlook]
          | false =>
              dsimp only
              cases verdict print w.name (poll.now - start) maxWait state <;> simp [hlook]

/-- Where the clock does not go back, an outage is longer than the last part of it. -/
theorem duration_le_of_suffix {block block' : List Poll} (h : block' <:+ block) (hne : block' ≠ [])
    (hclock : block.Pairwise fun p q ↦ p.now ≤ q.now) : duration block' ≤ duration block := by
  obtain ⟨first, rfl⟩ := h
  obtain ⟨p, block', rfl⟩ := List.exists_cons_of_ne_nil hne
  rw [duration, duration, List.getLast?_append_of_ne_nil _ hne, List.head?_cons]
  cases first with
  | nil => exact le_rfl
  | cons q first =>
      have hle : q.now ≤ p.now := by
        refine List.rel_of_pairwise_cons hclock ?_
        exact List.mem_append_right _ List.mem_cons_self
      rw [List.cons_append, List.head?_cons]
      exact Nat.sub_le_sub_left hle _

theorem duration_concat (outage : List Poll) :
    duration (outage ++ [poll]) = poll.now - ((outage.head?.map Poll.now).getD poll.now) := by
  rw [duration, List.getLast?_concat]
  cases outage <;> rfl

/-- What the loop asks of the polls before the last one. -/
theorem waited_iff {before : List Poll} (hclock : before.Pairwise fun p q ↦ p.now ≤ q.now) :
    GoesOn (fun l poll ↦ Pending w expected start maxWait poll ∧
      (isOutage w poll → duration (l.rtakeWhile (isOutage w) ++ [poll]) ≤ reconnectWindow)) before ↔
      Waited w expected start maxWait before := by
  rw [goesOn_and, goesOn_forall, goesOn_outage_iff]
  · exact ⟨fun h ↦ ⟨h.1, h.2⟩, fun h ↦ ⟨h.pending, h.outage_le⟩⟩
  · intro block block' hblock hsuffix hne
    exact duration_le_of_suffix hsuffix hne (hclock.sublist hblock.sublist)

theorem readUntil_waitStep {polls rest : List Poll}
    (hclock : polls.Pairwise fun p q ↦ p.now ≤ q.now) :
    readUntil (waitStep print w expected start maxWait) ⟨maxWait, none⟩ polls =
        some (.ok (), rest) ↔
      ∃ before last, polls = before ++ last :: rest ∧ Waited w expected start maxWait before ∧
        Ready w expected last := by
  have hread := readUntil_iff (waitStep print w expected start maxWait)
    (fun l ↦ ⟨maxWait, (l.rtakeWhile (isOutage w)).head?.map Poll.now⟩)
    (fun l poll ↦ Pending w expected start maxWait poll ∧
      (isOutage w poll → duration (l.rtakeWhile (isOutage w) ++ [poll]) ≤ reconnectWindow))
    polls rest (.ok ()) (by
      intro before poll retry
      rw [waitStep_eq_inl, duration_concat, List.rtakeWhile_concat]
      split_ifs with houtage
      · cases before.rtakeWhile (isOutage w) <;> rfl
      · rfl)
  refine hread.trans ⟨?_, ?_⟩
  · rintro ⟨before, last, rfl, hgo, hready⟩
    exact ⟨before, last, rfl, (waited_iff (List.pairwise_append.mp hclock).1).mp hgo,
      waitStep_eq_ok.mp hready⟩
  · rintro ⟨before, last, rfl, hwaited, hready⟩
    exact ⟨before, last, rfl, (waited_iff (List.pairwise_append.mp hclock).1).mpr hwaited,
      waitStep_eq_ok.mpr hready⟩

/-- The wait ends well exactly where the override is one, and after polls that leave time, with no
outage longer than the window for reconnecting, a poll says that the index is complete.  Between
polls the clock does not go back. -/
theorem waitForIndexing_eq_ok_iff (print : Printing) (w : Waiter) (raw : Option Text)
    (phase : WaitPhase) (expected start : ℕ) (polls rest : List Poll)
    (hclock : polls.Pairwise fun p q ↦ p.now ≤ q.now) :
    waitForIndexing print w raw phase expected start polls = some (.ok (), rest) ↔
      ∃ overrideSecs, parseOverride raw = .ok overrideSecs ∧
        ∃ before last, polls = before ++ last :: rest ∧
          Waited w expected start (nanos (budget phase w.floorSecs expected overrideSecs)) before ∧
          Ready w expected last := by
  rw [waitForIndexing]
  cases parseOverride raw with
  | error e => simp
  | ok overrideSecs => simp [readUntil_waitStep hclock]

/-- A shard restarts, and the index is complete when the server is back. -/
def restartPolls : List Poll :=
  [⟨5, .error "ERRCLUSTER"⟩, ⟨nanos 100, .error "connection refused"⟩,
    ⟨nanos 110, .ok (.map [(.simpleString "num_docs", .int 10)])⟩]

/-- Numerals are not needed here, nor is anything shown. -/
def noPrinting : Printing := ⟨fun _ ↦ "", fun _ ↦ "", fun _ ↦ "", fun _ ↦ ""⟩

theorem waitForIndexing_restartPolls :
    ∃ overrideSecs, parseOverride none = .ok overrideSecs ∧
      ∃ before last, restartPolls = before ++ last :: [] ∧
        Waited (redis (fun _ ↦ none) noPrinting) 10 0
          (nanos (budget .fullBuild 120 10 overrideSecs)) before ∧
        Ready (redis (fun _ ↦ none) noPrinting) 10 last :=
  (waitForIndexing_eq_ok_iff noPrinting (redis (fun _ ↦ none) noPrinting) none .fullBuild 10 0
    restartPolls [] (by simp [restartPolls, nanos])).mp rfl

end Proofs

end VectorDbBenchmark.IndexingWait
