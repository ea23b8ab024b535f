import VectorDbBenchmark.Json
import VectorDbBenchmark.Kit.Outage

/-!
# Force merge

The merge of an OpenSearch index (`opensearch_maintenance.rs`): it is submitted as a task, and the
task is polled until every shard is merged.  A request whose reply is lost, or says that the
gateway is busy, is made again, and every such failure in a row costs a retry.  The replies are a
list: what the server says may depend on all that was asked of it.  Time is left out: how long the
client waits between two requests, the deadline of a request, and the wall-clock budget of
`force_merge`, which ends an operation that goes on for too long with an error.
-/

namespace VectorDbBenchmark.OpenSearch

open Kit

/-! ## Replies -/

/-- What comes of a request: no response, or a status and, if it can be read, a body. -/
inductive Reply where
  | failed (e : String)
  | response (status : ℕ) (text : Except String String)

/-- How both loops take a reply. -/
inductive Reading where
  | body (text : String)
  | transient (failure : String)
  | refused (status : ℕ) (text : String)

def Reply.read : Reply → Reading
  | .failed e => .transient e
  | .response _ (.error e) => .transient s!"response body: {e}"
  | .response status (.ok text) =>
    if 200 ≤ status ∧ status < 300 then .body text
    else if status = 429 ∨ status = 502 ∨ status = 503 ∨ status = 504 then
      .transient s!"HTTP {status}: {text}"
    else .refused status text

def Reply.isTransient (r : Reply) : Bool :=
  match r.read with
  | .transient _ => true
  | _ => false

/-! ## The two loops -/

section Code

-- `serde_json::from_str`, and how a value is printed
variable (fromStr : String → Except String Json) (display : Json → String) (maxRetries : ℕ)

def retryWait (stage : String) (retries : ℕ) (failure : String) : Except String ℕ :=
  if maxRetries ≤ retries then .error s!"{stage} failed after {retries} retries: {failure}"
  else .ok (retries + 1)

/-- The id of the task that the merge runs in. -/
def submittedTask (text : String) : Except String String :=
  match fromStr text with
  | .error e => .error s!"Force merge submission JSON: {e}"
  | .ok body =>
    match ((body.get "task").bind Json.asStr).filter (· ≠ "") with
    | some task => .ok task
    | none => .error s!"Force merge did not return an asynchronous task ID: {display body}"

/-- `value[key]`. -/
def index (key : String) (v : Json) : Json := (v.get key).getD .null

def taskComplete (body : Json) : Except String Bool :=
  if (body.get "error").isSome then .error s!"Force merge task failed: {display body}"
  else
    match (body.get "completed").bind Json.asBool with
    | some false => .ok false
    | some true =>
      let shards := index "_shards" (index "response" body)
      let total := (index "total" shards).asU64
      if total.any (0 < ·) ∧ (index "successful" shards).asU64 = total ∧
          (index "failed" shards).asU64 = some 0 ∧
          ((index "response" body).get "error").isNone then
        .ok true
      else .error s!"Force merge task did not succeed on every shard: {display body}"
    | none => .error s!"Force merge task missing boolean completed: {display body}"

def polledTask (task text : String) : Except String Bool :=
  match fromStr text with
  | .error e => .error s!"Force merge task {task} JSON: {e}"
  | .ok body => taskComplete display body

def submitStep (retries : ℕ) (reply : Reply) : ℕ ⊕ Except String String :=
  match reply.read with
  | .body text => .inr (submittedTask fromStr display text)
  | .refused status text => .inr (.error s!"Force merge submission HTTP {status}: {text}")
  | .transient failure =>
    match retryWait maxRetries "Force merge submission" retries failure with
    | .ok retries => .inl retries
    | .error e => .inr (.error e)

def pollStep (task : String) (retries : ℕ) (reply : Reply) : ℕ ⊕ Except String Unit :=
  match reply.read with
  | .body text =>
    match polledTask fromStr display task text with
    | .ok true => .inr (.ok ())
    -- a healthy, unfinished task is not a failed attempt
    | .ok false => .inl 0
    | .error e => .inr (.error e)
  | .refused status text => .inr (.error s!"Force merge task {task} HTTP {status}: {text}")
  | .transient failure =>
    match retryWait maxRetries s!"Force merge task {task} polling" retries failure with
    | .ok retries => .inl retries
    | .error e => .inr (.error e)

/-- The result, and the replies that are left. -/
def mergeTask (replies : List Reply) : Option (Except String Unit × List Reply) :=
  (readUntil (submitStep fromStr display maxRetries) 0 replies).bind fun
    | (.error e, rest) => some (.error e, rest)
    | (.ok task, rest) => readUntil (pollStep fromStr display maxRetries task) 0 rest

end Code

/-! ## What a reply says -/

/-- The merge was accepted, as this task. -/
def Accepts (fromStr : String → Except String Json) (task : String) (r : Reply) : Prop :=
  task ≠ "" ∧ ∃ text body, r.read = .body text ∧ fromStr text = .ok body ∧
    (body.get "task").bind Json.asStr = some task

/-- The task is healthy, and not at its end. -/
def Unfinished (fromStr : String → Except String Json) (r : Reply) : Prop :=
  ∃ text body, r.read = .body text ∧ fromStr text = .ok body ∧ body.get "error" = none ∧
    (body.get "completed").bind Json.asBool = some false

/-- The shards of the index, of which there is one, are all merged. -/
structure EveryShard (body : Json) : Prop where
  error : body.get "error" = none
  completed : (body.get "completed").bind Json.asBool = some true
  response : (index "response" body).get "error" = none
  shards : ∃ total ≠ 0,
    (index "total" (index "_shards" (index "response" body))).asU64 = some total ∧
    (index "successful" (index "_shards" (index "response" body))).asU64 = some total ∧
    (index "failed" (index "_shards" (index "response" body))).asU64 = some 0

def Merged (fromStr : String → Except String Json) (r : Reply) : Prop :=
  ∃ text body, r.read = .body text ∧ fromStr text = .ok body ∧ EveryShard body

/-- A conversation that ends with the merged index: its submissions are lost but for the last one,
and of the polls no more are lost in a row than there are retries. -/
structure Conversation (fromStr : String → Except String Json) (maxRetries : ℕ)
    (lost : List Reply) (accepted : Reply) (polls : List Reply) (last : Reply) : Prop where
  lost_transient : ∀ r ∈ lost, r.isTransient
  lost_le : lost.length ≤ maxRetries
  accepted : ∃ task, Accepts fromStr task accepted
  polls_pending : ∀ r ∈ polls, r.isTransient ∨ Unfinished fromStr r
  outage_le : ∀ block, block <:+: polls → (∀ r ∈ block, r.isTransient) → block.length ≤ maxRetries
  last : Merged fromStr last

variable {fromStr : String → Except String Json} {display : Json → String} {maxRetries : ℕ}

theorem submittedTask_eq_ok {text task : String} :
    submittedTask fromStr display text = .ok task ↔
      task ≠ "" ∧ ∃ body, fromStr text = .ok body ∧
        (body.get "task").bind Json.asStr = some task := by
  rw [submittedTask]
  cases fromStr text with
  | error e => simp
  | ok body =>
      have hfilter : ((body.get "task").bind Json.asStr).filter (· ≠ "") = some task ↔
          (body.get "task").bind Json.asStr = some task ∧ task ≠ "" := by
        rw [Option.filter_eq_some_iff, decide_eq_true_iff]
      dsimp only
      cases hfound : ((body.get "task").bind Json.asStr).filter (· ≠ "") with
      | none =>
          rw [hfound] at hfilter
          constructor
          · intro h
            cases h
          · rintro ⟨hne, body', heq, htask⟩
            cases heq
            cases hfilter.mpr ⟨htask, hne⟩
      | some found =>
          rw [hfound] at hfilter
          constructor
          · intro h
            cases h
            obtain ⟨htask, hne⟩ := hfilter.mp rfl
            exact ⟨hne, body, rfl, htask⟩
          · rintro ⟨hne, body', heq, htask⟩
            cases heq
            cases hfilter.mpr ⟨htask, hne⟩
            rfl

theorem taskComplete_eq_ok_true {body : Json} :
    taskComplete display body = .ok true ↔ EveryShard body := by
  constructor
  · intro h
    rw [taskComplete] at h
    split_ifs at h with herror
    cases hcompleted : (body.get "completed").bind Json.asBool with
    | none =>
        rw [hcompleted] at h
        cases h
    | some completed =>
        rw [hcompleted] at h
        cases completed with
        | false => cases h
        | true =>
            dsimp only at h
            split_ifs at h with hshards
            obtain ⟨htotal, hsuccessful, hfailed, hresponse⟩ := hshards
            obtain ⟨total, heq, hpos⟩ := (Option.any_eq_true _ _).mp htotal
            refine ⟨Option.not_isSome_iff_eq_none.mp herror, hcompleted,
              Option.isNone_iff_eq_none.mp hresponse, total, ?_, heq, hsuccessful.trans heq,
              hfailed⟩
            exact (of_decide_eq_true hpos).ne'
  · intro h
    obtain ⟨total, hne, htotal, hsuccessful, hfailed⟩ := h.shards
    rw [taskComplete, h.error, h.completed]
    dsimp only [Option.isSome_none]
    rw [if_neg Bool.false_ne_true, if_pos]
    refine ⟨?_, hsuccessful.trans htotal.symm, hfailed, ?_⟩
    · rw [htotal]
      exact decide_eq_true (Nat.pos_of_ne_zero hne)
    · exact Option.isNone_iff_eq_none.mpr h.response

theorem taskComplete_eq_ok_false {body : Json} :
    taskComplete display body = .ok false ↔
      body.get "error" = none ∧ (body.get "completed").bind Json.asBool = some false := by
  rw [taskComplete]
  cases herror : body.get "error" with
  | some e => simp
  | none =>
      cases hcompleted : (body.get "completed").bind Json.asBool with
      | none => simp
      | some completed =>
          cases completed with
          | false => simp
          | true =>
              dsimp only
              split_ifs <;> simp

theorem polledTask_eq_ok {task text : String} {completed : Bool} :
    polledTask fromStr display task text = .ok completed ↔
      ∃ body, fromStr text = .ok body ∧ taskComplete display body = .ok completed := by
  rw [polledTask]
  cases fromStr text with
  | error e => simp
  | ok body => simp

/-! ## One step -/

theorem submitStep_eq_inl {r : Reply} {retries retries' : ℕ} :
    submitStep fromStr display maxRetries retries r = .inl retries' ↔
      (r.isTransient ∧ retries < maxRetries) ∧ retries' = retries + 1 := by
  rw [submitStep, Reply.isTransient]
  cases r.read with
  | body text => simp
  | refused status text => simp
  | transient failure =>
      simp only [retryWait]
      split_ifs with hspent
      · simp [hspent]
      · simp [not_le.mp hspent, eq_comm]

theorem submitStep_eq_ok {r : Reply} {retries : ℕ} {task : String} :
    submitStep fromStr display maxRetries retries r = .inr (.ok task) ↔ Accepts fromStr task r := by
  rw [submitStep, Accepts]
  cases r.read with
  | body text =>
      rw [Sum.inr.injEq, submittedTask_eq_ok]
      simp
  | refused status text => simp
  | transient failure =>
      simp only [retryWait]
      split_ifs <;> simp

theorem pollStep_eq_inl {r : Reply} {task : String} {retries retries' : ℕ} :
    pollStep fromStr display maxRetries task retries r = .inl retries' ↔
      (r.isTransient ∧ retries < maxRetries ∧ retries' = retries + 1) ∨
        (Unfinished fromStr r ∧ retries' = 0) := by
  rw [pollStep, Reply.isTransient, Unfinished]
  cases r.read with
  | body text =>
      have hunfinished : polledTask fromStr display task text = .ok false ↔
          ∃ body, fromStr text = .ok body ∧ body.get "error" = none ∧
            (body.get "completed").bind Json.asBool = some false := by
        simp only [polledTask_eq_ok, taskComplete_eq_ok_false]
      dsimp only
      cases hpolled : polledTask fromStr display task text with
      | error e =>
          rw [hpolled] at hunfinished
          simp [← hunfinished]
      | ok completed =>
          rw [hpolled] at hunfinished
          cases completed with
          | true => simp [← hunfinished]
          | false =>
              have hbody := hunfinished.mp rfl
              simp only [Reading.body.injEq, exists_and_left, exists_eq_left', hbody]
              simp [eq_comm]
  | refused status text => simp
  | transient failure =>
      simp only [retryWait]
      split_ifs with hspent
      · simp [hspent]
      · simp [not_le.mp hspent, eq_comm]

theorem pollStep_eq_ok {r : Reply} {task : String} {retries : ℕ} :
    pollStep fromStr display maxRetries task retries r = .inr (.ok ()) ↔ Merged fromStr r := by
  rw [pollStep, Merged]
  cases r.read with
  | body text =>
      have hmerged : polledTask fromStr display task text = .ok true ↔
          ∃ body, fromStr text = .ok body ∧ EveryShard body := by
        simp only [polledTask_eq_ok, taskComplete_eq_ok_true]
      dsimp only
      cases hpolled : polledTask fromStr display task text with
      | error e =>
          rw [hpolled] at hmerged
          simp [← hmerged]
      | ok completed =>
          rw [hpolled] at hmerged
          cases completed <;> simp [← hmerged]
  | refused status text => simp
  | transient failure =>
      simp only [retryWait]
      split_ifs <;> simp

/-! ## Whole conversations -/

theorem readUntil_submitStep {task : String} {replies rest : List Reply} :
    readUntil (submitStep fromStr display maxRetries) 0 replies = some (.ok task, rest) ↔
      ∃ lost accepted, replies = lost ++ accepted :: rest ∧
        ((∀ r ∈ lost, r.isTransient) ∧ lost.length ≤ maxRetries) ∧
        Accepts fromStr task accepted := by
  have hread := readUntil_iff (submitStep fromStr display maxRetries) List.length
    (fun l r ↦ r.isTransient ∧ l.length < maxRetries) replies rest (.ok task) (by
      intro before r retries
      rw [submitStep_eq_inl, List.length_append, List.length_singleton])
  simp only [goesOn_and, goesOn_forall, goesOn_length_iff, submitStep_eq_ok] at hread
  exact hread

theorem Unfinished.not_isTransient {r : Reply} (h : Unfinished fromStr r) :
    r.isTransient = false := by
  obtain ⟨text, body, hread, -⟩ := h
  rw [Reply.isTransient, hread]

theorem readUntil_pollStep {task : String} {replies rest : List Reply} :
    readUntil (pollStep fromStr display maxRetries task) 0 replies = some (.ok (), rest) ↔
      ∃ polls last, replies = polls ++ last :: rest ∧
        ((∀ r ∈ polls, r.isTransient ∨ Unfinished fromStr r) ∧
          ∀ block, block <:+: polls → block ≠ [] → (∀ r ∈ block, r.isTransient) →
            block.length ≤ maxRetries) ∧
        Merged fromStr last := by
  have hread := readUntil_iff (pollStep fromStr display maxRetries task)
    (fun l ↦ (l.rtakeWhile Reply.isTransient).length)
    (fun l r ↦ (r.isTransient ∨ Unfinished fromStr r) ∧
      (r.isTransient → (l.rtakeWhile Reply.isTransient ++ [r]).length ≤ maxRetries))
    replies rest (.ok ()) (by
      intro before r retries
      rw [pollStep_eq_inl, List.length_append, List.length_singleton]
      constructor
      · rintro (⟨htransient, hlt, rfl⟩ | ⟨hunfinished, rfl⟩)
        · refine ⟨⟨.inl htransient, fun _ ↦ hlt⟩, ?_⟩
          rw [List.rtakeWhile_concat_pos _ _ _ htransient, List.length_append,
            List.length_singleton]
        · have hnot := hunfinished.not_isTransient
          refine ⟨⟨.inr hunfinished, fun h ↦ ?_⟩, ?_⟩
          · cases hnot.symm.trans h
          · rw [List.rtakeWhile_concat_neg _ _ _ (hnot ▸ Bool.false_ne_true), List.length_nil]
      · rintro ⟨⟨hpending, hle⟩, rfl⟩
        by_cases htransient : r.isTransient
        · left
          refine ⟨htransient, hle htransient, ?_⟩
          rw [List.rtakeWhile_concat_pos _ _ _ htransient, List.length_append,
            List.length_singleton]
        · right
          refine ⟨hpending.resolve_left htransient, ?_⟩
          rw [List.rtakeWhile_concat_neg _ _ _ htransient, List.length_nil])
  have houtage : ∀ polls, GoesOn (fun l r ↦ r.isTransient →
        (l.rtakeWhile Reply.isTransient ++ [r]).length ≤ maxRetries) polls ↔
      ∀ block, block <:+: polls → block ≠ [] → (∀ r ∈ block, r.isTransient) →
        block.length ≤ maxRetries :=
    fun polls ↦ goesOn_outage_iff (μ := List.length) fun _ _ _ h _ ↦ h.length_le
  simp only [goesOn_and, goesOn_forall, houtage, pollStep_eq_ok] at hread
  exact hread

/-- The merge succeeds exactly in the conversations in which a submission is accepted before the
retries are spent, no outage of the polls is longer than the retries, and the end is a poll that
says that every shard is merged.  What it asked before that is all it asked. -/
theorem mergeTask_eq_ok_iff (fromStr : String → Except String Json) (display : Json → String)
    (maxRetries : ℕ) (replies rest : List Reply) :
    mergeTask fromStr display maxRetries replies = some (.ok (), rest) ↔
      ∃ lost accepted polls last, replies = lost ++ accepted :: (polls ++ last :: rest) ∧
        Conversation fromStr maxRetries lost accepted polls last := by
  rw [mergeTask, Option.bind_eq_some_iff]
  constructor
  · rintro ⟨⟨e | task, left⟩, hsubmit, hpoll⟩
    · cases hpoll
    · obtain ⟨lost, accepted, rfl, ⟨hlost, hle⟩, haccepted⟩ := readUntil_submitStep.mp hsubmit
      obtain ⟨polls, last, rfl, ⟨hpending, houtage⟩, hmerged⟩ := readUntil_pollStep.mp hpoll
      refine ⟨lost, accepted, polls, last, rfl, ?_⟩
      constructor
      case lost_transient => exact hlost
      case lost_le => exact hle
      case accepted => exact ⟨task, haccepted⟩
      case polls_pending => exact hpending
      case last => exact hmerged
      case outage_le =>
        intro block hblock hfailed
        by_cases hnil : block = []
        · rw [hnil]
          exact Nat.zero_le _
        · exact houtage block hblock hnil hfailed
  · rintro ⟨lost, accepted, polls, last, rfl, h⟩
    obtain ⟨task, haccepted⟩ := h.accepted
    refine ⟨(.ok task, polls ++ last :: rest), ?_, ?_⟩
    · exact readUntil_submitStep.mpr ⟨lost, accepted, rfl, ⟨h.lost_transient, h.lost_le⟩, haccepted⟩
    · exact readUntil_pollStep.mpr ⟨polls, last, rfl,
        ⟨h.polls_pending, fun block hblock _ ↦ h.outage_le block hblock⟩, h.last⟩

end VectorDbBenchmark.OpenSearch
