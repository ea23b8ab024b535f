import VectorDbBenchmark.Kit.Text

/-!
# Text matching two engines agree on

`classify` of `src/msmarco/text_match.rs`: whether a text matches a term for Redis and
OpenSearch alike.  It looks at the maximal runs of ASCII letters and digits, at what
stands on either side of a run, and at characters that may fold to ASCII letters.
-/

namespace VectorDbBenchmark.Msmarco

open Kit

def redisStopwords : List String :=
  ["a", "is", "the", "an", "and", "are", "as", "at", "be", "but", "by", "for", "if", "in", "into",
    "it", "no", "not", "of", "on", "or", "such", "that", "their", "then", "there", "these", "they",
    "this", "to", "was", "will", "with"]

/-- Both engines always split here. -/
def safeSeparators : String := ",<>\x7b\x7d[]\";!@#$%^&*()-+=~"

/-- Separators of Redis that join two letters or digits elsewhere. -/
def midSeparators : String := ".':"

def minTermLen : ℕ := 3

def maxTermLen : ℕ := 64

/-- The longest token of OpenSearch. -/
def luceneMaxTokenLen : ℕ := 255

inductive TextMatch where
  | yes
  | no
  | ambiguous
deriving DecidableEq, Repr

/-- Two occurrences of one term in one text. -/
def TextMatch.or : TextMatch → TextMatch → TextMatch
  | .yes, _ => .yes
  | _, .yes => .yes
  | .ambiguous, _ => .ambiguous
  | _, .ambiguous => .ambiguous
  | .no, .no => .no

/-- `str::len`. -/
def byteLen (text : Text) : ℕ := (text.map Char.utf8Size).sum

def validateTerm (term : Text) : Except String Unit :=
  if ¬(minTermLen ≤ byteLen term ∧ byteLen term ≤ maxTermLen) ∨ ¬term.all Char.isLower then
    .error (s!"text match term {(String.ofList term).quote} must be one lowercase ASCII word of " ++
      s!"{minTermLen}..= {maxTermLen} letters: anything else analyzes differently in Redis and " ++
      "OpenSearch")
  else if redisStopwords.contains (String.ofList term) then
    .error (s!"text match term {(String.ofList term).quote} is a RediSearch stopword: Redis does " ++
      "not index it, OpenSearch does, so the engines would disagree on every document")
  else .ok ()

def isSafe (c : Char) : Bool := c = ' ' || safeSeparators.toList.contains c

/-! ## Runs -/

/-- What stands beside a run. -/
inductive Side where
  /-- A token boundary in both engines. -/
  | boundary
  /-- More of the same token in both engines. -/
  | joined
  | unknown
deriving DecidableEq, Repr

def charAt (chars : Text) (j : ℤ) : Option Char := if j < 0 then none else chars[j.toNat]?

/-- The neighbour `i` of a run, looking outward by `step`. -/
def side (chars : Text) (i step : ℤ) : Side :=
  match charAt chars i with
  | none => .boundary
  | some c =>
    if c = '_' then .joined
    else if isSafe c then
      -- An escaped separator does not separate in Redis.
      if step < 0 ∧ c ≠ ' ' ∧ charAt chars (i - 1) = some '\\' then .unknown else .boundary
    else if midSeparators.toList.contains c then
      match charAt chars (i + step) with
      | none => .boundary
      | some d => if isSafe d then .boundary else .unknown
    else .unknown

/-- The loop of `ascii_runs` at `i`, inside a run since `start` or between runs. -/
def asciiRunsFrom : ℕ → Option ℕ → Text → List (ℕ × ℕ)
  | _, none, [] => []
  | i, some start, [] => [(start, i)]
  | i, none, c :: cs =>
    if c.isAlphanum then asciiRunsFrom (i + 1) (some i) cs else asciiRunsFrom (i + 1) none cs
  | i, some start, c :: cs =>
    if c.isAlphanum then asciiRunsFrom (i + 1) (some start) cs
    else (start, i) :: asciiRunsFrom (i + 1) none cs

/-- Every maximal run of ASCII letters and digits, from its start up to its end. -/
def asciiRuns (chars : Text) : List (ℕ × ℕ) := asciiRunsFrom 0 none chars

/-- `chars[start..end]`. -/
def slice (chars : Text) (run : ℕ × ℕ) : Text := (chars.drop run.1).take (run.2 - run.1)

/-- What one run says about a term; a run that is passed over says `no`. -/
def classifyRun (chars term : Text) (run : ℕ × ℕ) : TextMatch :=
  if luceneMaxTokenLen < run.2 - run.1 then
    if containsSub term ((slice chars run).map Char.toLower) then .ambiguous else .no
  else if run.2 - run.1 ≠ byteLen term ∨
      ¬((slice chars run).zip term).all fun (a, b) ↦ a.toLower = b then .no
  else
    match side chars (run.1 - 1) (-1), side chars run.2 1 with
    | .joined, _ => .no
    | _, .joined => .no
    | .boundary, .boundary => .yes
    | _, _ => .ambiguous

/-- The occurrences of a term as a whole run. -/
def classifyRuns (chars term : Text) : TextMatch :=
  (asciiRuns chars).foldl (fun verdict run ↦ verdict.or (classifyRun chars term run)) .no

/-! ## Folding -/

/-- What the Latin letters from U+00C0 fold to, `""` for a sign that is no letter. -/
def latin : List String :=
  ["a", "a", "a", "a", "a", "a", "ae", "c", "e", "e", "e", "e", "i", "i", "i", "i",
    "d", "n", "o", "o", "o", "o", "o", "", "o", "u", "u", "u", "u", "y", "th", "ss",
    "a", "a", "a", "a", "a", "a", "ae", "c", "e", "e", "e", "e", "i", "i", "i", "i",
    "d", "n", "o", "o", "o", "o", "o", "", "o", "u", "u", "u", "u", "y", "th", "y",
    "a", "a", "a", "a", "a", "a", "c", "c", "c", "c", "c", "c", "c", "c", "d", "d",
    "d", "d", "e", "e", "e", "e", "e", "e", "e", "e", "e", "e", "g", "g", "g", "g",
    "g", "g", "g", "g", "h", "h", "h", "h", "i", "i", "i", "i", "i", "i", "i", "i",
    "i", "i", "ij", "ij", "j", "j", "k", "k", "k", "l", "l", "l", "l", "l", "l", "l",
    "l", "l", "l", "n", "n", "n", "n", "n", "n", "n", "n", "n", "o", "o", "o", "o",
    "o", "o", "oe", "oe", "r", "r", "r", "r", "r", "r", "s", "s", "s", "s", "s", "s",
    "s", "s", "t", "t", "t", "t", "t", "t", "u", "u", "u", "u", "u", "u", "u", "u",
    "u", "u", "u", "u", "w", "w", "y", "y", "y", "z", "z", "z", "z", "z", "z", "s"]

/-- The ASCII letters a character may fold to in some engine. -/
def asciiFold (c : Char) : Option Text :=
  if 0xC0 ≤ c.toNat ∧ c.toNat < 0x180 then
    match latin[c.toNat - 0xC0]? with
    | none => none
    | some s => if s.isEmpty then none else some s.toList
  else
    match c with
    | '\u1E9E' => some "ss".toList
    | '\u212A' => some "k".toList
    | '\uFB00' => some "ff".toList
    | '\uFB01' => some "fi".toList
    | '\uFB02' => some "fl".toList
    | '\uFB03' => some "ffi".toList
    | '\uFB04' => some "ffl".toList
    | '\uFB05' => some "st".toList
    | '\uFB06' => some "st".toList
    | _ => none

def foldChar (c : Char) : Text :=
  if c.toNat < 0x80 then [c.toLower]
  else match asciiFold c with
    | some s => s
    | none => ['\u0000']

/-- Whether the folded text has the term as a whole run. -/
def foldedCouldSpell (chars term : Text) : Bool :=
  chars.any (fun c ↦ (asciiFold c).isSome) &&
    (List.splitOnP (fun c ↦ !c.isAlphanum) (chars.flatMap foldChar)).any (· = term)

/-! ## The verdict -/

/-- Whether a text matches a term in both engines, in neither, or possibly in one. -/
def classify (chars term : Text) : TextMatch :=
  match validateTerm term with
  | .error _ => .ambiguous
  | .ok () =>
    match classifyRuns chars term with
    | .yes => .yes
    | raw => if foldedCouldSpell chars term then .ambiguous else raw

/-! ## What a verdict says -/

@[simp] theorem TextMatch.or_no (m : TextMatch) : m.or .no = m := by cases m <;> rfl

theorem TextMatch.or_eq_no {m n : TextMatch} : m.or n = .no ↔ m = .no ∧ n = .no := by
  cases m <;> cases n <;> simp [TextMatch.or]

theorem TextMatch.or_eq_yes {m n : TextMatch} : m.or n = .yes ↔ m = .yes ∨ n = .yes := by
  cases m <;> cases n <;> simp [TextMatch.or]

section

variable {chars term : Text}

theorem foldl_or_eq_yes {m : TextMatch} {runs : List (ℕ × ℕ)} :
    runs.foldl (fun verdict run ↦ verdict.or (classifyRun chars term run)) m = .yes ↔
      m = .yes ∨ ∃ run ∈ runs, classifyRun chars term run = .yes := by
  induction runs generalizing m with
  | nil => simp
  | cons run runs ih =>
      rw [List.foldl_cons, ih, TextMatch.or_eq_yes]
      simp only [List.mem_cons, exists_eq_or_imp, or_assoc]

theorem foldl_or_eq_no {m : TextMatch} {runs : List (ℕ × ℕ)} :
    runs.foldl (fun verdict run ↦ verdict.or (classifyRun chars term run)) m = .no ↔
      m = .no ∧ ∀ run ∈ runs, classifyRun chars term run = .no := by
  induction runs generalizing m with
  | nil => simp
  | cons run runs ih =>
      rw [List.foldl_cons, ih, TextMatch.or_eq_no]
      simp only [List.mem_cons, forall_eq_or_imp, and_assoc]

/-- One occurrence that both engines find decides. -/
theorem classifyRuns_eq_yes :
    classifyRuns chars term = .yes ↔ ∃ run ∈ asciiRuns chars,
      classifyRun chars term run = .yes := by
  rw [classifyRuns, foldl_or_eq_yes]
  simp

theorem classifyRuns_eq_no :
    classifyRuns chars term = .no ↔ ∀ run ∈ asciiRuns chars, classifyRun chars term run = .no := by
  rw [classifyRuns, foldl_or_eq_no]
  simp

theorem utf8Size_of_isLower {c : Char} (h : c.isLower = true) : c.utf8Size = 1 := by
  have hle : c.val ≤ 'z'.val := of_decide_eq_true (Bool.and_eq_true_iff.mp h).2
  have hz : 'z'.val ≤ 0x7F := by decide
  rw [Char.utf8Size]
  exact if_pos (UInt32.le_trans hle hz)

theorem isAlpha_of_toLower {c : Char} (h : c.toLower.isLower = true) : c.isAlpha = true := by
  change (c.isUpper || c.isLower) = true
  rw [Bool.or_eq_true]
  by_cases hupper : 'A'.val ≤ c.val ∧ c.val ≤ 'Z'.val
  · exact .inl (decide_eq_true hupper)
  · have hsame : c.toLower = c := dif_neg hupper
    exact .inr (hsame ▸ h)

theorem byteLen_of_lower (h : term.all Char.isLower = true) : byteLen term = term.length := by
  induction term with
  | nil => rfl
  | cons c term ih =>
      rw [List.all_cons, Bool.and_eq_true] at h
      rw [byteLen, List.map_cons, List.sum_cons, utf8Size_of_isLower h.1, ← byteLen, ih h.2,
        List.length_cons, Nat.add_comm]

/-- The terms that are accepted. -/
theorem validateTerm_eq_ok (h : validateTerm term = .ok ()) :
    minTermLen ≤ term.length ∧ term.length ≤ maxTermLen ∧ term.all Char.isLower = true := by
  unfold validateTerm at h
  split_ifs at h with hshape hstop
  obtain ⟨hlen, hlower⟩ := not_or.mp hshape
  rw [not_not] at hlen hlower
  rw [byteLen_of_lower hlower] at hlen
  exact ⟨hlen.1, hlen.2, hlower⟩

/-- A run ends within the text. -/
theorem end_le_of_mem_asciiRunsFrom {i : ℕ} {start : Option ℕ} {run : ℕ × ℕ}
    (h : run ∈ asciiRunsFrom i start chars) : run.2 ≤ i + chars.length := by
  induction chars generalizing i start with
  | nil =>
      cases start with
      | none => cases h
      | some s =>
          rw [List.mem_singleton.mp h]
          exact le_rfl
  | cons c chars ih =>
      rw [List.length_cons, ← Nat.add_assoc, Nat.add_right_comm]
      cases start with
      | none =>
          rw [asciiRunsFrom] at h
          split_ifs at h
          · exact ih h
          · exact ih h
      | some s =>
          rw [asciiRunsFrom] at h
          split_ifs at h
          · exact ih h
          · rcases List.mem_cons.mp h with rfl | h
            · exact (Nat.le_succ i).trans (Nat.le_add_right _ _)
            · exact ih h

theorem length_slice {run : ℕ × ℕ} (h : run ∈ asciiRuns chars) :
    (slice chars run).length = run.2 - run.1 := by
  have hle : run.2 ≤ 0 + chars.length := end_le_of_mem_asciiRunsFrom h
  rw [Nat.zero_add] at hle
  rw [slice, List.length_take, List.length_drop]
  exact min_eq_left (Nat.sub_le_sub_right hle _)

end

end VectorDbBenchmark.Msmarco
