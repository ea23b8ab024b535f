import VectorDbBenchmark.Kit.Utf8
import VectorDbBenchmark.Kit.Walk

/-!
# The check of a filter-only command

`check_redis_command` and `check_redis_query` of `src/filter_only.rs`: whether the arguments of
an `FT.SEARCH` are those of a metadata query.  The position is a `usize`, and its sums wrap, as
they do in a release build.
-/

namespace VectorDbBenchmark.FilterOnly

open Kit Walk

/-- `usize::MAX + 1`. -/
def usizeSize : ℕ := 2 ^ 64

/-- The arguments of a command, whose number is a `usize`. -/
structure RedisCommand where
  args : List Bytes
  length_lt : args.length < usizeSize

/-- `str::parse::<u32>`. -/
def parseU32 (t : Text) : Option ℕ := (parseU64 t).filter fun n ↦ n < 2 ^ 32

/-- `u8::to_ascii_lowercase`. -/
def lowerByte (b : UInt8) : UInt8 := if 65 ≤ b && b ≤ 90 then b + 32 else b

/-- `eq_ignore_ascii_case(b"FT.SEARCH")`. -/
def isSearch (arg : Bytes) : Bool := arg.map lowerByte = asciiBytes "ft.search".toList

/-- An option, in capitals. -/
def optionName (arg : Bytes) : Text := (fromUtf8Lossy arg).map Char.toUpper

def refuse (why : String) : String :=
  s!"filter-only FT.SEARCH is not a metadata-only command ({why}); filter-only must issue " ++
    "metadata predicates only"

section Code

-- What `{:?}` prints of a string.
variable (debug : Text → String)

def checkRedisQuery (query : Text) : Except String Unit :=
  if containsSub "=>".toList query ||
    containsSub "VECTOR_RANGE".toList (query.map Char.toUpper) then
    .error (s!"filter-only query carries a vector clause ({debug (query.take 120)}); filter-only " ++
      "must issue metadata predicates only")
  else .ok ()

variable (args : List Bytes)

/-- How many operands the option at a position has. -/
def operandCount (i : ℕ) (option : Text) : Except String ℕ :=
  if option = "NOCONTENT".toList then .ok 0
  else if option = "DIALECT".toList then
    match (args[i + 1]?).bind fun a ↦ parseU32 (fromUtf8Lossy a) with
    | some d =>
      if 4 ≤ d then
        .error (refuse s!"DIALECT {d} implies WITHOUTCOUNT, and filter-only needs exact totals")
      else .ok 1
    | none => .ok 1
  else if option = "TIMEOUT".toList then .ok 1
  else if option = "LIMIT".toList then .ok 2
  else if option = "PARAMS".toList then
    match (args[i + 1]?).bind fun a ↦ parseU64 (fromUtf8Lossy a) with
    | some n => if n % 2 = 0 then .ok (n + 1) else .error (refuse s!"odd PARAMS count {n}")
    | none => .error (refuse "PARAMS without a count")
  else .error (refuse s!"unexpected argument {debug option}")

/-- One round of the loop, to the next position or to the result. -/
def scanStep (i : ℕ) : ℕ ⊕ Except String Unit :=
  match args[i]? with
  | none => .inr (.ok ())
  | some arg =>
    match operandCount debug args i (optionName arg) with
    | .error e => .inr (.error e)
    | .ok operands =>
      if args.length ≤ (i + operands) % usizeSize then
        .inr (.error (refuse s!"{String.ofList (optionName arg)} is missing operands"))
      else .inl ((i + (1 + operands) % usizeSize) % usizeSize)

/-- The result, if it is there after that many rounds. -/
def checkRedisCommand (rounds : ℕ) : Option (Except String Unit) :=
  match args with
  | command :: _ :: query :: _ =>
    if !isSearch command then some (.error (refuse "expected FT.SEARCH <index> <query>"))
    else match checkRedisQuery debug (fromUtf8Lossy query) with
      | .error e => some (.error e)
      | .ok () => run (scanStep debug args) rounds 3
  | _ => some (.error (refuse "expected FT.SEARCH <index> <query>"))

end Code

/-! ## The grammar -/

/-- The exact value of a numeral. -/
def naturalOf (arg : Bytes) : Option ℕ := parseDigits (stripPlus (fromUtf8Lossy arg))

/-- An option and its operands. -/
inductive Takes (arg : Bytes) : List Bytes → Prop
  | nocontent (h : optionName arg = "NOCONTENT".toList) : Takes arg []
  /-- Not a dialect that implies `WITHOUTCOUNT`. -/
  | dialect (d : Bytes) (h : optionName arg = "DIALECT".toList)
      (hd : ∀ n, parseU32 (fromUtf8Lossy d) = some n → n < 4) : Takes arg [d]
  | timeout (t : Bytes) (h : optionName arg = "TIMEOUT".toList) : Takes arg [t]
  | limit (o n : Bytes) (h : optionName arg = "LIMIT".toList) : Takes arg [o, n]
  | params (count : Bytes) (operands : List Bytes) (h : optionName arg = "PARAMS".toList)
      (hcount : naturalOf count = some operands.length) (heven : Even operands.length) :
      Takes arg (count :: operands)

/-- Options, each with its operands. -/
inductive Options : List Bytes → Prop
  | nil : Options []
  | cons {arg : Bytes} {operands rest : List Bytes} (h : Takes arg operands)
      (hrest : Options rest) : Options (arg :: (operands ++ rest))

/-- `FT.SEARCH`, an index and a query without a vector clause. -/
def HasHeader (args : List Bytes) : Prop :=
  ∃ command index query rest, args = command :: index :: query :: rest ∧
    isSearch command = true ∧ ¬"=>".toList <:+: fromUtf8Lossy query ∧
    ¬"VECTOR_RANGE".toList <:+: (fromUtf8Lossy query).map Char.toUpper

/-- The metadata commands. -/
def InGrammar (args : List Bytes) : Prop := HasHeader args ∧ Options (args.drop 3)

/-! ## One option -/

section Counts

variable {debug : Text → String} {args : List Bytes} {i n : ℕ}

theorem parseU64_eq (t : Text) :
    parseU64 t = (parseDigits (stripPlus t)).filter fun n ↦ n < 2 ^ 64 := by
  rw [parseU64, parseDigits]
  dsimp only
  split_ifs with h hlt
  · rfl
  · rw [Option.filter_some, decide_eq_true hlt, if_pos rfl]
  · rw [Option.filter_some, decide_eq_false hlt, if_neg Bool.false_ne_true]

theorem parseU64_eq_some {arg : Bytes} :
    parseU64 (fromUtf8Lossy arg) = some n ↔ naturalOf arg = some n ∧ n < usizeSize := by
  rw [parseU64_eq, Option.filter_eq_some_iff, decide_eq_true_eq]
  rfl

/-- When an option has a number of operands. -/
inductive Counts (args : List Bytes) (i : ℕ) (option : Text) : ℕ → Prop
  | nocontent (h : option = "NOCONTENT".toList) : Counts args i option 0
  | dialect (h : option = "DIALECT".toList)
      (hd : ∀ a ∈ args[i + 1]?, ∀ d, parseU32 (fromUtf8Lossy a) = some d → d < 4) :
      Counts args i option 1
  | timeout (h : option = "TIMEOUT".toList) : Counts args i option 1
  | limit (h : option = "LIMIT".toList) : Counts args i option 2
  | params {a : Bytes} {n : ℕ} (h : option = "PARAMS".toList) (ha : args[i + 1]? = some a)
      (hn : naturalOf a = some n) (hlt : n < usizeSize) (heven : Even n) :
      Counts args i option (n + 1)

theorem operandCount_eq_ok {option : Text} :
    operandCount debug args i option = .ok n ↔ Counts args i option n := by
  constructor
  · intro h
    rw [operandCount] at h
    split_ifs at h with hnocontent hdialect htimeout hlimit hparams
    · cases h
      exact .nocontent hnocontent
    · cases hd : (args[i + 1]?).bind fun a ↦ parseU32 (fromUtf8Lossy a) with
      | none =>
          rw [hd] at h
          cases h
          refine .dialect hdialect fun a ha d hparse ↦ ?_
          rw [ha, Option.bind_some, hparse] at hd
          cases hd
      | some d =>
          rw [hd] at h
          dsimp only at h
          split_ifs at h with hfour
          cases h
          refine .dialect hdialect fun a ha d' hparse ↦ ?_
          rw [ha, Option.bind_some, hparse] at hd
          cases hd
          exact not_le.mp hfour
    · cases h
      exact .timeout htimeout
    · cases h
      exact .limit hlimit
    · cases hn : (args[i + 1]?).bind fun a ↦ parseU64 (fromUtf8Lossy a) with
      | none =>
          rw [hn] at h
          cases h
      | some m =>
          rw [hn] at h
          dsimp only at h
          split_ifs at h with heven
          cases h
          obtain ⟨a, ha, hparse⟩ := Option.bind_eq_some_iff.mp hn
          obtain ⟨hnatural, hlt⟩ := parseU64_eq_some.mp hparse
          exact .params hparams ha hnatural hlt (Nat.even_iff.mpr heven)
  · rintro (rfl | ⟨rfl, hd⟩ | rfl | rfl | ⟨rfl, ha, hn, hlt, heven⟩)
    · rfl
    · rw [operandCount, if_neg (by decide), if_pos rfl]
      cases hparse : (args[i + 1]?).bind fun a ↦ parseU32 (fromUtf8Lossy a) with
      | none => rfl
      | some d =>
          obtain ⟨a, ha, hd'⟩ := Option.bind_eq_some_iff.mp hparse
          exact if_neg (not_le.mpr (hd a ha d hd'))
    · rfl
    · rfl
    · rw [operandCount, if_neg (by decide), if_neg (by decide), if_neg (by decide),
        if_neg (by decide), if_pos rfl, ha, Option.bind_some, parseU64_eq_some.mpr ⟨hn, hlt⟩]
      exact if_pos (Nat.even_iff.mp heven)

theorem Counts.lt {option : Text} (h : Counts args i option n) : n < usizeSize := by
  cases h with
  | nocontent _ => decide
  | dialect _ _ => decide
  | timeout _ => decide
  | limit _ => decide
  | params _ _ _ hlt heven =>
      rw [usizeSize] at hlt ⊢
      have hparity := Nat.even_iff.mp heven
      omega

/-- An option takes the operands it has a number of, if they exist. -/
theorem takes_iff_counts {arg : Bytes} {tail : List Bytes} (hlen : args.length < usizeSize)
    (hdrop : args.drop i = arg :: tail) (hn : n ≤ tail.length) :
    Takes arg (tail.take n) ↔ Counts args i (optionName arg) n := by
  have hnext : ∀ j, tail[j]? = args[i + 1 + j]? := by
    intro j
    have hget : (args.drop i)[j + 1]? = tail[j]? := by rw [hdrop, List.getElem?_cons_succ]
    rw [← hget, List.getElem?_drop, Nat.add_assoc, Nat.add_comm 1 j]
  have htail : tail.length < args.length := by
    have hle : (args.drop i).length ≤ args.length := (List.drop_sublist i args).length_le
    rw [hdrop] at hle
    exact hle
  constructor
  · intro h
    generalize hops : tail.take n = ops at h
    have hcount : ops.length = n := by rw [← hops, List.length_take_of_le hn]
    have hfirst : 0 < n → ops[0]? = args[i + 1]? := by
      intro hpos
      rw [← hops, List.getElem?_take_of_lt hpos]
      exact hnext 0
    subst hcount
    cases h with
    | nocontent h => exact .nocontent h
    | dialect d h hd =>
        refine .dialect h fun a ha ↦ ?_
        cases (hfirst Nat.one_pos).trans ha
        exact hd
    | timeout t h => exact .timeout h
    | limit o n h => exact .limit h
    | params count operands h hvalue heven =>
        have hlt : operands.length < usizeSize :=
          (Nat.lt_succ_self _).trans_le (hn.trans (htail.trans hlen).le)
        exact .params h (hfirst (Nat.succ_pos _)).symm hvalue hlt heven
  · intro h
    cases h with
    | nocontent h => exact .nocontent h
    | dialect h hd =>
        obtain ⟨d, rest, rfl⟩ := List.exists_cons_of_length_pos hn
        exact .dialect d h (hd d (hnext 0).symm)
    | timeout h =>
        obtain ⟨t, rest, rfl⟩ := List.exists_cons_of_length_pos hn
        exact .timeout t h
    | limit h =>
        obtain ⟨o, rest, rfl⟩ := List.exists_cons_of_length_pos (Nat.zero_lt_of_lt hn)
        obtain ⟨m, rest, rfl⟩ := List.exists_cons_of_length_pos (Nat.le_of_succ_le_succ hn)
        exact .limit o m h
    | @params a m h ha hvalue hlt heven =>
        obtain ⟨count, rest, rfl⟩ := List.exists_cons_of_length_pos (Nat.zero_lt_of_lt hn)
        cases ha.symm.trans (hnext 0).symm
        have hm : (rest.take m).length = m := List.length_take_of_le (Nat.le_of_succ_le_succ hn)
        exact .params a (rest.take m) h (by rw [hm]; exact hvalue) (by rw [hm]; exact heven)

end Counts

/-! ## The reading -/

section Reading

variable (args : List Bytes)

/-- The operands of an option exist, and the reading goes on behind them. -/
def Fits (i j : ℕ) : Prop :=
  ∃ arg n, args[i]? = some arg ∧ Counts args i (optionName arg) n ∧ i + n < args.length ∧
    j = i + 1 + n

/-- The operands of an option would end beyond the word size, and the reading goes on where the
wrapped sum points. -/
def Wraps (i j : ℕ) : Prop :=
  ∃ arg n, args[i]? = some arg ∧ Counts args i (optionName arg) n ∧ usizeSize ≤ i + n ∧
    j = i + 1 + n - usizeSize

/-- An argument that is no option, an option that is refused, or one whose operands are
missing. -/
def Refused (i : ℕ) : Prop :=
  ∃ arg, args[i]? = some arg ∧ ∀ n, Counts args i (optionName arg) n →
    args.length ≤ i + n ∧ i + n < usizeSize

variable {args} {debug : Text → String} {i j : ℕ}

theorem lt_of_get {arg : Bytes} (h : args[i]? = some arg) : i < args.length :=
  (List.getElem?_eq_some_iff.mp h).1

theorem scanStep_of_counts {arg : Bytes} {n : ℕ} (harg : args[i]? = some arg)
    (h : Counts args i (optionName arg) n) :
    scanStep debug args i =
      if args.length ≤ (i + n) % usizeSize then
        .inr (.error (refuse s!"{String.ofList (optionName arg)} is missing operands"))
      else .inl ((i + (1 + n) % usizeSize) % usizeSize) := by
  rw [scanStep, harg]
  dsimp only
  rw [operandCount_eq_ok.mpr h]

/-- The ways one round can go. -/
theorem scanStep_cases (hlen : args.length < usizeSize) (debug : Text → String) (i : ℕ) :
    (args.length ≤ i ∧ scanStep debug args i = .inr (.ok ())) ∨
    (Refused args i ∧ ∃ e, scanStep debug args i = .inr (.error e)) ∨
    ∃ j, (Fits args i j ∨ Wraps args i j) ∧ scanStep debug args i = .inl j := by
  rw [usizeSize] at hlen
  cases harg : args[i]? with
  | none =>
      refine .inl ⟨List.getElem?_eq_none_iff.mp harg, ?_⟩
      rw [scanStep, harg]
  | some arg =>
      have hi := lt_of_get harg
      cases hcount : operandCount debug args i (optionName arg) with
      | error e =>
          refine .inr (.inl ⟨⟨arg, harg, fun n hn ↦ ?_⟩, e, ?_⟩)
          · rw [operandCount_eq_ok.mpr hn] at hcount
            cases hcount
          · rw [scanStep, harg]
            dsimp only
            rw [hcount]
      | ok n =>
          have hn := operandCount_eq_ok.mp hcount
          have hlt : n < 2 ^ 64 := hn.lt
          rw [scanStep_of_counts harg hn, usizeSize]
          rcases Nat.lt_or_ge (i + n) args.length with hfits | hmissing
          · refine .inr (.inr ⟨i + 1 + n, .inl ⟨arg, n, harg, hn, hfits, rfl⟩, ?_⟩)
            have hsum : (i + n) % 2 ^ 64 = i + n := Nat.mod_eq_of_lt (hfits.trans hlen)
            have hnext : (i + (1 + n) % 2 ^ 64) % 2 ^ 64 = i + 1 + n := by omega
            rw [hsum, if_neg (not_le.mpr hfits), hnext]
          · rcases Nat.lt_or_ge (i + n) (2 ^ 64) with hsmall | hwraps
            · refine .inr (.inl ⟨⟨arg, harg, fun m hm ↦ ?_⟩, _, if_pos ?_⟩)
              · cases (operandCount_eq_ok.mpr hm).symm.trans hcount
                exact ⟨hmissing, hsmall⟩
              · rwa [Nat.mod_eq_of_lt hsmall]
            · refine .inr (.inr ⟨i + 1 + n - usizeSize, .inr ⟨arg, n, harg, hn, hwraps, rfl⟩, ?_⟩)
              have hsum : (i + n) % 2 ^ 64 < args.length := by omega
              have hnext : (i + (1 + n) % 2 ^ 64) % 2 ^ 64 = i + 1 + n - 2 ^ 64 := by omega
              rw [if_neg (not_le.mpr hsum), hnext, usizeSize]

theorem counts_unique {option : Text} {m n : ℕ} (hm : Counts args i option m)
    (hn : Counts args i option n) : m = n :=
  Except.ok.inj (((@operandCount_eq_ok (fun _ ↦ "") args i m option).mpr hm).symm.trans
    (operandCount_eq_ok.mpr hn))

theorem not_refused (h : Fits args i j ∨ Wraps args i j) :
    ¬Refused args i := by
  rintro ⟨arg, harg, hrefused⟩
  rcases h with ⟨arg', n, harg', hn, hfits, -⟩ | ⟨arg', n, harg', hn, hwraps, -⟩
  · cases harg.symm.trans harg'
    exact not_lt.mpr (hrefused n hn).1 hfits
  · cases harg.symm.trans harg'
    exact not_lt.mpr hwraps (hrefused n hn).2

theorem target_unique {j' : ℕ} (hlen : args.length < usizeSize)
    (h : Fits args i j ∨ Wraps args i j) (h' : Fits args i j' ∨ Wraps args i j') : j = j' := by
  have hsame : ∀ {arg arg' m n}, args[i]? = some arg → args[i]? = some arg' →
      Counts args i (optionName arg) m → Counts args i (optionName arg') n → m = n := by
    intro arg arg' m n harg harg' hm hn
    cases harg.symm.trans harg'
    exact counts_unique hm hn
  rcases h with ⟨arg, n, harg, hn, hend, hj⟩ | ⟨arg, n, harg, hn, hend, hj⟩ <;>
    rcases h' with ⟨arg', m, harg', hm, hend', hj'⟩ | ⟨arg', m, harg', hm, hend', hj'⟩ <;>
    have hnm := hsame harg harg' hn hm
  · rw [hj, hj', hnm]
  · exact absurd (hend'.trans (hnm ▸ hend).le) (not_le.mpr hlen)
  · exact absurd (hend.trans (hnm ▸ hend').le) (not_le.mpr hlen)
  · rw [hj, hj', hnm]

theorem next_iff (hlen : args.length < usizeSize) :
    Next (scanStep debug args) i j ↔ Fits args i j ∨ Wraps args i j := by
  rcases scanStep_cases hlen debug i with ⟨hi, hstep⟩ | ⟨hrefused, e, hstep⟩ | ⟨j', hj', hstep⟩
  · rw [Next, hstep]
    apply iff_of_false
    · rintro ⟨⟩
    · rintro (⟨arg, n, harg, -⟩ | ⟨arg, n, harg, -⟩) <;> exact not_lt.mpr hi (lt_of_get harg)
  · rw [Next, hstep]
    apply iff_of_false
    · rintro ⟨⟩
    · exact fun h ↦ not_refused h hrefused
  · rw [Next, hstep]
    constructor
    · rintro ⟨⟩
      exact hj'
    · exact fun h ↦ congrArg Sum.inl (target_unique hlen hj' h)

theorem path_iff (hlen : args.length < usizeSize) :
    Path (scanStep debug args) i j ↔
      Relation.ReflTransGen (fun i j ↦ Fits args i j ∨ Wraps args i j) i j := by
  have hsame : Next (scanStep debug args) = fun i j ↦ Fits args i j ∨ Wraps args i j := by
    funext i j
    exact propext (next_iff hlen)
  change Relation.ReflTransGen (Next (scanStep debug args)) i j ↔ _
  rw [hsame]

/-- The options of the grammar are read to the end. -/
theorem options_drop_iff (hlen : args.length < usizeSize) (hi : i ≤ args.length) :
    Options (args.drop i) ↔ Relation.ReflTransGen (Fits args) i args.length := by
  constructor
  · intro h
    generalize hdrop : args.drop i = tail at h
    induction h generalizing i with
    | nil =>
        have hend : args.length ≤ i := List.drop_eq_nil_iff.mp hdrop
        rw [le_antisymm hi hend]
    | @cons arg operands rest htakes _ ih =>
        have hlt : i < args.length := by
          by_contra hge
          rw [List.drop_eq_nil_iff.mpr (not_lt.mp hge)] at hdrop
          cases hdrop
        have harg : args[i]? = some arg := by
          have hhead := congrArg List.head? hdrop
          rwa [List.head?_drop] at hhead
        have hlength : args.length - i = 1 + (operands.length + rest.length) := by
          have hsize := congrArg List.length hdrop
          rw [List.length_drop, List.length_cons, List.length_append, Nat.add_comm] at hsize
          exact hsize
        have hcount : Counts args i (optionName arg) operands.length := by
          refine (takes_iff_counts hlen hdrop ?_).mp ?_
          · rw [List.length_append]
            exact Nat.le_add_right _ _
          · rwa [List.take_left]
        have hrest : args.drop (i + 1 + operands.length) = rest := by
          rw [Nat.add_assoc, ← List.drop_drop, hdrop, Nat.add_comm 1, List.drop_succ_cons,
            List.drop_left]
        refine .head ⟨arg, _, harg, hcount, ?_, rfl⟩ (ih ?_ hrest)
        · omega
        · omega
  · intro h
    induction h using Relation.ReflTransGen.head_induction_on with
    | refl =>
        rw [List.drop_length]
        exact .nil
    | head hfits _ ih =>
        obtain ⟨arg, n, harg, hn, hfit, rfl⟩ := hfits
        obtain ⟨hlt, rfl⟩ := List.getElem?_eq_some_iff.mp harg
        have hdrop := List.drop_eq_getElem_cons hlt
        have htail := takes_iff_counts hlen hdrop (by rw [List.length_drop]; omega) |>.mpr hn
        have hoptions := Options.cons htail (ih (by omega))
        rwa [← List.drop_drop (i := n), List.take_append_drop, ← hdrop] at hoptions

end Reading

/-! ## The whole command -/

section Command

variable (debug : Text → String) (args : List Bytes)

/-- The check comes to a result. -/
def CheckEnds (r : Except String Unit) : Prop :=
  ∃ rounds, checkRedisCommand debug args rounds = some r

/-- The check ends, and accepts the metadata commands only. -/
def ChecksGrammar : Prop :=
  (∃ r, CheckEnds debug args r) ∧ (CheckEnds debug args (.ok ()) ↔ InGrammar args)

/-- Where the reading comes before any count whose operands end beyond the word size. -/
def NeverWraps : Prop :=
  ∀ i j, Relation.ReflTransGen (Fits args) 3 i → ¬Wraps args i j

/-- A reading that goes on where wrapped sums point comes to an argument that is refused. -/
def EndsRefused : Prop :=
  ∃ i, Relation.ReflTransGen (fun i j ↦ Fits args i j ∨ Wraps args i j) 3 i ∧ Refused args i

variable {debug args}

theorem checkRedisQuery_eq_ok {query : Text} :
    checkRedisQuery debug query = .ok () ↔
      ¬"=>".toList <:+: query ∧ ¬"VECTOR_RANGE".toList <:+: query.map Char.toUpper := by
  rw [checkRedisQuery, ← containsSub_iff, ← containsSub_iff, ← not_or, ← Bool.or_eq_true]
  split_ifs with h
  · apply iff_of_false
    · rintro ⟨⟩
    · exact not_not.mpr h
  · exact iff_of_true rfl h

theorem checkEnds_iff_of_header (h : HasHeader args) {r : Except String Unit} :
    CheckEnds debug args r ↔ Ends (scanStep debug args) 3 r := by
  obtain ⟨command, index, query, rest, rfl, hsearch, hquery⟩ := h
  refine exists_congr fun rounds ↦ ?_
  rw [checkRedisCommand, hsearch, checkRedisQuery_eq_ok.mpr hquery]
  rfl

theorem checkEnds_iff_of_not_header (h : ¬HasHeader args) :
    ∃ e, ∀ r, CheckEnds debug args r ↔ r = .error e := by
  have hconst : ∃ e, ∀ rounds, checkRedisCommand debug args rounds = some (.error e) := by
    rcases args with _ | ⟨command, _ | ⟨index, _ | ⟨query, rest⟩⟩⟩
    · exact ⟨_, fun _ ↦ rfl⟩
    · exact ⟨_, fun _ ↦ rfl⟩
    · exact ⟨_, fun _ ↦ rfl⟩
    · simp only [checkRedisCommand]
      cases hsearch : isSearch command with
      | false => exact ⟨_, fun _ ↦ rfl⟩
      | true =>
          cases hquery : checkRedisQuery debug (fromUtf8Lossy query) with
          | error e => exact ⟨e, fun _ ↦ rfl⟩
          | ok _ =>
              exact absurd ⟨command, index, query, rest, rfl, hsearch,
                checkRedisQuery_eq_ok.mp hquery⟩ h
  obtain ⟨e, he⟩ := hconst
  refine ⟨e, fun r ↦ ?_⟩
  constructor
  · rintro ⟨rounds, hr⟩
    exact Option.some_inj.mp (hr.symm.trans (he rounds))
  · rintro rfl
    exact ⟨0, he 0⟩

theorem length_of_header (h : HasHeader args) : 3 ≤ args.length := by
  obtain ⟨command, index, query, rest, rfl, -⟩ := h
  exact Nat.le_add_left 3 rest.length

theorem not_wraps_of_fits {i j j' : ℕ} (hlen : args.length < usizeSize) (h : Fits args i j) :
    ¬Wraps args i j' := by
  rintro ⟨arg, n, harg, hn, hwraps, -⟩
  obtain ⟨arg', m, harg', hm, hfits, -⟩ := h
  cases harg.symm.trans harg'
  rw [counts_unique hm hn] at hfits
  exact not_lt.mpr (hwraps.trans hfits.le) hlen

theorem Fits.rightUnique (hlen : args.length < usizeSize) : Relator.RightUnique (Fits args) :=
  fun _ _ _ hj hj' ↦ target_unique hlen (.inl hj) (.inl hj')

/-- The reading stays within the arguments. -/
theorem le_length_of_path {i : ℕ} (hlen : args.length < usizeSize) (hsize : 3 ≤ args.length)
    (h : Path (scanStep debug args) 3 i) : i ≤ args.length := by
  rw [path_iff hlen] at h
  induction h with
  | refl => exact hsize
  | tail _ hnext _ =>
      rcases hnext with ⟨arg, n, harg, hn, hfits, hj⟩ | ⟨arg, n, harg, hn, hwraps, hj⟩
      · omega
      · have hi := lt_of_get harg
        have hlt := hn.lt
        omega

theorem ends_ok_iff (hlen : args.length < usizeSize) (hsize : 3 ≤ args.length) :
    Ends (scanStep debug args) 3 (.ok ()) ↔ Path (scanStep debug args) 3 args.length := by
  have hend : scanStep debug args args.length = .inr (.ok ()) := by
    rw [scanStep, List.getElem?_eq_none le_rfl]
  rw [ends_iff]
  constructor
  · rintro ⟨i, hpath, hstep⟩
    rcases scanStep_cases hlen debug i with ⟨hi, -⟩ | ⟨-, e, he⟩ | ⟨j, -, hj⟩
    · rwa [le_antisymm hi (le_length_of_path hlen hsize hpath)]
    · cases hstep.symm.trans he
    · cases hstep.symm.trans hj
  · exact fun hpath ↦ ⟨_, hpath, hend⟩

theorem ends_error_iff (hlen : args.length < usizeSize) :
    (∃ e, Ends (scanStep debug args) 3 (.error e)) ↔ EndsRefused args := by
  simp only [ends_iff, EndsRefused, ← @path_iff args debug _ _ hlen]
  rw [exists_comm]
  refine exists_congr fun i ↦ ?_
  rw [exists_and_left]
  refine and_congr_right fun _ ↦ ?_
  rcases scanStep_cases hlen debug i with ⟨hi, hok⟩ | ⟨hrefused, he⟩ | ⟨j, hj, hnext⟩
  · apply iff_of_false
    · rintro ⟨e, he⟩
      cases hok.symm.trans he
    · rintro ⟨arg, harg, -⟩
      exact not_lt.mpr hi (lt_of_get harg)
  · exact iff_of_true he hrefused
  · apply iff_of_false
    · rintro ⟨e, he⟩
      cases hnext.symm.trans he
    · exact not_refused hj

/-- A reading that is never wrapped goes on and on. -/
theorem fits_of_path {i : ℕ} (hlen : args.length < usizeSize) (h : NeverWraps args)
    (hpath : Path (scanStep debug args) 3 i) : Relation.ReflTransGen (Fits args) 3 i := by
  rw [path_iff hlen] at hpath
  induction hpath with
  | refl => exact .refl
  | tail _ hnext ih => exact ih.tail (hnext.resolve_right (h _ _ ih))

theorem path_of_fits {i : ℕ} (hlen : args.length < usizeSize)
    (h : Relation.ReflTransGen (Fits args) 3 i) : Path (scanStep debug args) 3 i := by
  rw [path_iff hlen]
  induction h with
  | refl => exact .refl
  | tail _ hfits ih => exact ih.tail (.inl hfits)

/-- The scan of the options. -/
theorem ends_and_iff (debug : Text → String) (hlen : args.length < usizeSize)
    (hsize : 3 ≤ args.length) :
    ((∃ r, Ends (scanStep debug args) 3 r) ∧
      (Ends (scanStep debug args) 3 (.ok ()) ↔ Options (args.drop 3))) ↔
      NeverWraps args ∨ EndsRefused args := by
  rw [options_drop_iff hlen hsize]
  constructor
  · rintro ⟨⟨r, hr⟩, hgrammar⟩
    rw [or_iff_not_imp_right, ← @ends_error_iff debug args hlen]
    intro hnot i j hpath hwraps
    have hok : Ends (scanStep debug args) 3 (.ok ()) := by
      cases r with
      | error e => exact absurd ⟨e, hr⟩ hnot
      | ok _ => exact hr
    -- the reading of the grammar goes through the option that wraps
    have hlt : i < args.length := by
      obtain ⟨arg, n, harg, -⟩ := hwraps
      exact lt_of_get harg
    have hend : ∀ k, ¬Fits args args.length k := by
      rintro k ⟨arg, n, harg, -⟩
      exact lt_irrefl _ (lt_of_get harg)
    rcases (hgrammar.mp hok).total_of_right_unique (Fits.rightUnique hlen) hpath with h | h
    · rcases h.cases_head with heq | ⟨k, hk, -⟩
      · exact hlt.ne heq.symm
      · exact hend k hk
    · rcases h.cases_head with heq | ⟨k, hk, -⟩
      · exact hlt.ne heq
      · exact not_wraps_of_fits hlen hk hwraps
  · rintro (hnever | hrefused)
    · constructor
      · refine @exists_ends _ _ _ _ (Path (scanStep debug args) 3) (fun i ↦ args.length - i)
          (fun i j hi hnext ↦ ⟨hi.tail hnext, ?_⟩) .refl
        have hfits := ((next_iff hlen).mp hnext).resolve_right
          (hnever _ _ (fits_of_path hlen hnever hi))
        obtain ⟨arg, n, -, -, hend, rfl⟩ := hfits
        omega
      · rw [ends_ok_iff hlen hsize]
        exact ⟨fits_of_path hlen hnever, path_of_fits hlen⟩
    · obtain ⟨e, he⟩ := (@ends_error_iff debug args hlen).mpr hrefused
      refine ⟨⟨_, he⟩, iff_of_false (fun hok ↦ ?_) fun hfits ↦ ?_⟩
      · cases hok.unique he
      · cases ((ends_ok_iff hlen hsize).mpr (path_of_fits hlen hfits)).unique he

/-- The check of a command ends, and accepts the grammar, exactly when the options are read
before any count makes a sum wrap, or when the arguments from there on are refused. -/
theorem checkRedisCommand_iff (debug : Text → String) (c : RedisCommand) :
    ChecksGrammar debug c.args ↔
      (HasHeader c.args → NeverWraps c.args ∨ EndsRefused c.args) := by
  by_cases hheader : HasHeader c.args
  · rw [ChecksGrammar, InGrammar, and_iff_right hheader, imp_iff_right hheader]
    simp only [checkEnds_iff_of_header hheader]
    exact ends_and_iff debug c.length_lt (length_of_header hheader)
  · obtain ⟨e, he⟩ := @checkEnds_iff_of_not_header debug _ hheader
    refine iff_of_true ⟨⟨_, (he _).mpr rfl⟩, ?_⟩ fun h ↦ absurd h hheader
    rw [he]
    exact iff_of_false (by rintro ⟨⟩) fun h ↦ hheader h.1

/-- A count that is two less than the word size. -/
def loopingCommand : RedisCommand where
  args := ["FT.SEARCH", "idx", "*", "PARAMS", "18446744073709551614"].map fun s ↦
    asciiBytes s.toList
  length_lt := Nat.le_of_ble_eq_true rfl

/-- The scan is sent back to the option that it has just read. -/
theorem checkRedisCommand_loops : ¬∃ debug r, CheckEnds debug loopingCommand.args r := by
  rintro ⟨debug, r, hends⟩
  have hheader : HasHeader loopingCommand.args :=
    ⟨_, _, _, _, rfl, by decide, by decide, by decide⟩
  have hcount : Counts loopingCommand.args 3 "PARAMS".toList (18446744073709551614 + 1) :=
    .params rfl rfl (by decide +kernel) (by decide) (by decide)
  have hname : optionName (asciiBytes "PARAMS".toList) = "PARAMS".toList := by decide +kernel
  have hwraps : Wraps loopingCommand.args 3 3 := ⟨_, _, rfl, hname ▸ hcount, by decide, by decide⟩
  rw [checkEnds_iff_of_header hheader] at hends
  exact not_ends_of_loop ((next_iff loopingCommand.length_lt).mpr (.inr hwraps)) hends

end Command

end VectorDbBenchmark.FilterOnly
