import Mathlib.Data.Finset.Card
import VectorDbBenchmark.Kit.Glob
import VectorDbBenchmark.Kit.Utf8
import VectorDbBenchmark.Kit.Walk
import VectorDbBenchmark.RedisTransport.Topology

/-!
# The scan over a prefix

`scan_prefix`, `PrefixFingerprints` and `escape_glob` of `src/redis_transport.rs`.  What the
servers reply, what the clock shows and whether an allocation succeeds are arbitrary; the loop of
one target is a walk, which is over when its fuel is more than the pages it may read.
-/

namespace VectorDbBenchmark.RedisTransport

open Kit

structure ScanLimits where
  timeoutSecs : ℕ
  maxKeys : ℕ
  maxFingerprintBytes : ℕ

namespace ScanLimits

def asJson (limits : ScanLimits) : String :=
  s!"\x7b\"max_fingerprint_bytes\":{limits.maxFingerprintBytes}," ++
    s!"\"max_keys\":{limits.maxKeys},\"timeout_secs\":{limits.timeoutSecs}\x7d"

/-- The description and the detail of the error. -/
def failure (limits : ScanLimits) (reason : String) : String :=
  s!"Prefix scan resource limit exceeded: {reason}; " ++
    s!"collection_params.prefix_scan_limits={limits.asJson}"

end ScanLimits

/-- One primary, or the only server. -/
abbrev Target := Option (String × UInt16)

/-- `SCAN` with its cursor, its `MATCH` and its `COUNT`. -/
structure ScanCommand where
  cursor : UInt64
  pattern : Text
  count : ℕ

/-- What the scan depends on and does not decide. -/
structure ScanEnv where
  conv : Conversions
  limits : ScanLimits
  sha256 : Bytes → Bytes
  /-- The capacity that `try_reserve(1)` leaves a table of that length and capacity with. -/
  reserve : ℕ → ℕ → Option ℕ
  /-- In cluster mode, what is replied about the topology before the scan and after it. -/
  cluster : Option (TopologyReplies × TopologyReplies)
  /-- The reply to the `n`-th `SCAN`, as a cursor and keys. -/
  reply : ℕ → Target → ScanCommand → Except String (UInt64 × List Bytes)
  /-- What the `n`-th reading of the clock shows, in nanoseconds. -/
  elapsed : ℕ → ℕ

/-! ## Fingerprints -/

/-- The fingerprints so far and the capacity of their table. -/
structure PrefixFingerprints where
  keys : Finset Bytes
  capacity : ℕ

def PrefixFingerprints.new : PrefixFingerprints := ⟨∅, 0⟩

/-- The bytes that the next table may take. -/
def nextTableBytes (capacity : ℕ) : Option ℕ := do
  let n ← checkedAdd capacity 1
  let n ← checkedMul n 2
  checkedMul (max n 4) 32

section Code

variable (env : ScanEnv)

def keyFingerprint (key : Bytes) : Bytes := (env.sha256 key).take 16

def insertFingerprint (s : PrefixFingerprints) (fingerprint : Bytes) :
    Except String PrefixFingerprints :=
  if fingerprint ∈ s.keys then .ok s
  else if env.limits.maxKeys ≤ s.keys.card then .error (env.limits.failure "max_keys reached")
  else if s.keys.card = s.capacity then
    if (nextTableBytes s.capacity).all fun n ↦ env.limits.maxFingerprintBytes < n then
      .error (env.limits.failure "max_fingerprint_bytes would be exceeded by hash-table growth")
    else match env.reserve s.keys.card s.capacity with
      | none => .error (env.limits.failure "fingerprint allocation failed")
      | some capacity => .ok ⟨insert fingerprint s.keys, capacity⟩
  else .ok { s with keys := insert fingerprint s.keys }

def insertKeys (s : PrefixFingerprints) (page : List Bytes) : Except String PrefixFingerprints :=
  page.foldlM (fun s key ↦ insertFingerprint env s (keyFingerprint env key)) s

/-! ## The scan -/

def globChars : List Char := ['*', '?', '[', ']', '\\']

def escapeGlob (pre : Text) : Text :=
  pre.flatMap fun c ↦ if c ∈ globChars then ['\\', c] else [c]

def scanPattern (pre : Text) : Text := escapeGlob pre ++ ['*']

def checkElapsed (reading : ℕ) : Except String Unit :=
  if 10 ^ 9 * env.limits.timeoutSecs ≤ env.elapsed reading then
    .error (env.limits.failure
      "timeout_secs reached; increase the recorded scan limit for this corpus")
  else .ok ()

/-- How many pages of one target are read at most. -/
def pageBudget : ℕ := 1000000

/-- The loop of one target.  `sent` is how many commands were sent so far, to this target or
another one. -/
structure ScanState where
  cursor : UInt64
  seen : Finset UInt64
  sent : ℕ
  keys : PrefixFingerprints

/-- How the loops end, unless with an error. -/
inductive Scanned where
  | found
  | complete (sent : ℕ) (keys : PrefixFingerprints)

variable (stopOnFirst : Bool) (pre : Text)

/-- The reply to the command of one round. -/
def scanPage (target : Target) (s : ScanState) : Except String (UInt64 × List Bytes) := do
  checkElapsed env (2 * s.sent)
  if s.cursor ∈ s.seen ∨ pageBudget < (insert s.cursor s.seen).card then
    .error "Prefix scan exceeded its time/page budget or repeated a cursor"
  else
    let reply ← env.reply s.sent target ⟨s.cursor, scanPattern pre, 1000⟩
    checkElapsed env (2 * s.sent + 1)
    .ok reply

/-- One round of the loop. -/
def scanStep (target : Target) (s : ScanState) : ScanState ⊕ Except String Scanned :=
  match scanPage env pre target s with
  | .error e => .inr (.error e)
  | .ok (next, page) =>
    if stopOnFirst && !page.isEmpty then .inr (.ok .found)
    else match insertKeys env s.keys page with
      | .error e => .inr (.error e)
      | .ok keys =>
        if next = 0 then .inr (.ok (.complete (s.sent + 1) keys))
        else .inl ⟨next, insert s.cursor s.seen, s.sent + 1, keys⟩

/-- The targets one after the other, if each loop is over after that many rounds. -/
def scanTargets (rounds : ℕ) :
    List Target → ℕ → PrefixFingerprints → Option (Except String Scanned)
  | [], sent, keys => some (.ok (.complete sent keys))
  | target :: targets, sent, keys =>
    match Walk.run (scanStep env stopOnFirst pre target) rounds ⟨0, ∅, sent, keys⟩ with
    | some (.ok (.complete sent keys)) => scanTargets rounds targets sent keys
    | result => result

def topologyBefore : Except String (Option (List SlotRange)) :=
  match env.cluster with
  | some (before, _) => (topology env.conv before).map some
  | none => .ok none

def targetsOf : Option (List SlotRange) → List Target
  | some ranges => (primaries ranges).map some
  | none => [none]

/-- The topology has not changed, in cluster mode. -/
def confirmTopology (before : Option (List SlotRange)) : Except String Unit :=
  match before, env.cluster with
  | some before, some (_, after) => do
    let ranges ← topology env.conv after
    ensureSameTopology before ranges
  | _, _ => .ok ()

def finishScan (before : Option (List SlotRange)) : Scanned → Except String ℕ
  | .found => .ok 1
  | .complete sent keys => do
    confirmTopology env before
    checkElapsed env (2 * sent)
    .ok keys.keys.card

def scanPrefix (rounds : ℕ) : Option (Except String ℕ) :=
  match topologyBefore env with
  | .error e => some (.error e)
  | .ok before =>
    (scanTargets env stopOnFirst pre rounds (targetsOf before) 0 .new).map fun result ↦
      result >>= finishScan env before

end Code

/-! ## The pattern -/

theorem toNat_lt_of_mem_globChars : ∀ c ∈ globChars, c.toNat < 128 :=
  forall_mem_of_all (by decide)

theorem toNat_lt_of_mem_globBytes : ∀ b ∈ asciiBytes globChars, b.toNat < 128 :=
  forall_mem_of_all (by decide)

theorem mem_globBytes {c : Char} (hc : c.toNat < 128) :
    UInt8.ofNat c.toNat ∈ asciiBytes globChars ↔ c ∈ globChars := by
  constructor
  · intro h
    obtain ⟨d, hd, heq⟩ := List.mem_map.mp h
    have hdc := asciiBytes_inj
      (List.forall_mem_singleton.mpr (toNat_lt_of_mem_globChars d hd))
      (List.forall_mem_singleton.mpr hc) (congrArg (fun b ↦ [b]) heq)
    rwa [List.singleton_inj.mp hdc] at hd
  · intro h
    exact List.mem_map.mpr ⟨c, h, rfl⟩

theorem utf8Bytes_escapeGlob (pre : Text) :
    utf8Bytes (escapeGlob pre) = Glob.escape (asciiBytes globChars) (utf8Bytes pre) := by
  rw [escapeGlob, utf8Bytes, utf8Bytes, Glob.escape, List.flatMap_assoc, List.flatMap_assoc]
  refine List.flatMap_congr fun c _ ↦ ?_
  rcases Nat.lt_or_ge c.toNat 128 with hc | hc
  · rw [utf8EncodeChar_ascii hc, List.flatMap_singleton, apply_ite (List.flatMap _)]
    refine if_congr (mem_globBytes hc).symm ?_ ?_
    · rw [List.flatMap_cons, List.flatMap_singleton, utf8EncodeChar_ascii hc]
      rfl
    · rw [List.flatMap_singleton, utf8EncodeChar_ascii hc]
  · -- neither the character is escaped nor one of its bytes
    rw [if_neg fun hmem ↦ absurd (toNat_lt_of_mem_globChars c hmem) (not_lt.mpr hc),
      List.flatMap_singleton]
    conv_lhs => rw [← List.flatMap_singleton' (String.utf8EncodeChar c)]
    refine List.flatMap_congr fun b hb ↦ (if_neg fun hmem ↦ ?_).symm
    exact absurd (toNat_lt_of_mem_globBytes b hmem)
      (not_lt.mpr (toNat_of_mem_utf8EncodeChar hc hb))

/-- The pattern that is sent matches the keys that begin with the text. -/
theorem accepts_scanPattern (pre : Text) (key : Bytes) :
    (Glob.parse (utf8Bytes (scanPattern pre))).accepts key = true ↔ utf8Bytes pre <+: key := by
  rw [scanPattern, utf8Bytes_append, utf8Bytes_escapeGlob]
  exact Glob.accepts_escape_star (by decide)

/-! ## One round -/

section Scans

variable {env : ScanEnv} {stopOnFirst : Bool} {pre : Text} {target : Target} {s s' : ScanState}

theorem insertFingerprint_keys {k k' : PrefixFingerprints} {fingerprint : Bytes}
    (h : insertFingerprint env k fingerprint = .ok k') : k'.keys = insert fingerprint k.keys := by
  rw [insertFingerprint] at h
  split_ifs at h with hmem hmax hgrow hbytes
  · cases h
    exact (Finset.insert_eq_of_mem hmem).symm
  · cases hreserve : env.reserve k.keys.card k.capacity with
    | none =>
        rw [hreserve] at h
        cases h
    | some capacity =>
        rw [hreserve] at h
        cases h
        rfl
  · cases h
    rfl

/-- The fingerprints of keys. -/
def fingerprints (env : ScanEnv) (keys : List Bytes) : Finset Bytes :=
  (keys.map (keyFingerprint env)).toFinset

theorem insertKeys_keys {k k' : PrefixFingerprints} {page : List Bytes}
    (h : insertKeys env k page = .ok k') : k'.keys = k.keys ∪ fingerprints env page := by
  induction page generalizing k with
  | nil =>
      cases h
      exact (Finset.union_empty _).symm
  | cons key page ih =>
      rw [insertKeys, List.foldlM_cons] at h
      obtain ⟨k₁, hkey, hpage⟩ := bind_eq_ok.mp h
      rw [ih hpage, insertFingerprint_keys hkey, fingerprints, fingerprints, List.map_cons,
        List.toFinset_cons, Finset.insert_union, Finset.union_insert]

/-- A round that goes on to the next one, or ends its loop: the cursor is new, and the page was
taken up. -/
structure Round (env : ScanEnv) (stopOnFirst : Bool) (pre : Text) (target : Target)
    (s : ScanState) (next : UInt64) (page : List Bytes) (keys : PrefixFingerprints) : Prop where
  cursor_new : s.cursor ∉ s.seen
  budget : (insert s.cursor s.seen).card ≤ pageBudget
  reply : env.reply s.sent target ⟨s.cursor, scanPattern pre, 1000⟩ = .ok (next, page)
  page_empty : stopOnFirst = true → page = []
  keys_eq : keys.keys = s.keys.keys ∪ fingerprints env page

theorem scanPage_eq_ok {next : UInt64} {page : List Bytes}
    (h : scanPage env pre target s = .ok (next, page)) :
    s.cursor ∉ s.seen ∧ (insert s.cursor s.seen).card ≤ pageBudget ∧
      env.reply s.sent target ⟨s.cursor, scanPattern pre, 1000⟩ = .ok (next, page) := by
  rw [scanPage] at h
  obtain ⟨-, -, h⟩ := bind_eq_ok.mp h
  split_ifs at h with hbudget
  obtain ⟨reply, hreply, h⟩ := bind_eq_ok.mp h
  obtain ⟨-, -, h⟩ := bind_eq_ok.mp h
  cases h
  rw [not_or, not_lt] at hbudget
  exact ⟨hbudget.1, hbudget.2, hreply⟩

/-- What a round can do. -/
theorem scanStep_cases (env : ScanEnv) (stopOnFirst : Bool) (pre : Text) (target : Target)
    (s : ScanState) :
    (∃ e, scanStep env stopOnFirst pre target s = .inr (.error e)) ∨
    (stopOnFirst = true ∧ scanStep env stopOnFirst pre target s = .inr (.ok .found)) ∨
    ∃ next page keys, Round env stopOnFirst pre target s next page keys ∧
      scanStep env stopOnFirst pre target s =
        if next = 0 then .inr (.ok (.complete (s.sent + 1) keys))
        else .inl ⟨next, insert s.cursor s.seen, s.sent + 1, keys⟩ := by
  rw [scanStep]
  cases hpage : scanPage env pre target s with
  | error e => exact .inl ⟨e, rfl⟩
  | ok reply =>
      obtain ⟨next, page⟩ := reply
      obtain ⟨hnew, hbudget, hreply⟩ := scanPage_eq_ok hpage
      dsimp only
      by_cases hstop : (stopOnFirst && !page.isEmpty) = true
      · rw [if_pos hstop]
        exact .inr (.inl ⟨(Bool.and_eq_true_iff.mp hstop).1, rfl⟩)
      · rw [if_neg hstop]
        cases hkeys : insertKeys env s.keys page with
        | error e => exact .inl ⟨e, rfl⟩
        | ok keys =>
            refine .inr (.inr ⟨next, page, keys, ⟨hnew, hbudget, hreply, ?_, ?_⟩, rfl⟩)
            · rintro rfl
              simpa using hstop
            · exact insertKeys_keys hkeys

/-- Each round has a new cursor, so that their number is bounded. -/
theorem exists_scan (env : ScanEnv) (stopOnFirst : Bool) (pre : Text) (target : Target)
    (sent : ℕ) (keys : PrefixFingerprints) :
    ∃ result, ∀ rounds, pageBudget < rounds →
      Walk.run (scanStep env stopOnFirst pre target) rounds ⟨0, ∅, sent, keys⟩ = some result := by
  refine @Walk.exists_run _ _ (scanStep env stopOnFirst pre target) ⟨0, ∅, sent, keys⟩
    (fun _ ↦ True) (fun s ↦ pageBudget - s.seen.card) ?_ trivial
  intro s s' _ hnext
  refine ⟨trivial, ?_⟩
  rcases scanStep_cases env stopOnFirst pre target s with
    ⟨e, hstep⟩ | ⟨-, hstep⟩ | ⟨next, page, keys, hround, hstep⟩
  · cases hstep.symm.trans hnext
  · cases hstep.symm.trans hnext
  · have hstate := hstep.symm.trans hnext
    split_ifs at hstate
    cases hstate
    have hcard := Finset.card_insert_of_notMem hround.cursor_new
    have hbudget := hround.budget
    dsimp only
    omega

end Scans

/-! ## Whole scans -/

/-- A command with the reply to it. -/
structure Exchange where
  cursor : UInt64
  next : UInt64
  page : List Bytes

/-- The exchanges with one target from a cursor on, up to a reply with cursor zero. -/
inductive Scans (env : ScanEnv) (pre : Text) (target : Target) :
    ℕ → UInt64 → List Exchange → Prop
  | last {sent cursor page}
      (h : env.reply sent target ⟨cursor, scanPattern pre, 1000⟩ = .ok (0, page)) :
      Scans env pre target sent cursor [⟨cursor, 0, page⟩]
  | more {sent cursor next page xs}
      (h : env.reply sent target ⟨cursor, scanPattern pre, 1000⟩ = .ok (next, page))
      (hnext : next ≠ 0) (hrest : Scans env pre target (sent + 1) next xs) :
      Scans env pre target sent cursor (⟨cursor, next, page⟩ :: xs)

/-- Every target is scanned, from cursor zero to cursor zero and without a repeated cursor. -/
inductive ScansAll (env : ScanEnv) (pre : Text) : ℕ → List Target → List (List Exchange) → Prop
  | nil {sent} : ScansAll env pre sent [] []
  | cons {sent target targets xs xss} (h : Scans env pre target sent 0 xs)
      (hnodup : (xs.map Exchange.cursor).Nodup)
      (hrest : ScansAll env pre (sent + xs.length) targets xss) :
      ScansAll env pre sent (target :: targets) (xs :: xss)

/-- The keys of all pages. -/
def pageKeys (xs : List Exchange) : List Bytes := xs.flatMap Exchange.page

section Complete

variable {env : ScanEnv} {stopOnFirst : Bool} {pre : Text} {rounds : ℕ}

theorem fingerprints_append (env : ScanEnv) (ks ls : List Bytes) :
    fingerprints env (ks ++ ls) = fingerprints env ks ∪ fingerprints env ls := by
  rw [fingerprints, List.map_append, List.toFinset_append, fingerprints, fingerprints]

/-- What a loop that is complete has done since a state. -/
structure Completes (env : ScanEnv) (stopOnFirst : Bool) (pre : Text) (target : Target)
    (s : ScanState) (sent : ℕ) (keys : PrefixFingerprints) (xs : List Exchange) : Prop where
  scans : Scans env pre target s.sent s.cursor xs
  sent_eq : sent = s.sent + xs.length
  nodup : (xs.map Exchange.cursor).Nodup
  cursors_new : ∀ x ∈ xs, x.cursor ∉ s.seen
  keys_eq : keys.keys = s.keys.keys ∪ fingerprints env (pageKeys xs)
  pages_empty : stopOnFirst = true → pageKeys xs = []

theorem Round.completes {target : Target} {s : ScanState} {page : List Bytes}
    {keys : PrefixFingerprints} (h : Round env stopOnFirst pre target s 0 page keys) :
    Completes env stopOnFirst pre target s (s.sent + 1) keys [⟨s.cursor, 0, page⟩] where
  scans := .last h.reply
  sent_eq := rfl
  nodup := List.nodup_singleton _
  cursors_new := List.forall_mem_singleton.mpr h.cursor_new
  keys_eq := by rw [h.keys_eq, pageKeys, List.flatMap_singleton]
  pages_empty hstop := by rw [pageKeys, List.flatMap_singleton, h.page_empty hstop]

theorem Round.completes_cons {target : Target} {s : ScanState} {next : UInt64} {page : List Bytes}
    {keys keys' : PrefixFingerprints} {sent : ℕ} {xs : List Exchange}
    (h : Round env stopOnFirst pre target s next page keys) (hnext : next ≠ 0)
    (hrest : Completes env stopOnFirst pre target
      ⟨next, insert s.cursor s.seen, s.sent + 1, keys⟩ sent keys' xs) :
    Completes env stopOnFirst pre target s sent keys' (⟨s.cursor, next, page⟩ :: xs) where
  scans := .more h.reply hnext hrest.scans
  sent_eq := by
    rw [hrest.sent_eq, List.length_cons]
    dsimp only
    omega
  nodup := by
    rw [List.map_cons, List.nodup_cons]
    refine ⟨fun hmem ↦ ?_, hrest.nodup⟩
    obtain ⟨x, hx, hcursor⟩ := List.mem_map.mp hmem
    exact hrest.cursors_new x hx (hcursor ▸ Finset.mem_insert_self _ _)
  cursors_new := by
    refine List.forall_mem_cons.mpr ⟨h.cursor_new, fun x hx hseen ↦ ?_⟩
    exact hrest.cursors_new x hx (Finset.mem_insert_of_mem hseen)
  keys_eq := by
    rw [hrest.keys_eq, h.keys_eq, pageKeys, pageKeys, List.flatMap_cons, fingerprints_append,
      Finset.union_assoc]
  pages_empty hstop := by
    rw [pageKeys, List.flatMap_cons, h.page_empty hstop, List.nil_append]
    exact hrest.pages_empty hstop

theorem completes_of_run {target : Target} {s : ScanState} {sent : ℕ} {keys : PrefixFingerprints}
    (h : Walk.run (scanStep env stopOnFirst pre target) rounds s =
    some (.ok (.complete sent keys))) :
    ∃ xs, Completes env stopOnFirst pre target s sent keys xs := by
  induction rounds generalizing s with
  | zero => cases h
  | succ rounds ih =>
      rw [Walk.run] at h
      rcases scanStep_cases env stopOnFirst pre target s with
        ⟨e, hstep⟩ | ⟨-, hstep⟩ | ⟨next, page, keys', hround, hstep⟩
      · rw [hstep] at h
        cases h
      · rw [hstep] at h
        cases h
      · by_cases hnext : next = 0
        · rw [hstep, if_pos hnext] at h
          cases h
          rw [hnext] at hround
          exact ⟨_, hround.completes⟩
        · rw [hstep, if_neg hnext] at h
          obtain ⟨xs, hxs⟩ := ih h
          exact ⟨_, hround.completes_cons hnext hxs⟩

/-- Only a scan that stops at the first key may end with one found. -/
theorem stopOnFirst_of_run {target : Target} {s : ScanState}
    (h : Walk.run (scanStep env stopOnFirst pre target) rounds s = some (.ok .found)) :
    stopOnFirst = true := by
  induction rounds generalizing s with
  | zero => cases h
  | succ rounds ih =>
      rw [Walk.run] at h
      rcases scanStep_cases env stopOnFirst pre target s with
        ⟨e, hstep⟩ | ⟨hstop, -⟩ | ⟨next, page, keys', -, hstep⟩
      · rw [hstep] at h
        cases h
      · exact hstop
      · by_cases hnext : next = 0
        · rw [hstep, if_pos hnext] at h
          cases h
        · rw [hstep, if_neg hnext] at h
          exact ih h

/-! ## All targets -/

theorem exists_scanTargets (env : ScanEnv) (stopOnFirst : Bool) (pre : Text)
    (targets : List Target) (sent : ℕ) (keys : PrefixFingerprints) :
    ∃ result, ∀ rounds, pageBudget < rounds →
      scanTargets env stopOnFirst pre rounds targets sent keys = some result := by
  induction targets generalizing sent keys with
  | nil => exact ⟨_, fun _ _ ↦ rfl⟩
  | cons target targets ih =>
      obtain ⟨scanned, hscanned⟩ := exists_scan env stopOnFirst pre target sent keys
      cases scanned with
      | error e =>
          refine ⟨.error e, fun rounds hrounds ↦ ?_⟩
          rw [scanTargets, hscanned rounds hrounds]
      | ok scanned =>
          cases scanned with
          | found =>
              refine ⟨.ok .found, fun rounds hrounds ↦ ?_⟩
              rw [scanTargets, hscanned rounds hrounds]
          | complete sent keys =>
              obtain ⟨result, hresult⟩ := ih sent keys
              refine ⟨result, fun rounds hrounds ↦ ?_⟩
              rw [scanTargets, hscanned rounds hrounds]
              exact hresult rounds hrounds

theorem stopOnFirst_of_scanTargets {targets : List Target} {sent : ℕ} {keys : PrefixFingerprints}
    (h : scanTargets env stopOnFirst pre rounds targets sent keys = some (.ok .found)) :
    stopOnFirst = true := by
  induction targets generalizing sent keys with
  | nil => cases h
  | cons target targets ih =>
      rw [scanTargets] at h
      split at h
      · exact ih h
      · exact stopOnFirst_of_run h

theorem scansAll_of_scanTargets {targets : List Target} {sent sent' : ℕ}
    {keys keys' : PrefixFingerprints}
    (h : scanTargets env stopOnFirst pre rounds targets sent keys =
      some (.ok (.complete sent' keys'))) :
    ∃ xss, ScansAll env pre sent targets xss ∧
      keys'.keys = keys.keys ∪ fingerprints env (pageKeys xss.flatten) ∧
      (stopOnFirst = true → pageKeys xss.flatten = []) := by
  induction targets generalizing sent keys with
  | nil =>
      cases h
      exact ⟨[], .nil, (Finset.union_empty _).symm, fun _ ↦ rfl⟩
  | cons target targets ih =>
      rw [scanTargets] at h
      split at h
      next sent₁ keys₁ hrun =>
        obtain ⟨xs, hxs⟩ := completes_of_run hrun
        obtain ⟨xss, hall, hkeys, hempty⟩ := ih h
        refine ⟨xs :: xss, .cons hxs.scans hxs.nodup (hxs.sent_eq ▸ hall), ?_, ?_⟩
        · rw [hkeys, hxs.keys_eq, List.flatten_cons, pageKeys, pageKeys, pageKeys,
            List.flatMap_append, fingerprints_append, Finset.union_assoc]
        · intro hstop
          rw [List.flatten_cons, pageKeys, List.flatMap_append]
          exact List.append_eq_nil_iff.mpr ⟨hxs.pages_empty hstop, hempty hstop⟩
      next hother =>
        exact absurd h (hother _ _)

theorem exists_scanPrefix (env : ScanEnv) (stopOnFirst : Bool) (pre : Text) :
    ∃ result, ∀ rounds, pageBudget < rounds →
      scanPrefix env stopOnFirst pre rounds = some result := by
  cases hbefore : topologyBefore env with
  | error e =>
      refine ⟨.error e, fun rounds _ ↦ ?_⟩
      rw [scanPrefix, hbefore]
  | ok before =>
      obtain ⟨result, hresult⟩ :=
        exists_scanTargets env stopOnFirst pre (targetsOf before) 0 .new
      refine ⟨result >>= finishScan env before, fun rounds hrounds ↦ ?_⟩
      rw [scanPrefix, hbefore]
      dsimp only
      rw [hresult rounds hrounds]
      rfl

/-- A count is one of a complete scan, or the one for a key that was found. -/
theorem scanPrefix_eq_ok {n : ℕ} (h : scanPrefix env stopOnFirst pre rounds = some (.ok n)) :
    (stopOnFirst = true ∧ n = 1) ∨
    ∃ before xss, topologyBefore env = .ok before ∧ ScansAll env pre 0 (targetsOf before) xss ∧
      n = (fingerprints env (pageKeys xss.flatten)).card ∧
      (stopOnFirst = true → pageKeys xss.flatten = []) := by
  rw [scanPrefix] at h
  cases hbefore : topologyBefore env with
  | error e =>
      rw [hbefore] at h
      cases h
  | ok before =>
      rw [hbefore] at h
      obtain ⟨result, htargets, hfinish⟩ := Option.map_eq_some_iff.mp h
      obtain ⟨scanned, hresult, hfinish⟩ := bind_eq_ok.mp hfinish
      rw [hresult] at htargets
      cases scanned with
      | found =>
          cases hfinish
          exact .inl ⟨stopOnFirst_of_scanTargets htargets, rfl⟩
      | complete sent keys =>
          rw [finishScan] at hfinish
          obtain ⟨-, -, hfinish⟩ := bind_eq_ok.mp hfinish
          obtain ⟨-, -, hfinish⟩ := bind_eq_ok.mp hfinish
          cases hfinish
          obtain ⟨xss, hall, hkeys, hempty⟩ := scansAll_of_scanTargets htargets
          refine .inr ⟨before, xss, rfl, hall, ?_, hempty⟩
          rw [hkeys]
          exact congrArg Finset.card (Finset.empty_union _)

/-- The loops end whatever the servers reply; a full count is the number of fingerprints on all
pages of a scan of every target, no keys are reported only if no page has one, and the pattern
that is sent matches the keys with the prefix. -/
theorem scanPrefix_complete (env : ScanEnv) (pre : Text) :
    (∀ stopOnFirst, ∃ result, ∀ rounds, pageBudget < rounds →
      scanPrefix env stopOnFirst pre rounds = some result) ∧
    (∀ rounds n, scanPrefix env false pre rounds = some (.ok n) →
      ∃ before xss, topologyBefore env = .ok before ∧
        ScansAll env pre 0 (targetsOf before) xss ∧
        n = (fingerprints env (pageKeys xss.flatten)).card) ∧
    (∀ rounds, scanPrefix env true pre rounds = some (.ok 0) →
      ∃ before xss, topologyBefore env = .ok before ∧
        ScansAll env pre 0 (targetsOf before) xss ∧ ∀ xs ∈ xss, ∀ x ∈ xs, x.page = []) ∧
    ∀ key, (Glob.parse (utf8Bytes (scanPattern pre))).accepts key = true ↔
      utf8Bytes pre <+: key := by
  refine ⟨fun stopOnFirst ↦ exists_scanPrefix env stopOnFirst pre, ?_, ?_,
    accepts_scanPattern pre⟩
  · intro rounds n h
    rcases scanPrefix_eq_ok h with ⟨hstop, -⟩ | ⟨before, xss, hbefore, hall, hn, -⟩
    · cases hstop
    · exact ⟨before, xss, hbefore, hall, hn⟩
  · intro rounds h
    rcases scanPrefix_eq_ok h with ⟨-, hzero⟩ | ⟨before, xss, hbefore, hall, -, hempty⟩
    · cases hzero
    · refine ⟨before, xss, hbefore, hall, fun xs hxs x hx ↦ ?_⟩
      exact List.flatMap_eq_nil_iff.mp (hempty rfl) x (List.mem_flatten.mpr ⟨xs, hxs, hx⟩)

/-- One server with two pages that share a key. -/
def twoPages : ScanEnv where
  conv := shapedConversions
  limits := ⟨3600, 200000000, 4294967296⟩
  sha256 := id
  reserve _ capacity := some (max 3 (2 * capacity + 1))
  cluster := none
  reply _ _ command :=
    if command.cursor = 0 then .ok (7, [asciiBytes ['a'], asciiBytes ['b']])
    else .ok (0, [asciiBytes ['b'], asciiBytes ['c']])
  elapsed _ := 0

theorem scanPrefix_complete_twoPages :
    scanPrefix twoPages false [] 3 = some (.ok 3) ∧
    ∃ xss, ScansAll twoPages [] 0 [none] xss ∧
      3 = (fingerprints twoPages (pageKeys xss.flatten)).card := by
  have hscan : scanPrefix twoPages false [] 3 = some (.ok 3) := by decide
  refine ⟨hscan, ?_⟩
  obtain ⟨before, xss, hbefore, hall, hcount⟩ := (scanPrefix_complete twoPages []).2.1 3 3 hscan
  cases hbefore
  exact ⟨xss, hall, hcount⟩

end Complete

end VectorDbBenchmark.RedisTransport
