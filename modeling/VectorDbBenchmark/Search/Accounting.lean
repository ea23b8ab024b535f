import Mathlib.Data.List.Perm.Basic
import VectorDbBenchmark.Search.Model

/-!
# Every ordinal is accounted for

The counter hands out each ordinal once, over-claimed ones included; a worker that is
through with an ordinal below the number to run has it in its log once, and its buffers hold
one sample for each success.  So the counts that are published from the counter agree
with those of the buffers.
-/

namespace VectorDbBenchmark.Search

open Kit Results StartGate

variable {spec : SearchSpec}

/-! ## One worker -/

/-- The ordinal a worker is at. -/
def Pc.held : Pc → List ℕ
  | .claimed idx | .searching idx => [idx]
  | _ => []

def Event.count (fate : Fate) (log : List Event) : ℕ := log.countP (·.fate = fate)

/-- The ordinals that were dispatched. -/
def attemptedOrdinals (log : List Event) : List ℕ :=
  (log.filter (·.fate ≠ .dropped)).map Event.ordinal

/-- The buffers hold what the log tells. -/
structure Samples.Match (spec : SearchSpec) (b : Samples) (log : List Event) : Prop where
  t : b.t.length = Event.count .succeeded log
  p : b.p.length = Event.count .succeeded log
  r : b.r.length = Event.count .succeeded log
  mr : b.mr.length = Event.count .succeeded log
  nd : b.nd.length = Event.count .succeeded log
  dropped : b.dropped = Event.count .dropped log
  cap : spec.capture = true → b.cap.map (·.seq) = attemptedOrdinals log

/-- The books of a worker. -/
structure Worker.Books (spec : SearchSpec) (w : Worker) : Prop where
  /-- An ordinal below the number to run is in the log, or it is the one the worker is at. -/
  ran : w.claims.filter (· < spec.numToRun) = w.log.map Event.ordinal ++ w.pc.held
  samples : w.samples.Match spec w.log

theorem Event.count_append (fate : Fate) (log : List Event) (e : Event) :
    Event.count fate (log ++ [e]) = Event.count fate log + if e.fate = fate then 1 else 0 := by
  rw [Event.count, List.countP_append, List.countP_singleton]
  simp only [decide_eq_true_eq]
  rfl

theorem attemptedOrdinals_append (log : List Event) (e : Event) :
    attemptedOrdinals (log ++ [e]) =
      attemptedOrdinals log ++ if e.fate = .dropped then [] else [e.ordinal] := by
  rw [attemptedOrdinals, List.filter_append, List.map_append, attemptedOrdinals]
  split_ifs with h
  · simp [h]
  · simp [h]

theorem Samples.Match.drop {b : Samples} {log : List Event} (h : b.Match spec log) (idx : ℕ) :
    b.drop.Match spec (log ++ [⟨idx, .dropped⟩]) := by
  constructor
  case cap =>
    intro hcapture
    rw [attemptedOrdinals_append, if_pos rfl, List.append_nil]
    exact h.cap hcapture
  all_goals rw [Event.count_append]
  · exact h.t
  · exact h.p
  · exact h.r
  · exact h.mr
  · exact h.nd
  · exact congrArg (· + 1) h.dropped

theorem Samples.Match.dispatch {b : Samples} {log : List Event} (h : b.Match spec log)
    (plan : OpenLoopPlan) (delay : ℕ) : (b.dispatch plan delay).Match spec log :=
  ⟨h.t, h.p, h.r, h.mr, h.nd, h.dropped, h.cap⟩

theorem Samples.Match.succeed {b : Samples} {log : List Event} (h : b.Match spec log)
    (queryPos idx : ℕ) (truth : List ℤ) (resultIds : List (ℤ × F64)) (queryTime endToEnd : ℚ) :
    (b.succeed spec queryPos idx truth resultIds queryTime endToEnd).Match spec
      (log ++ [⟨idx, .succeeded⟩]) := by
  constructor
  case cap =>
    intro hcapture
    rw [attemptedOrdinals_append, if_neg Fate.noConfusion, Samples.succeed, if_pos hcapture,
      List.map_append, h.cap hcapture]
    rfl
  all_goals rw [Event.count_append]
  case dropped => exact h.dropped
  all_goals rw [Samples.succeed, List.length_append, if_pos rfl]
  · exact congrArg (· + 1) h.t
  · exact congrArg (· + 1) h.p
  · exact congrArg (· + 1) h.r
  · exact congrArg (· + 1) h.mr
  · exact congrArg (· + 1) h.nd

theorem Samples.Match.fail {b : Samples} {log : List Event} (h : b.Match spec log)
    (queryPos idx : ℕ) (queryTime : ℚ) (e : String) :
    (b.fail spec queryPos idx queryTime e).Match spec (log ++ [⟨idx, .failed⟩]) := by
  constructor
  case cap =>
    intro hcapture
    rw [attemptedOrdinals_append, if_neg Fate.noConfusion, Samples.fail, if_pos hcapture,
      List.map_append, h.cap hcapture]
    rfl
  all_goals rw [Event.count_append]
  · exact h.t
  · exact h.p
  · exact h.r
  · exact h.mr
  · exact h.nd
  · exact h.dropped

theorem Worker.Books.new : Worker.new.Books spec :=
  ⟨rfl, rfl, rfl, rfl, rfl, rfl, rfl, fun _ ↦ rfl⟩

/-- A move between places where no ordinal is held. -/
theorem Worker.Books.move {w : Worker} {pc : Pc} (h : w.Books spec) (hw : w.pc.held = [])
    (hpc : pc.held = []) : ({ w with pc } : Worker).Books spec := by
  refine ⟨?_, h.samples⟩
  have hran := h.ran
  rw [hw] at hran
  rw [hpc]
  exact hran

/-- A worker that is at an ordinal is through with it. -/
theorem Worker.Books.settle {w : Worker} {idx : ℕ} (h : w.Books spec) (hpc : w.pc.held = [idx])
    {samples : Samples} {fate : Fate} (hsamples : samples.Match spec (w.log ++ [⟨idx, fate⟩])) :
    ({ w with pc := .checking, samples, log := w.log ++ [⟨idx, fate⟩] } : Worker).Books spec := by
  refine ⟨?_, hsamples⟩
  have hran := h.ran
  rw [hpc] at hran
  rw [List.map_append]
  exact hran.trans (List.append_nil _).symm

theorem Worker.Books.claim {w : Worker} (h : w.Books spec) (hpc : w.pc = .claiming)
    (sh : Shared) : (w.claim spec sh).1.Books spec := by
  refine ⟨?_, h.samples⟩
  have hran : w.claims.filter (· < spec.numToRun) = w.log.map Event.ordinal := by
    rw [h.ran, hpc]
    exact List.append_nil _
  rw [Worker.claim, List.filter_append, hran]
  by_cases hover : spec.numToRun ≤ sh.queryIdx
  · rw [if_pos hover, List.filter_singleton, decide_eq_false hover.not_gt]
    rfl
  · rw [if_neg hover, List.filter_singleton, decide_eq_true (not_le.mp hover)]
    split_ifs <;> rfl

theorem Worker.Books.slot {w : Worker} {idx : ℕ} (h : w.Books spec) (hpc : w.pc = .claimed idx)
    (plan : OpenLoopPlan) (delay : ℕ) : (w.slot plan idx delay).Books spec := by
  rw [Worker.slot]
  split_ifs
  · exact h.settle (congrArg Pc.held hpc) (h.samples.drop idx)
  · refine ⟨?_, h.samples.dispatch plan delay⟩
    have hran := h.ran
    rw [hpc] at hran
    exact hran

theorem Worker.Books.reply {w : Worker} {idx : ℕ} (h : w.Books spec) (hpc : w.pc = .searching idx)
    (truth : List ℤ) (result : Except String (List (ℤ × F64))) (queryTime endToEnd : ℚ) :
    (w.reply spec idx truth result queryTime endToEnd).Books spec := by
  have hheld : w.pc.held = [idx] := congrArg Pc.held hpc
  cases result with
  | ok resultIds =>
      exact h.settle hheld (h.samples.succeed _ idx truth resultIds queryTime endToEnd)
  | error e => exact h.settle hheld (h.samples.fail _ idx queryTime e)

theorem Worker.Books.does {sh sh' : Shared} {w w' : Worker} (hdoes : Does spec sh w w' sh')
    (h : w.Books spec) : w'.Books spec := by
  cases hdoes with
  | connect hpc => exact h.move (congrArg Pc.held hpc) rfl
  | connectFails hpc e => exact h.move (congrArg Pc.held hpc) rfl
  | leave hpc hphase => exact h.move (congrArg Pc.held hpc) rfl
  | turnedAway hpc hphase => exact h.move (congrArg Pc.held hpc) rfl
  | goOn hpc => exact h.move (congrArg Pc.held hpc) rfl
  | expire hpc hduration => exact h.move (congrArg Pc.held hpc) rfl
  | claim hpc => exact h.claim hpc sh
  | slot idx hpc plan hplan delay => exact h.slot hpc plan delay
  | reply idx hpc truth htruth result queryTime endToEnd =>
      exact h.reply hpc truth result queryTime endToEnd

/-! ## All workers -/

/-- The books of a run. -/
structure Run.Books (spec : SearchSpec) (s : Run) : Prop where
  /-- The counter hands out each ordinal once. -/
  claims : (s.workers.flatMap (·.claims)).Perm (List.range s.shared.queryIdx)
  workers : ∀ w ∈ s.workers, w.Books spec

/-- What an action takes from the counter. -/
theorem claims_of_does {sh sh' : Shared} {w w' : Worker} (h : Does spec sh w w' sh') :
    ∃ taken, w'.claims = w.claims ++ taken ∧
      List.range sh'.queryIdx = List.range sh.queryIdx ++ taken := by
  cases h with
  | claim hpc => exact ⟨[sh.queryIdx], rfl, List.range_succ⟩
  | slot idx hpc plan hplan delay =>
      refine ⟨[], ?_, (List.append_nil _).symm⟩
      rw [Worker.slot, List.append_nil]
      split_ifs <;> rfl
  | reply idx hpc truth htruth result queryTime endToEnd =>
      refine ⟨[], ?_, (List.append_nil _).symm⟩
      rw [List.append_nil]
      cases result <;> rfl
  | _ => exact ⟨[], (List.append_nil _).symm, (List.append_nil _).symm⟩

theorem Run.Books.init : (Run.init spec).Books spec := by
  refine ⟨?_, fun w hw ↦ ?_⟩
  · have hnone : (Run.init spec).workers.flatMap (·.claims) = [] := by
      apply List.flatMap_eq_nil_iff.mpr
      intro w hw
      rw [List.eq_of_mem_replicate hw]
      rfl
    rw [hnone]
    exact List.Perm.nil
  · rw [List.eq_of_mem_replicate hw]
    exact .new

theorem Run.Books.step {s s' : Run} {a : Action} (hstep : Run.step spec s a = some s')
    (h : s.Books spec) : s'.Books spec := by
  rcases step_cases hstep with ⟨gate, rfl⟩ | ⟨i, w, w', sh', hi, hdoes, rfl⟩
  · exact ⟨h.claims, h.workers⟩
  · obtain ⟨taken, hclaims, hrange⟩ := claims_of_does hdoes
    refine ⟨?_, forall_mem_set h.workers ((h.workers w (List.mem_of_getElem? hi)).does hdoes)⟩
    rw [hrange]
    exact (perm_flatMap_set hi hclaims).trans (h.claims.append_right taken)

theorem Run.Books.of_reachable {s : Run} (h : (Run.machine spec).Reachable s) : s.Books spec :=
  h.invariant .init fun _ _ _ hstep hs ↦ hs.step hstep

/-! ## The whole run -/

/-- The ordinals that were claimed, up to the number to run. -/
def Run.claimed (spec : SearchSpec) (s : Run) : ℕ := min s.shared.queryIdx spec.numToRun

/-- What became of the claimed ordinals. -/
def Run.events (s : Run) : List Event := s.workers.flatMap (·.log)

/-- No worker is at an ordinal. -/
def Run.Idle (s : Run) : Prop := ∀ w ∈ s.workers, w.pc.held = []

theorem Run.Finished.idle {s : Run} (h : s.Finished) : s.Idle := by
  intro w hw
  rw [h w hw]
  rfl

theorem filter_range (n m : ℕ) : ((List.range n).filter (· < m)).Perm (List.range (min n m)) := by
  apply (List.perm_ext_iff_of_nodup (List.nodup_range.filter _) List.nodup_range).mpr
  intro k
  rw [List.mem_filter, List.mem_range, List.mem_range, decide_eq_true_eq, lt_min_iff]

/-- Every claimed ordinal has one event. -/
theorem Run.Books.ordinals {s : Run} (h : s.Books spec) (hidle : s.Idle) :
    (s.events.map Event.ordinal).Perm (List.range (s.claimed spec)) := by
  have hevents : s.events.map Event.ordinal =
      (s.workers.flatMap (·.claims)).filter (· < spec.numToRun) := by
    rw [Run.events, List.map_flatMap, List.filter_flatMap]
    refine List.flatMap_congr fun w hw ↦ ?_
    rw [(h.workers w hw).ran, hidle w hw, List.append_nil]
  rw [hevents]
  exact (h.claims.filter _).trans (filter_range _ _)

theorem Event.count_add (log : List Event) :
    Event.count .dropped log + (Event.count .succeeded log + Event.count .failed log) =
      log.length := by
  induction log using List.reverseRecOn with
  | nil => rfl
  | append_singleton log e ih =>
      simp only [Event.count_append, List.length_append, List.length_singleton]
      cases e.fate <;> simp <;> omega

theorem length_attemptedOrdinals (log : List Event) :
    (attemptedOrdinals log).length = Event.count .succeeded log + Event.count .failed log := by
  induction log using List.reverseRecOn with
  | nil => rfl
  | append_singleton log e ih =>
      simp only [attemptedOrdinals_append, Event.count_append, List.length_append, ih]
      cases e.fate <;> simp <;> omega

theorem Run.count_events (fate : Fate) (s : Run) :
    Event.count fate s.events = (s.workers.map fun w ↦ Event.count fate w.log).sum := by
  rw [Event.count, Run.events, List.countP_flatMap]
  rfl

/-- A buffer with one sample for each success. -/
theorem Run.length_joined {s : Run} {β : Type} {f : Samples → List β}
    (h : ∀ w ∈ s.workers, (f w.samples).length = Event.count .succeeded w.log) :
    (s.joined f).length = Event.count .succeeded s.events := by
  rw [Run.joined, List.length_flatMap, Run.count_events]
  exact congrArg List.sum (List.map_congr_left h)

theorem Run.Books.dropped_eq {s : Run} (h : s.Books spec) :
    s.dropped = Event.count .dropped s.events := by
  rw [Run.dropped, Run.count_events]
  exact congrArg List.sum (List.map_congr_left fun w hw ↦ (h.workers w hw).samples.dropped)

theorem Run.Books.attempted_eq {s : Run} (h : s.Books spec) (hidle : s.Idle) :
    s.attempted spec = Event.count .succeeded s.events + Event.count .failed s.events := by
  have hlength : s.events.length = s.claimed spec := by
    rw [← List.length_map Event.ordinal, (h.ordinals hidle).length_eq, List.length_range]
  have hcount := Event.count_add s.events
  rw [hlength] at hcount
  rw [Run.attempted, h.dropped_eq, ← Run.claimed, ← hcount]
  exact Nat.add_sub_cancel_left _ _

theorem Run.Books.records {s : Run} (h : s.Books spec) (hcapture : spec.capture = true) :
    (s.joined Samples.cap).map (·.seq) = attemptedOrdinals s.events := by
  rw [Run.joined, List.map_flatMap, attemptedOrdinals, Run.events, List.filter_flatMap,
    List.map_flatMap]
  exact List.flatMap_congr fun w hw ↦ (h.workers w hw).samples.cap hcapture

/-- What holds of a run whose workers are through. -/
structure Accounted (spec : SearchSpec) (s : Run) : Prop where
  /-- Exactly one worker claims each ordinal, and claims it once. -/
  claimedOnce : ∀ k < s.claimed spec, ∃! i : ℕ, ∃ w, s.workers[i]? = some w ∧ k ∈ w.claims
  claims : (s.workers.flatMap (·.claims)).Nodup
  /-- Each claimed ordinal is exactly one of dropped, succeeded or failed. -/
  fate : ∀ k < s.claimed spec, ∃! fate, Event.mk k fate ∈ s.events
  ran : ∀ e ∈ s.events, e.ordinal < s.claimed spec
  once : (s.events.map Event.ordinal).Nodup
  attempted : s.attempted spec = Event.count .succeeded s.events + Event.count .failed s.events
  times : (s.joined Samples.t).length = Event.count .succeeded s.events
  precisions : (s.joined Samples.p).length = (s.joined Samples.t).length
  recalls : (s.joined Samples.r).length = (s.joined Samples.t).length
  mrrs : (s.joined Samples.mr).length = (s.joined Samples.t).length
  ndcgs : (s.joined Samples.nd).length = (s.joined Samples.t).length
  /-- One record for each attempted ordinal. -/
  records : spec.capture = true →
    (s.joined Samples.cap).length = s.attempted spec ∧
    ((s.joined Samples.cap).map (·.seq)).Nodup ∧
    ∀ k, k ∈ (s.joined Samples.cap).map (·.seq) ↔
      ∃ fate, Event.mk k fate ∈ s.events ∧ fate ≠ .dropped

theorem mem_attemptedOrdinals {log : List Event} {k : ℕ} :
    k ∈ attemptedOrdinals log ↔ ∃ fate, Event.mk k fate ∈ log ∧ fate ≠ .dropped := by
  rw [attemptedOrdinals, List.mem_map]
  constructor
  · rintro ⟨⟨ordinal, fate⟩, he, rfl⟩
    obtain ⟨hmem, hfate⟩ := List.mem_filter.mp he
    exact ⟨fate, hmem, of_decide_eq_true hfate⟩
  · rintro ⟨fate, hmem, hfate⟩
    exact ⟨⟨k, fate⟩, List.mem_filter.mpr ⟨hmem, decide_eq_true hfate⟩, rfl⟩

theorem Run.Books.accounted {s : Run} (h : s.Books spec) (hidle : s.Idle) :
    Accounted spec s := by
  have hordinals := h.ordinals hidle
  have honce : (s.events.map Event.ordinal).Nodup := hordinals.nodup_iff.mpr List.nodup_range
  have hclaims : (s.workers.flatMap (·.claims)).Nodup := h.claims.nodup_iff.mpr List.nodup_range
  have hlength : ∀ {β : Type} {f : Samples → List β},
      (∀ w ∈ s.workers, (f w.samples).length = Event.count .succeeded w.log) →
        (s.joined f).length = (s.joined Samples.t).length := by
    intro β f hf
    rw [Run.length_joined hf, Run.length_joined fun w hw ↦ (h.workers w hw).samples.t]
  constructor
  case claimedOnce =>
    intro k hk
    apply existsUnique_of_mem_flatMap hclaims
    rw [h.claims.mem_iff, List.mem_range]
    exact hk.trans_le (min_le_left _ _)
  case claims => exact hclaims
  case fate =>
    intro k hk
    obtain ⟨⟨ordinal, fate⟩, he, rfl⟩ :=
      List.mem_map.mp (hordinals.mem_iff.mpr (List.mem_range.mpr hk))
    refine ⟨fate, he, fun fate' he' ↦ ?_⟩
    have heq := List.inj_on_of_nodup_map honce he' he rfl
    exact (Event.mk.inj heq).2
  case ran =>
    intro e he
    exact List.mem_range.mp (hordinals.mem_iff.mp (List.mem_map_of_mem he))
  case once => exact honce
  case attempted => exact h.attempted_eq hidle
  case times => exact Run.length_joined fun w hw ↦ (h.workers w hw).samples.t
  case precisions => exact hlength fun w hw ↦ (h.workers w hw).samples.p
  case recalls => exact hlength fun w hw ↦ (h.workers w hw).samples.r
  case mrrs => exact hlength fun w hw ↦ (h.workers w hw).samples.mr
  case ndcgs => exact hlength fun w hw ↦ (h.workers w hw).samples.nd
  case records =>
    intro hcapture
    have hrecords := h.records hcapture
    refine ⟨?_, ?_, fun k ↦ ?_⟩
    · rw [← List.length_map RawQueryResult.seq, hrecords, length_attemptedOrdinals,
        h.attempted_eq hidle]
    · rw [hrecords]
      exact honce.sublist (List.filter_sublist.map _)
    · rw [hrecords, mem_attemptedOrdinals]

/-! ## The published results -/

theorem Run.finish_counts {r : SearchResults} {succeeded failed : ℕ}
    (h : r.Counts succeeded failed) (s : Run) : (s.finish spec r).Counts succeeded failed := by
  rw [Run.finish]
  split
  · apply attachOpenLoopMetrics_counts
    exact ⟨h.requested, h.num, h.failed⟩
  · exact ⟨h.requested, h.num, h.failed⟩

/-- The published counts are those of the run. -/
theorem Run.Books.publish_counts {s : Run} (h : s.Books spec) (hidle : s.Idle) {totalTime : ℚ}
    {commandstats : Except String Unit} {r : SearchResults}
    (hr : s.publish spec totalTime commandstats = .ok r) :
    r.Counts (Event.count .succeeded s.events) (Event.count .failed s.events) := by
  have htimes : (s.joined Samples.t).length = Event.count .succeeded s.events :=
    Run.length_joined fun w hw ↦ (h.workers w hw).samples.t
  rw [Run.publish] at hr
  rw [h.attempted_eq hidle, ← htimes] at hr
  rw [← htimes]
  split_ifs at hr with hempty hnone
  · cases hr
    apply Run.finish_counts
    rw [List.isEmpty_iff.mp hempty, List.length_nil, Nat.zero_add]
    exact zeroSearchResults_counts _ _ _ _
  · obtain ⟨u, -, hr⟩ := bind_eq_ok.mp hr
    obtain ⟨results, hresults, hr⟩ := bind_eq_ok.mp hr
    cases hr
    exact Run.finish_counts (computeSearchStats_counts hresults) s

/-- In an open-loop run the published drops are those of the run. -/
theorem Run.Books.publish_dropped {s : Run} (h : s.Books spec) {totalTime : ℚ}
    {commandstats : Except String Unit} {r : SearchResults}
    (hr : s.publish spec totalTime commandstats = .ok r) (hopen : spec.openLoop.isSome = true) :
    r.droppedQueries = Event.count .dropped s.events := by
  have hfinish : ∀ r : SearchResults, (s.finish spec r).droppedQueries = s.dropped := by
    intro r
    obtain ⟨plan, hplan⟩ := Option.isSome_iff_exists.mp hopen
    rw [Run.finish, hplan]
    rfl
  rw [Run.publish] at hr
  rw [← h.dropped_eq]
  split_ifs at hr with hempty hnone
  · cases hr
    exact hfinish _
  · obtain ⟨u, -, hr⟩ := bind_eq_ok.mp hr
    obtain ⟨results, -, hr⟩ := bind_eq_ok.mp hr
    cases hr
    exact hfinish results

/-- Whatever `search` returns, no ordinal is lost, and results carry the counts of the run. -/
theorem Returns.accounted {result : Except String SearchResults} {s : Run}
    (h : Returns spec result s) :
    Accounted spec s ∧ ∀ r, result = .ok r →
      r.Counts (Event.count .succeeded s.events) (Event.count .failed s.events) := by
  have hinit : Accounted spec (Run.init spec) := by
    apply Run.Books.init.accounted
    intro w hw
    rw [List.eq_of_mem_replicate hw]
    rfl
  cases h with
  | noQueries h => exact ⟨hinit, fun r hr ↦ nomatch hr⟩
  | shortTruth hqueries h => exact ⟨hinit, fun r hr ↦ nomatch hr⟩
  | notStarted hqueries htruth hs hdone hgate =>
      exact ⟨(Run.Books.of_reachable hs).accounted hdone.idle, fun r hr ↦ nomatch hr⟩
  | joined hqueries htruth hs hdone hgate totalTime commandstats =>
      have hbooks := Run.Books.of_reachable hs
      exact ⟨hbooks.accounted hdone.idle, fun r hr ↦ hbooks.publish_counts hdone.idle hr⟩

/-- **Search-loop accounting**: whatever the workers did, once all of them returned every
ordinal is accounted for, and the published counts are those of the run. -/
theorem search_accounted {s : Run} (h : (Run.machine spec).Reachable s) (hdone : s.Finished) :
    Accounted spec s ∧
    ∀ totalTime commandstats r, s.publish spec totalTime commandstats = .ok r →
      r.Counts (Event.count .succeeded s.events) (Event.count .failed s.events) ∧
      (spec.openLoop.isSome = true → r.droppedQueries = Event.count .dropped s.events) := by
  have hbooks : s.Books spec := .of_reachable h
  refine ⟨hbooks.accounted hdone.idle, fun totalTime commandstats r hr ↦ ?_⟩
  exact ⟨hbooks.publish_counts hdone.idle hr, hbooks.publish_dropped hr⟩

/-- An open-loop search of three requests by two workers. -/
def twoWorkers : SearchSpec where
  queryCount := 1
  neighbors := [[5]]
  explicitTop := none
  openLoop := some ⟨1, 3, 10, 2⟩
  closedLoopDuration := none
  numQueries := 0
  parallel := 2
  capture := true
  discount _ := 1
  sqrt := id

/-- One request succeeds, one is dropped and one fails. -/
def twoWorkersRun : List Action :=
  [.worker (0, .connect (.ok ())), .worker (1, .connect (.ok ())), .start, .worker (0, .leave),
    .worker (1, .leave), .worker (0, .check false), .worker (1, .check false), .worker (1, .claim),
    .worker (0, .claim), .worker (0, .slot 3), .worker (1, .slot 20),
    .worker (0, .reply (.ok [(5, .fin 0)]) 1 2), .worker (1, .check false), .worker (1, .claim),
    .worker (1, .slot 0), .worker (1, .reply (.error "timeout") 3 3), .worker (0, .check false),
    .worker (0, .claim), .worker (1, .check false), .worker (1, .claim)]

theorem search_accounted_twoWorkers :
    ∃ s, (Run.machine twoWorkers).Reachable s ∧ s.Finished ∧ s.claimed twoWorkers = 3 ∧
      s.attempted twoWorkers = 2 ∧ Accounted twoWorkers s := by
  have hrun : ((Run.machine twoWorkers).runFrom (Run.init twoWorkers) twoWorkersRun).any
      (fun s ↦ (∀ w ∈ s.workers, w.pc = .returned) ∧ s.claimed twoWorkers = 3 ∧
        s.attempted twoWorkers = 2) = true := by
    decide
  obtain ⟨s, hs, hend⟩ := (Option.any_eq_true _ _).mp hrun
  obtain ⟨hdone, hclaimed, hattempted⟩ := of_decide_eq_true hend
  have hreach : (Run.machine twoWorkers).Reachable s := ⟨twoWorkersRun, hs⟩
  exact ⟨s, hreach, hdone, hclaimed, hattempted, (search_accounted hreach hdone).1⟩

end VectorDbBenchmark.Search
