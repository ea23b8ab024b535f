import VectorDbBenchmark.Kit.Machine
import VectorDbBenchmark.UploadStream.Model

/-!
# Invariants of any upload

A quantity that each worker holds a part of, such as the batches in flight, is the sum over the
workers (`weigh`), of which an action of one worker changes one summand.  The number of batches in
flight never exceeds that of the workers.  A failure is never forgotten: until it is in the error
slot, the worker it befell is on its way there.
-/

namespace VectorDbBenchmark.UploadStream

open Kit Readers

/-! ## Sums over the workers -/

section Weigh

variable {M : Type} [AddCancelCommMonoid M] (f : Pc → M)

/-- What the workers hold together. -/
def weigh (ws : List Worker) : M := (ws.map fun w ↦ f w.pc).sum

theorem weigh_start {f : Pc → M} (h : f .connecting = 0) (stream : CompoundStream)
    (parallel : ℕ) : weigh f (Upload.start stream parallel).workers = 0 := by
  rw [weigh, Upload.start, List.map_replicate, List.sum_replicate, h, nsmul_zero]

/-- One worker moved on. -/
theorem weigh_set {ws : List Worker} {i : ℕ} {w : Worker} (hi : ws[i]? = some w) (w' : Worker) :
    weigh f (ws.set i w') + f w.pc = weigh f ws + f w'.pc := by
  exact sum_map_set (fun w ↦ f w.pc) hi w'

theorem weigh_set_of_eq {ws : List Worker} {i : ℕ} {w : Worker} (hi : ws[i]? = some w) (w' : Worker)
    (h : f w'.pc = f w.pc) : weigh f (ws.set i w') = weigh f ws := by
  have hset := weigh_set f hi w'
  rw [h] at hset
  exact add_right_cancel hset

end Weigh

/-! ## The cases of an action -/

/-- A worker that did not panic moves from one place to the next. -/
inductive Does (env : ReaderEnv) (batchSize : ℕ) (sh : Shared) : Pc → Pc → Shared → Prop
  | connect : Does env batchSize sh .connecting .checking sh
  | connectFails (e : String) :
      Does env batchSize sh .connecting (.failing e) (sh.noteFailure e)
  | goOn : Does env batchSize sh .checking .reading sh
  | stop (h : sh.error.isSome) : Does env batchSize sh .checking .returned sh
  | take (raw : RawBatch) (stream : CompoundStream)
      (h : sh.stream.nextRaw batchSize = (.ok (some raw), stream)) :
      Does env batchSize sh .reading (.taken raw)
        { sh with stream, produced := sh.produced ++ [raw] }
  | finish (stream : CompoundStream) (h : sh.stream.nextRaw batchSize = (.ok none, stream)) :
      Does env batchSize sh .reading .returned { sh with stream, exhausted := true }
  | readFails (e : String) (stream : CompoundStream) :
      Does env batchSize sh .reading (.failing e) ({ sh with stream }.noteFailure e)
  | count (raw : RawBatch) :
      Does env batchSize sh (.taken raw) (.counted raw (sh.inFlight + 1))
        { sh with inFlight := sh.inFlight + 1 }
  | peak (raw : RawBatch) (now : ℕ) :
      Does env batchSize sh (.counted raw now) (.uploading raw)
        { sh with maxInFlight := max sh.maxInFlight now }
  | uploadFails (raw : RawBatch) (e : String) :
      Does env batchSize sh (.uploading raw) (.uploaded (.error e)) (sh.noteFailure e)
  | upload (raw : RawBatch) (batch : Batch) (h : raw.decode env = .ok batch) :
      Does env batchSize sh (.uploading raw) (.uploaded (.ok batch.ids.length))
        { sh with calls := sh.calls ++ [⟨raw, batch⟩] }
  | release (result : Except String ℕ) :
      Does env batchSize sh (.uploaded result) (.settling result)
        { sh with inFlight := sh.inFlight - 1 }
  | settle (n : ℕ) :
      Does env batchSize sh (.settling (.ok n)) .tallying { sh with uploaded := sh.uploaded + n }
  | giveUp (e : String) : Does env batchSize sh (.settling (.error e)) (.failing e) sh
  | tally : Does env batchSize sh .tallying .checking { sh with batches := sh.batches + 1 }
  | fail (e : String) : Does env batchSize sh (.failing e) .returned (sh.fail e)

theorem does_of_read {env : ReaderEnv} {batchSize : ℕ} {sh : Shared} :
    Does env batchSize sh .reading (Worker.read batchSize sh).1 (Worker.read batchSize sh).2 := by
  rw [Worker.read]
  split_ifs with hp
  · exact .readFails _ sh.stream
  · split
    · exact .take _ _ ‹_›
    · exact .finish _ ‹_›
    · exact .readFails _ _

theorem does_of_upload {env : ReaderEnv} {batchSize : ℕ} {sh : Shared} (raw : RawBatch)
    (result : Except String Unit) :
    Does env batchSize sh (.uploading raw) (Worker.upload env raw result sh).1
      (Worker.upload env raw result sh).2 := by
  rw [Worker.upload]
  split
  · exact .uploadFails raw _
  · cases result with
    | error e => exact .uploadFails raw e
    | ok u => exact .upload raw _ ‹_›

theorem does_of_act {env : ReaderEnv} {batchSize : ℕ} {sh sh' : Shared} {pc pc' : Pc} {a : Move}
    (h : Worker.act env batchSize sh pc a = some (pc', sh')) :
    Does env batchSize sh pc pc' sh' := by
  revert h
  fun_cases Worker.act env batchSize sh pc a
  all_goals intro h
  case case1 =>
      cases h
      exact .connect
  case case2 e =>
      cases h
      exact .connectFails e
  case case3 =>
      cases h
      split_ifs with herror
      · exact .stop herror
      · exact .goOn
  case case4 =>
      have hdoes : Does env batchSize sh .reading _ _ := does_of_read
      rw [Option.some.inj h] at hdoes
      exact hdoes
  case case5 => cases h
  case case6 e left hp =>
      cases h
      exact .readFails e left
  case case7 raw =>
      cases h
      exact .count raw
  case case8 raw now =>
      cases h
      exact .peak raw now
  case case9 => cases h
  case case10 raw result hwidth =>
      have hdoes : Does env batchSize sh (.uploading raw) _ _ := does_of_upload raw result
      rw [Option.some.inj h] at hdoes
      exact hdoes
  case case11 result =>
      cases h
      exact .release result
  case case12 n =>
      cases h
      exact .settle n
  case case13 e =>
      cases h
      exact .giveUp e
  case case14 =>
      cases h
      exact .tally
  case case15 e =>
      cases h
      exact .fail e
  case case16 => cases h

/-- An action moves one worker that did not panic, or stops it with a panic; a panic
changes nothing the workers count. -/
theorem step_cases {env : ReaderEnv} {batchSize : ℕ} {s s' : Upload} {a : ℕ × Move}
    (h : Upload.step env batchSize s a = some s') :
    ∃ i pc, s.workers[i]? = some ⟨pc, false⟩ ∧
      ((∃ pc' sh', Does env batchSize s.shared pc pc' sh' ∧
          s' = ⟨sh', s.workers.set i ⟨pc', false⟩⟩) ∨
        ∃ poisoned, s' = ⟨{ s.shared with poisoned }, s.workers.set i ⟨pc, true⟩⟩ ∧
          (Worker.panic s.shared pc).isSome) := by
  obtain ⟨⟨pc, panicked⟩, hw, h⟩ := Option.bind_eq_some_iff.mp h
  obtain ⟨⟨w', sh'⟩, hstep, h⟩ := Option.bind_eq_some_iff.mp h
  cases h
  obtain ⟨hpanicked, hstep⟩ := Option.ite_none_left_eq_some.mp hstep
  cases (Bool.not_eq_true _).mp hpanicked
  refine ⟨a.1, pc, hw, ?_⟩
  split at hstep
  · obtain ⟨sh, hpanic, heq⟩ := Option.map_eq_some_iff.mp hstep
    cases heq
    refine .inr ?_
    cases pc <;> cases hpanic
    all_goals exact ⟨_, rfl, rfl⟩
  · obtain ⟨⟨pc', sh⟩, hact, heq⟩ := Option.map_eq_some_iff.mp hstep
    cases heq
    exact .inl ⟨pc', sh', does_of_act hact, rfl⟩

/-! ## Batches in flight -/

/-- Between the two updates of the in-flight counter. -/
def Pc.inFlight : Pc → ℕ
  | .counted _ _ | .uploading _ | .uploaded _ => 1
  | _ => 0

theorem Pc.inFlight_le_one (pc : Pc) : pc.inFlight ≤ 1 := by
  cases pc <;> simp [Pc.inFlight]

/-- The value a worker saw when it counted itself in. -/
def Pc.saw : Pc → ℕ
  | .counted _ now => now
  | _ => 0

theorem weigh_inFlight_le (ws : List Worker) : weigh Pc.inFlight ws ≤ ws.length := by
  rw [weigh]
  have h := List.sum_le_card_nsmul (ws.map fun w ↦ w.pc.inFlight) 1 fun n hn ↦ by
    obtain ⟨w, -, rfl⟩ := List.mem_map.mp hn
    exact w.pc.inFlight_le_one
  simpa using h

/-- The in-flight counter and its peak, for `n` workers. -/
structure Flight (n : ℕ) (s : Upload) : Prop where
  length : s.workers.length = n
  inFlight : s.shared.inFlight = weigh Pc.inFlight s.workers
  saw : ∀ w ∈ s.workers, w.pc.saw ≤ n
  maxInFlight : s.shared.maxInFlight ≤ n

theorem Flight.start (stream : CompoundStream) (parallel : ℕ) :
    Flight (max parallel 1) (.start stream parallel) where
  length := List.length_replicate
  inFlight := (weigh_start (f := Pc.inFlight) rfl stream parallel).symm
  saw w hw := by
    rw [List.eq_of_mem_replicate hw]
    exact Nat.zero_le _
  maxInFlight := Nat.zero_le _

variable {env : ReaderEnv} {batchSize : ℕ} {s s' : Upload} {a : ℕ × Move}

theorem Flight.step {n : ℕ} (hstep : Upload.step env batchSize s a = some s')
    (h : Flight n s) : Flight n s' := by
  obtain ⟨i, pc, hi, ⟨pc', sh', hdoes, rfl⟩ | ⟨poisoned, rfl, -⟩⟩ := step_cases hstep
  · have hset := weigh_set Pc.inFlight hi ⟨pc', false⟩
    have hmem : ⟨pc, false⟩ ∈ s.workers := List.mem_of_getElem? hi
    have hcount : sh'.inFlight + pc.inFlight = s.shared.inFlight + pc'.inFlight := by
      cases hdoes with
      | release result =>
          have hpos : 0 < s.shared.inFlight := by
            have hheld := h.inFlight
            simp only [Pc.inFlight] at hset
            omega
          show s.shared.inFlight - 1 + 1 = s.shared.inFlight + 0
          omega
      | _ => rfl
    have hflight : sh'.inFlight = weigh Pc.inFlight (s.workers.set i ⟨pc', false⟩) := by
      have hheld := h.inFlight
      simp only at hset
      omega
    have hlength : (s.workers.set i ⟨pc', false⟩).length = n := List.length_set.trans h.length
    have hle : sh'.inFlight ≤ n := by
      rw [hflight, ← hlength]
      exact weigh_inFlight_le _
    have hsaw : pc.saw ≤ n := h.saw _ hmem
    refine ⟨hlength, hflight, fun w hw ↦ ?_, ?_⟩
    · rcases List.mem_or_eq_of_mem_set hw with hw | rfl
      · exact h.saw w hw
      · cases hdoes with
        | count raw => exact hle
        | _ => exact Nat.zero_le _
    · cases hdoes with
      | peak raw now => exact max_le h.maxInFlight hsaw
      | _ => exact h.maxInFlight
  · have hmem : ⟨pc, false⟩ ∈ s.workers := List.mem_of_getElem? hi
    refine ⟨List.length_set.trans h.length, ?_, fun w hw ↦ ?_, h.maxInFlight⟩
    · exact h.inFlight.trans (weigh_set_of_eq Pc.inFlight hi ⟨pc, true⟩ rfl).symm
    · rcases List.mem_or_eq_of_mem_set hw with hw | rfl
      · exact h.saw w hw
      · exact h.saw ⟨pc, false⟩ hmem

/-! ## Failures -/

/-- On the way to the error slot. -/
def Pc.Failing : Pc → Prop
  | .uploaded (.error _) | .settling (.error _) | .failing _ => True
  | _ => False

/-- A failure is in the error slot or on its way there. -/
def Reported (s : Upload) : Prop :=
  s.shared.failures ≠ [] →
    s.shared.error ≠ none ∨ ∃ (i : ℕ) (pc : Pc), s.workers[i]? = some ⟨pc, false⟩ ∧ pc.Failing

theorem Reported.start (stream : CompoundStream) (parallel : ℕ) :
    Reported (.start stream parallel) := fun h ↦ absurd rfl h

/-- An error stays in its slot. -/
theorem Does.error_ne_none {sh sh' : Shared} {pc pc' : Pc} (h : Does env batchSize sh pc pc' sh')
    (herror : sh.error ≠ none) : sh'.error ≠ none := by
  cases h with
  | fail e =>
      rw [Shared.fail]
      simp only [Option.isNone_iff_eq_none, if_neg herror]
      exact herror
  | _ => exact herror

/-- A new failure puts its worker on the way. -/
theorem Does.failures_eq {sh sh' : Shared} {pc pc' : Pc} (h : Does env batchSize sh pc pc' sh') :
    sh'.failures = sh.failures ∨ pc'.Failing := by
  cases h with
  | connectFails | readFails | uploadFails => exact .inr trivial
  | _ => exact .inl rfl

/-- A worker on the way goes on, or the slot is filled. -/
theorem Does.failing {sh sh' : Shared} {pc pc' : Pc} (h : Does env batchSize sh pc pc' sh')
    (hpc : pc.Failing) : pc'.Failing ∨ sh'.error ≠ none := by
  cases h with
  | release result =>
      cases result with
      | error e => exact .inl trivial
      | ok n => exact hpc.elim
  | giveUp e => exact .inl trivial
  | fail e =>
      refine .inr ?_
      rw [Shared.fail]
      cases sh.error <;> simp
  | _ => exact hpc.elim

theorem Reported.step (hstep : Upload.step env batchSize s a = some s') (h : Reported s) :
    Reported s' := by
  intro hfailures
  obtain ⟨i, pc, hi, ⟨pc', sh', hdoes, rfl⟩ | ⟨poisoned, rfl, hpanic⟩⟩ := step_cases hstep
  · have hlt : i < s.workers.length := (List.getElem?_eq_some_iff.mp hi).1
    have hself : (s.workers.set i ⟨pc', false⟩)[i]? = some ⟨pc', false⟩ :=
      List.getElem?_set_self hlt
    rcases hdoes.failures_eq with hsame | hfailing
    · rw [hsame] at hfailures
      rcases h hfailures with herror | ⟨j, pcj, hj, hfailing⟩
      · exact .inl (hdoes.error_ne_none herror)
      · by_cases hij : i = j
        · subst hij
          cases hi.symm.trans hj
          rcases hdoes.failing hfailing with hfailing | herror
          · exact .inr ⟨i, pc', hself, hfailing⟩
          · exact .inl herror
        · exact .inr ⟨j, pcj, (List.getElem?_set_ne hij).trans hj, hfailing⟩
    · exact .inr ⟨i, pc', hself, hfailing⟩
  · rcases h hfailures with herror | ⟨j, pcj, hj, hfailing⟩
    · exact .inl herror
    · by_cases hij : i = j
      · subst hij
        cases hi.symm.trans hj
        cases pc <;> first | exact hfailing.elim | cases hpanic
      · exact .inr ⟨j, pcj, (List.getElem?_set_ne hij).trans hj, hfailing⟩

end VectorDbBenchmark.UploadStream
