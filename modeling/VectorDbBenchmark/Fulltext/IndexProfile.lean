import Mathlib.Data.Finset.Card
import VectorDbBenchmark.CompoundText.Suite
import VectorDbBenchmark.Results.ResultsDump

/-!
# The index that fulltext configs share

`parse_spec` and `index_profile` of `src/fulltext.rs`: the search configs of one engine config run
on one index, whose profile is resolved from all of them.  Reading a block into a `FulltextSpec`,
which the code derives, is a parameter.
-/

namespace VectorDbBenchmark.Fulltext

open Kit Results

/-! ## Specs -/

inductive ScalarIndexing where
  | all
  | textTagOnly
deriving DecidableEq

def ScalarIndexing.isReduced (s : ScalarIndexing) : Bool := s = .textTagOnly

inductive Analysis where
  | english
  | parity
deriving DecidableEq

def Analysis.asStr : Analysis → String
  | english => "english"
  | parity => "parity"

inductive TotalHits where
  | exact
  | none
deriving DecidableEq

/-- A `fulltext` block; the searched fields have their boosts and ascend by name. -/
structure FulltextSpec where
  scalarIndexing : ScalarIndexing := .all
  noVectorIndex : Bool := false
  compound : Option CompoundText.Spec := none
  fields : Option (List (String × F64)) := none
  analysis : Analysis := .english
  totalHits : Option TotalHits := none

/-- The names of the searched fields. -/
def fieldNames (fields : List (String × F64)) : Finset String := (fields.map Prod.fst).toFinset

def specKey : String := "fulltext"

/-- What is read and printed by code that is not modelled. -/
structure SpecEnv where
  /-- `serde_json::from_value`. -/
  fromValue : Json → Except String FulltextSpec
  /-- `Display` of a boost. -/
  display : F64 → String
  /-- `{:?}` of a set of names. -/
  debugSet : Finset String → String

section Code

variable (env : SpecEnv)

def checkReduced (spec : FulltextSpec) : Except String Unit :=
  if spec.scalarIndexing.isReduced &&
      (spec.compound.isNone || !spec.noVectorIndex || spec.analysis ≠ .parity) then
    .error "text-tag-only requires parity compound fulltext and no_vector_index=true"
  else .ok ()

def checkBoosts : List (String × F64) → Except String Unit
  | [] => .error s!"`{specKey}.fields` must name at least one field"
  | fields => fields.forM fun (name, boost) ↦
      if !boost.isFinite || boost.le (.fin 0) then
        .error (s!"`{specKey}.fields.{name}` boost must be a finite number > 0, got " ++
          env.display boost)
      else .ok ()

def checkTotalHits (spec : FulltextSpec) : Except String Unit :=
  if spec.compound.isSome && spec.totalHits = some .none then
    .error (s!"`{specKey}.total_hits: \"none\"` cannot be used with `{specKey}.compound`: " ++
      "the compound suite checks every query's exact total against its expected count; " ++
      "use \"exact\"")
  else .ok ()

def checkCompound (spec : FulltextSpec) : Except String Unit :=
  match spec.compound with
  | none => .ok ()
  | some compound => do
    compound.validate
    if spec.fields.all fun fields ↦ fields.any fun field ↦ !field.2.eq (.fin 1) then
      .error "compound matching requires explicit text fields with unit boosts"
    else .ok ()

def parseSpec (block : Option Json) : Except String FulltextSpec := do
  let spec ← block.elim (.ok {}) fun v ↦
    (env.fromValue v).mapError fun e ↦ s!"invalid `{specKey}` block: {e}"
  checkReduced spec
  spec.fields.elim (.ok ()) (checkBoosts env)
  checkTotalHits spec
  checkCompound spec
  .ok spec

/-! ## Profiles -/

structure IndexProfile where
  scalarIndexing : ScalarIndexing
  analysis : Analysis
  /-- With parity, the searched fields; in english mode none, since all text fields are indexed. -/
  textFields : Finset String
deriving DecidableEq

def IndexProfile.indexesTextField (profile : IndexProfile) (field : String) : Bool :=
  match profile.analysis with
  | .english => true
  | .parity => field ∈ profile.textFields

/-- The workload and the block of a search config. -/
abbrev SearchConfig := Workload × Option Json

structure ProfileState where
  scalarIndexing : Option ScalarIndexing := none
  analysis : Option Analysis := none
  parityFields : Option (Finset String) := none
  otherWorkload : Option Workload := none

/-- A setting that has to be what it was before. -/
def settle {α : Type} [DecidableEq α] (old : Option α) (new : α) (e : α → String) :
    Except String (Option α) :=
  match old with
  | some a => if a ≠ new then .error (e a) else .ok (some new)
  | none => .ok (some new)

def settleFields (i : ℕ) (old : Option (Finset String)) (spec : FulltextSpec) :
    Except String (Option (Finset String)) :=
  if spec.analysis = .parity then
    match spec.fields with
    | none =>
      .error (s!"fulltext search config #{i}: `analysis: parity` needs explicit `fields` — only " ++
        "the searched fields are indexed as text")
    | some fields => settle old (fieldNames fields) fun prev ↦
        s!"parity fulltext search configs search different field sets ({env.debugSet prev} vs " ++
          s!"{env.debugSet (fieldNames fields)}); in parity mode the indexed text fields are " ++
          "exactly the searched ones, so they need different indexes — split them"
  else .ok old

/-- One config of the loop. -/
def profileRound (st : ProfileState) : SearchConfig × ℕ → Except String ProfileState
  | ((w, block), i) =>
    if !w.usesTextIndex then .ok { st with otherWorkload := st.otherWorkload.or (some w) }
    else do
      let spec ← parseSpec env block
      let scalarIndexing ← settle st.scalarIndexing spec.scalarIndexing fun _ ↦
        "fulltext configs disagree on scalar_indexing"
      let analysis ← settle st.analysis spec.analysis fun a ↦
        s!"engine config mixes fulltext analysis \"{a.asStr}\" and \"{spec.analysis.asStr}\" " ++
          s!"(search config #{i}); they need different indexes — split them into separate " ++
          "engine configs"
      let parityFields ← settleFields env i st.parityFields spec
      .ok { scalarIndexing, analysis, parityFields, otherWorkload := st.otherWorkload }

/-- After the loop. -/
def finishProfile (st : ProfileState) : Except String (Option IndexProfile) :=
  match st.analysis with
  | none => .ok none
  | some analysis =>
    match (if analysis = .parity then st.otherWorkload else none) with
    | some w =>
      .error ("`analysis: parity` changes the uploaded corpus (whitespace normalized) and the " ++
        "text index, which must never apply to other workloads; this engine config also " ++
        s!"declares \"{w.asStr}\" — split it")
    | none =>
      .ok (some
        { scalarIndexing := st.scalarIndexing.getD .all
          analysis
          textFields := st.parityFields.getD ∅ })

def indexProfile (configs : List SearchConfig) : Except String (Option IndexProfile) := do
  let st ← configs.zipIdx.foldlM (profileRound env) {}
  finishProfile st

end Code

/-! ## What a profile serves -/

section Serves

variable {env : SpecEnv} {configs configs' : List SearchConfig} {profile : IndexProfile}
  {st st' : ProfileState}

variable (env) in
/-- A text-index config has the settings of the profile, with parity also its fields. -/
def Suits (profile : IndexProfile) (config : SearchConfig) : Prop :=
  config.1.usesTextIndex = true →
    ∃ spec, parseSpec env config.2 = .ok spec ∧ spec.scalarIndexing = profile.scalarIndexing ∧
      spec.analysis = profile.analysis ∧
      (profile.analysis = .parity →
        ∃ fields, spec.fields = some fields ∧ fieldNames fields = profile.textFields)

variable (env) in
/-- What the configs need, whatever their order. -/
def Serves (configs : List SearchConfig) : Option IndexProfile → Prop
  | none => ∀ c ∈ configs, c.1.usesTextIndex = false
  | some profile =>
    (∃ c ∈ configs, c.1.usesTextIndex = true) ∧ (∀ c ∈ configs, Suits env profile c) ∧
      (profile.analysis = .parity → ∀ c ∈ configs, c.1.usesTextIndex = true) ∧
      (profile.analysis = .english → profile.textFields = ∅)

theorem Serves.of_perm {r : Option IndexProfile} (h : Serves env configs r)
    (hperm : configs'.Perm configs) : Serves env configs' r := by
  cases r with
  | none => exact fun c hc ↦ h c (hperm.mem_iff.mp hc)
  | some profile =>
      obtain ⟨⟨c, hc, htext⟩, hsuits, hparity, henglish⟩ := h
      exact ⟨⟨c, hperm.mem_iff.mpr hc, htext⟩, fun c hc ↦ hsuits c (hperm.mem_iff.mp hc),
        fun ha c hc ↦ hparity ha c (hperm.mem_iff.mp hc), henglish⟩

/-- Configs have one profile at most. -/
theorem Serves.unique {r r' : Option IndexProfile} (h : Serves env configs r)
    (h' : Serves env configs r') : r = r' := by
  cases r with
  | none =>
      cases r' with
      | none => rfl
      | some profile' =>
          obtain ⟨c, hc, htext⟩ := h'.1
          exact absurd htext (Bool.eq_false_iff.mp (h c hc))
  | some profile =>
      obtain ⟨⟨c, hc, htext⟩, hsuits, -, henglish⟩ := h
      cases r' with
      | none => exact absurd htext (Bool.eq_false_iff.mp (h' c hc))
      | some profile' =>
          obtain ⟨spec, hspec, hscalar, hanalysis, hfields⟩ := hsuits c hc htext
          obtain ⟨spec', hspec', hscalar', hanalysis', hfields'⟩ := h'.2.1 c hc htext
          cases hspec.symm.trans hspec'
          have hsame : profile.analysis = profile'.analysis := hanalysis.symm.trans hanalysis'
          have htexts : profile.textFields = profile'.textFields := by
            cases hcase : profile.analysis with
            | english => rw [henglish hcase, h'.2.2.2 (hsame ▸ hcase)]
            | parity =>
                obtain ⟨fields, hsome, hnames⟩ := hfields hcase
                obtain ⟨fields', hsome', hnames'⟩ := hfields' (hsame ▸ hcase)
                cases hsome.symm.trans hsome'
                exact hnames.symm.trans hnames'
          obtain ⟨scalarIndexing, analysis, textFields⟩ := profile
          obtain ⟨scalarIndexing', analysis', textFields'⟩ := profile'
          cases hscalar.symm.trans hscalar'
          cases hsame
          cases htexts
          rfl

/-! ## One round -/

theorem settle_eq_ok {α : Type} [DecidableEq α] {old : Option α} {new : α} {e : α → String}
    {r : Option α} : settle old new e = .ok r ↔ (∀ a, old = some a → a = new) ∧ r = some new := by
  cases old with
  | none =>
      rw [settle, Except.ok.injEq, eq_comm]
      exact (and_iff_right fun a ha ↦ by cases ha).symm
  | some a =>
      rw [settle]
      by_cases h : a = new
      · rw [if_neg (not_not_intro h), Except.ok.injEq, eq_comm]
        exact (and_iff_right fun b hb ↦ Option.some.inj hb ▸ h).symm
      · rw [if_pos h]
        exact iff_of_false (fun herror ↦ by cases herror) fun hall ↦ h (hall.1 a rfl)

theorem settleFields_eq_ok {i : ℕ} {old r : Option (Finset String)} {spec : FulltextSpec} :
    settleFields env i old spec = .ok r ↔
      if spec.analysis = .parity then
        ∃ fields, spec.fields = some fields ∧ (∀ a, old = some a → a = fieldNames fields) ∧
          r = some (fieldNames fields)
      else r = old := by
  rw [settleFields]
  split_ifs with hparity
  · cases hfields : spec.fields with
    | none =>
        refine iff_of_false (fun herror ↦ by cases herror) ?_
        rintro ⟨fields, hsome, -⟩
        cases hsome
    | some fields =>
        rw [settle_eq_ok]
        constructor
        · intro h
          exact ⟨fields, rfl, h⟩
        · rintro ⟨fields', hsome, h⟩
          cases hsome
          exact h
  · rw [Except.ok.injEq, eq_comm]

/-- A round at a config that searches the text index. -/
theorem profileRound_eq_ok {w : Workload} {block : Option Json} {i : ℕ}
    (htext : w.usesTextIndex = true) :
    profileRound env st ((w, block), i) = .ok st' ↔
      ∃ spec, parseSpec env block = .ok spec ∧
        (∀ a, st.scalarIndexing = some a → a = spec.scalarIndexing) ∧
        (∀ a, st.analysis = some a → a = spec.analysis) ∧
        settleFields env i st.parityFields spec = .ok st'.parityFields ∧
        st'.scalarIndexing = some spec.scalarIndexing ∧ st'.analysis = some spec.analysis ∧
        st'.otherWorkload = st.otherWorkload := by
  have hbranch : ¬((!w.usesTextIndex) = true) := by
    rw [htext]
    exact Bool.false_ne_true
  simp only [profileRound, if_neg hbranch, bind_eq_ok, settle_eq_ok, Except.ok.injEq]
  refine exists_congr fun spec ↦ and_congr_right fun _ ↦ ?_
  constructor
  · rintro ⟨_, ⟨hscalar, rfl⟩, _, ⟨hanalysis, rfl⟩, fields, hfields, rfl⟩
    exact ⟨hscalar, hanalysis, hfields, rfl, rfl, rfl⟩
  · rintro ⟨hscalar, hanalysis, hfields, hscalar', hanalysis', hother⟩
    refine ⟨_, ⟨hscalar, rfl⟩, _, ⟨hanalysis, rfl⟩, _, hfields, ?_⟩
    rw [← hscalar', ← hanalysis', ← hother]

/-- A round at any other config. -/
theorem profileRound_of_other {w : Workload} {block : Option Json} {i : ℕ}
    (hother : w.usesTextIndex = false) :
    profileRound env st ((w, block), i) =
      .ok { st with otherWorkload := st.otherWorkload.or (some w) } := by
  rw [profileRound, hother]
  rfl

/-! ## The loop -/

variable (env) in
/-- The settings in a state are those of a config. -/
def Agrees (st : ProfileState) (config : SearchConfig) : Prop :=
  config.1.usesTextIndex = true →
    ∃ spec, parseSpec env config.2 = .ok spec ∧ st.scalarIndexing = some spec.scalarIndexing ∧
      st.analysis = some spec.analysis ∧
      (spec.analysis = .parity →
        ∃ fields, spec.fields = some fields ∧ st.parityFields = some (fieldNames fields))

variable (env) in
/-- Where a state comes from. -/
structure Origin (done : List (SearchConfig × ℕ)) (st : ProfileState) : Prop where
  analysis : st.analysis.isSome = true ↔ ∃ c ∈ done, c.1.1.usesTextIndex = true
  other : st.otherWorkload.isSome = true ↔ ∃ c ∈ done, c.1.1.usesTextIndex = false
  agrees : ∀ c ∈ done, Agrees env st c.1
  parity : ∀ fields, st.parityFields = some fields → st.analysis = some .parity

theorem Agrees.of_round {config : SearchConfig} {w : Workload} {block : Option Json} {i : ℕ}
    (h : Agrees env st config) (htext : w.usesTextIndex = true)
    (hround : profileRound env st ((w, block), i) = .ok st') : Agrees env st' config := by
  obtain ⟨spec, -, hscalar, hanalysis, hfields, hscalar', hanalysis', -⟩ :=
    (profileRound_eq_ok htext).mp hround
  intro hconfig
  obtain ⟨old, hold, hscalarOld, hanalysisOld, hfieldsOld⟩ := h hconfig
  refine ⟨old, hold, ?_, ?_, fun hparity ↦ ?_⟩
  · rw [hscalar', hscalar _ hscalarOld]
  · rw [hanalysis', hanalysis _ hanalysisOld]
  · obtain ⟨fields, hsome, hnames⟩ := hfieldsOld hparity
    rw [settleFields_eq_ok, if_pos (hanalysis _ hanalysisOld ▸ hparity)] at hfields
    obtain ⟨fields', -, hsame, hset⟩ := hfields
    exact ⟨fields, hsome, by rw [hset, hsame _ hnames]⟩

theorem agrees_of_round {w : Workload} {block : Option Json} {i : ℕ}
    (htext : w.usesTextIndex = true)
    (hround : profileRound env st ((w, block), i) = .ok st') : Agrees env st' (w, block) := by
  obtain ⟨spec, hspec, -, -, hfields, hscalar, hanalysis, -⟩ :=
    (profileRound_eq_ok htext).mp hround
  intro _
  refine ⟨spec, hspec, hscalar, hanalysis, fun hparity ↦ ?_⟩
  rw [settleFields_eq_ok, if_pos hparity] at hfields
  obtain ⟨fields, hsome, -, hset⟩ := hfields
  exact ⟨fields, hsome, hset⟩

theorem Origin.round {done : List (SearchConfig × ℕ)} {c : SearchConfig × ℕ}
    (h : Origin env done st) (hround : profileRound env st c = .ok st') :
    Origin env (done ++ [c]) st' := by
  obtain ⟨⟨w, block⟩, i⟩ := c
  cases htext : w.usesTextIndex with
  | false =>
      cases (profileRound_of_other htext).symm.trans hround
      constructor
      · rw [h.analysis]
        simp [htext]
      · simp [htext]
      · refine List.forall_mem_append.mpr ⟨h.agrees, List.forall_mem_singleton.mpr ?_⟩
        exact fun hconfig ↦ absurd hconfig (Bool.eq_false_iff.mp htext)
      · exact h.parity
  | true =>
      obtain ⟨spec, -, -, hanalysisOld, hfields, -, hanalysis, hother⟩ :=
        (profileRound_eq_ok htext).mp hround
      constructor
      · rw [hanalysis]
        simp [htext]
      · rw [hother, h.other]
        simp [htext]
      · refine List.forall_mem_append.mpr ⟨fun c hc ↦ ?_, List.forall_mem_singleton.mpr ?_⟩
        · exact (h.agrees c hc).of_round htext hround
        · exact agrees_of_round htext hround
      · intro fields hset
        rw [settleFields_eq_ok] at hfields
        split_ifs at hfields with hparity
        · rw [hanalysis, hparity]
        · have hold := h.parity fields (hfields ▸ hset)
          exact absurd (hanalysisOld _ hold).symm hparity

theorem origin_of_run {cs : List (SearchConfig × ℕ)}
    (h : cs.foldlM (profileRound env) {} = .ok st) : Origin env cs st := by
  have hempty : Origin env [] {} := by
    constructor
    · simp
    · simp
    · exact List.forall_mem_nil _
    · intro fields hfields
      cases hfields
  exact foldlM_prefix_induction (fun done st c st' hdone hround ↦ hdone.round hround) hempty h

/-- The settings in a state are those of a profile, as far as there are any. -/
structure Within (profile : IndexProfile) (st : ProfileState) : Prop where
  scalarIndexing : ∀ a, st.scalarIndexing = some a → a = profile.scalarIndexing
  analysis : ∀ a, st.analysis = some a → a = profile.analysis
  parityFields : ∀ a, st.parityFields = some a → a = profile.textFields

theorem Within.exists_round (h : Within profile st) {c : SearchConfig × ℕ}
    (hsuits : Suits env profile c.1) :
    ∃ st', profileRound env st c = .ok st' ∧ Within profile st' := by
  obtain ⟨⟨w, block⟩, i⟩ := c
  cases htext : w.usesTextIndex with
  | false => exact ⟨_, profileRound_of_other htext, h.scalarIndexing, h.analysis, h.parityFields⟩
  | true =>
      obtain ⟨spec, hspec, hscalar, hanalysis, hfields⟩ := hsuits htext
      have hsettle : ∃ r, settleFields env i st.parityFields spec = .ok r ∧
          ∀ a, r = some a → a = profile.textFields := by
        by_cases hparity : spec.analysis = .parity
        · obtain ⟨fields, hsome, hnames⟩ := hfields (hanalysis ▸ hparity)
          refine ⟨some (fieldNames fields), ?_, fun a ha ↦ Option.some.inj ha ▸ hnames⟩
          rw [settleFields_eq_ok, if_pos hparity]
          exact ⟨fields, hsome, fun a ha ↦ (h.parityFields a ha).trans hnames.symm, rfl⟩
        · refine ⟨st.parityFields, ?_, h.parityFields⟩
          rw [settleFields_eq_ok, if_neg hparity]
      obtain ⟨r, hr, hwithin⟩ := hsettle
      refine ⟨⟨some spec.scalarIndexing, some spec.analysis, r, st.otherWorkload⟩, ?_, ?_⟩
      · refine (profileRound_eq_ok htext).mpr ⟨spec, hspec, ?_, ?_, hr, rfl, rfl, rfl⟩
        · exact fun a ha ↦ (h.scalarIndexing a ha).trans hscalar.symm
        · exact fun a ha ↦ (h.analysis a ha).trans hanalysis.symm
      · exact ⟨fun a ha ↦ Option.some.inj ha ▸ hscalar, fun a ha ↦ Option.some.inj ha ▸ hanalysis,
          hwithin⟩

theorem exists_run {cs : List (SearchConfig × ℕ)} (hsuits : ∀ c ∈ cs, Suits env profile c.1) :
    ∃ st, cs.foldlM (profileRound env) {} = .ok st ∧ Within profile st := by
  refine foldlM_ok_of_inv (fun st hst c hc ↦ hst.exists_round (hsuits c hc)) ?_
  constructor
  · intro a ha
    cases ha
  · intro a ha
    cases ha
  · intro a ha
    cases ha

/-! ## The profile -/

theorem forall_mem_zipIdx {P : SearchConfig → Prop} :
    (∀ c ∈ configs.zipIdx, P c.1) ↔ ∀ c ∈ configs, P c := by
  have hfst : configs.zipIdx.map Prod.fst = configs := List.zipIdx_map_fst 0 configs
  conv_rhs => rw [← hfst]
  exact List.forall_mem_map.symm

theorem exists_mem_zipIdx {P : SearchConfig → Prop} :
    (∃ c ∈ configs.zipIdx, P c.1) ↔ ∃ c ∈ configs, P c := by
  rw [← not_iff_not]
  push Not
  exact forall_mem_zipIdx (P := fun c ↦ ¬P c)

theorem serves_of_finishProfile {r : Option IndexProfile}
    (h : Origin env configs.zipIdx st) (hfinish : finishProfile st = .ok r) :
    Serves env configs r := by
  have hagrees : ∀ c ∈ configs, Agrees env st c := forall_mem_zipIdx.mp h.agrees
  have htexts : st.analysis.isSome = true ↔ ∃ c ∈ configs, c.1.usesTextIndex = true :=
    h.analysis.trans (exists_mem_zipIdx (P := fun c ↦ c.1.usesTextIndex = true))
  have hothers : st.otherWorkload.isSome = true ↔ ∃ c ∈ configs, c.1.usesTextIndex = false :=
    h.other.trans (exists_mem_zipIdx (P := fun c ↦ c.1.usesTextIndex = false))
  rw [finishProfile] at hfinish
  cases hanalysis : st.analysis with
  | none =>
      rw [hanalysis] at hfinish
      cases hfinish
      intro c hc
      refine Bool.not_eq_true _ |>.mp fun htext ↦ ?_
      have hsome := htexts.mpr ⟨c, hc, htext⟩
      rw [hanalysis] at hsome
      cases hsome
  | some analysis =>
      rw [hanalysis] at hfinish
      cases hother : (if analysis = .parity then st.otherWorkload else none) with
      | some w =>
          dsimp only at hfinish
          rw [hother] at hfinish
          cases hfinish
      | none =>
          dsimp only at hfinish
          rw [hother] at hfinish
          cases hfinish
          refine ⟨htexts.mp (by rw [hanalysis]; rfl), ?_, ?_, ?_⟩
          · intro c hc htext
            obtain ⟨spec, hspec, hscalar, hset, hfields⟩ := hagrees c hc htext
            have hsame : spec.analysis = analysis := Option.some.inj (hset.symm.trans hanalysis)
            refine ⟨spec, hspec, by rw [hscalar]; rfl, hsame, fun hparity ↦ ?_⟩
            obtain ⟨fields, hsome, hnames⟩ := hfields (hsame.trans hparity)
            exact ⟨fields, hsome, by rw [hnames]; rfl⟩
          · intro hparity c hc
            refine Bool.not_eq_false _ |>.mp fun htext ↦ ?_
            have hsome := hothers.mpr ⟨c, hc, htext⟩
            rw [if_pos hparity] at hother
            rw [hother] at hsome
            cases hsome
          · intro henglish
            cases hfields : st.parityFields with
            | none => rfl
            | some fields =>
                have hparity := (hanalysis.symm.trans (h.parity fields hfields))
                cases henglish.symm.trans (Option.some.inj hparity)

theorem exists_of_serves {r : Option IndexProfile} (h : Serves env configs r) :
    ∃ r', indexProfile env configs = .ok r' := by
  cases r with
  | none =>
      have hsuits : ∀ c ∈ configs, Suits env ⟨.all, .english, ∅⟩ c :=
        fun c hc htext ↦ absurd htext (Bool.eq_false_iff.mp (h c hc))
      obtain ⟨st, hrun, -⟩ := exists_run (forall_mem_zipIdx.mpr hsuits)
      have htexts := (origin_of_run hrun).analysis.trans
        (exists_mem_zipIdx (P := fun c ↦ c.1.usesTextIndex = true))
      have hnone : st.analysis = none := by
        refine Option.not_isSome_iff_eq_none.mp fun hsome ↦ ?_
        obtain ⟨c, hc, htext⟩ := htexts.mp hsome
        exact absurd htext (Bool.eq_false_iff.mp (h c hc))
      refine ⟨none, ?_⟩
      rw [indexProfile, hrun, ok_bind, finishProfile, hnone]
  | some profile =>
      obtain ⟨-, hsuits, hparity, -⟩ := h
      obtain ⟨st, hrun, hwithin⟩ := exists_run (forall_mem_zipIdx.mpr hsuits)
      have hothers := (origin_of_run hrun).other.trans
        (exists_mem_zipIdx (P := fun c ↦ c.1.usesTextIndex = false))
      rw [indexProfile, hrun, ok_bind, finishProfile]
      cases hanalysis : st.analysis with
      | none => exact ⟨none, rfl⟩
      | some analysis =>
          have hnone : (if analysis = .parity then st.otherWorkload else none) = none := by
            split_ifs with ha
            · refine Option.not_isSome_iff_eq_none.mp fun hsome ↦ ?_
              obtain ⟨c, hc, htext⟩ := hothers.mp hsome
              have hsame := hwithin.analysis analysis hanalysis
              exact absurd (hparity (hsame ▸ ha) c hc) (Bool.eq_false_iff.mp htext)
            · rfl
          dsimp only
          rw [hnone]
          exact ⟨_, rfl⟩

theorem indexProfile_eq_ok {r : Option IndexProfile} :
    indexProfile env configs = .ok r ↔ Serves env configs r := by
  have hsound : ∀ {r}, indexProfile env configs = .ok r → Serves env configs r := by
    intro r h
    obtain ⟨st, hrun, hfinish⟩ := bind_eq_ok.mp h
    exact serves_of_finishProfile (origin_of_run hrun) hfinish
  refine ⟨hsound, fun h ↦ ?_⟩
  obtain ⟨r', hr'⟩ := exists_of_serves h
  rw [hr', h.unique (hsound hr')]

/-- The outcome does not depend on the order of the configs, and a profile serves all of them. -/
theorem indexProfile_serves (env : SpecEnv) (configs : List SearchConfig) :
    (∀ configs', configs'.Perm configs →
      (indexProfile env configs').toOption = (indexProfile env configs).toOption) ∧
    ∀ profile, indexProfile env configs = .ok (some profile) →
      (∀ c ∈ configs, c.1.usesTextIndex = true →
        ∃ spec, parseSpec env c.2 = .ok spec ∧ spec.analysis = profile.analysis ∧
          spec.scalarIndexing = profile.scalarIndexing ∧
          (∀ fields, spec.fields = some fields →
            ∀ field ∈ fieldNames fields, profile.indexesTextField field = true) ∧
          (profile.analysis = .parity →
            ∃ fields, spec.fields = some fields ∧ fieldNames fields = profile.textFields)) ∧
      (profile.analysis = .parity → ∀ c ∈ configs, c.1.usesTextIndex = true) := by
  constructor
  · intro configs' hperm
    ext r
    rw [toOption_eq_some, toOption_eq_some, indexProfile_eq_ok,
      indexProfile_eq_ok]
    exact ⟨fun h ↦ h.of_perm hperm.symm, fun h ↦ h.of_perm hperm⟩
  · intro profile h
    obtain ⟨-, hsuits, hparity, -⟩ := indexProfile_eq_ok.mp h
    refine ⟨fun c hc htext ↦ ?_, hparity⟩
    obtain ⟨spec, hspec, hscalar, hanalysis, hfields⟩ := hsuits c hc htext
    refine ⟨spec, hspec, hanalysis, hscalar, fun fields hsome field hfield ↦ ?_, hfields⟩
    rw [IndexProfile.indexesTextField]
    cases hcase : profile.analysis with
    | english => rfl
    | parity =>
        obtain ⟨fields', hsome', hnames⟩ := hfields hcase
        cases hsome.symm.trans hsome'
        exact decide_eq_true (hnames ▸ hfield)

/-- The analysis and the fields of a block, whose names ascend. -/
def readBlock (v : Json) : Except String FulltextSpec :=
  if v.asObject.isNone then .error "invalid type, expected struct FulltextSpec"
  else
    .ok
      { analysis := if (v.get "analysis").bind Json.asStr = some "parity" then .parity else .english
        fields := ((v.get "fields").bind Json.asObject).map fun fields ↦
          fields.filterMap fun (name, boost) ↦ boost.asF64.map fun x ↦ (name, x) }

def blockEnv : SpecEnv := ⟨readBlock, fun _ ↦ "", fun _ ↦ ""⟩

def parityBlock (title : ℚ) : Json :=
  .object [("analysis", .string "parity"),
    ("fields", .object [("body", .number (.float 1)), ("title", .number (.float title))])]

/-- A fulltext and a hybrid config that search two fields with parity, with other boosts. -/
theorem indexProfile_serves_parity :
    let profile : IndexProfile := ⟨.all, .parity, {"body", "title"}⟩
    let configs : List SearchConfig :=
      [(.fulltext, some (parityBlock 5)), (.hybridRrf, some (parityBlock 2))]
    indexProfile blockEnv configs = .ok (some profile) ∧
      (indexProfile blockEnv configs.reverse).toOption = some (some profile) ∧
      ∃ spec, parseSpec blockEnv (some (parityBlock 2)) = .ok spec ∧
        spec.fields = some [("body", .fin 1), ("title", .fin 2)] ∧
        profile.indexesTextField "title" = true := by
  intro profile configs
  have hok : indexProfile blockEnv configs = .ok (some profile) := by decide +kernel
  obtain ⟨horder, hserves⟩ := indexProfile_serves blockEnv configs
  refine ⟨hok, ?_, ?_⟩
  · rw [horder _ configs.reverse_perm, hok]
    rfl
  · obtain ⟨spec, hspec, -, -, hindexed, -⟩ :=
      (hserves profile hok).1 (.hybridRrf, some (parityBlock 2)) (by simp [configs]) rfl
    have hfields : spec.fields = some [("body", .fin 1), ("title", .fin 2)] := by
      have hread : parseSpec blockEnv (some (parityBlock 2)) = .ok
          { analysis := .parity, fields := some [("body", .fin 1), ("title", .fin 2)] } := rfl
      cases hspec.symm.trans hread
      rfl
    exact ⟨spec, hspec, hfields, hindexed _ hfields "title" (by decide)⟩

end Serves

end VectorDbBenchmark.Fulltext
