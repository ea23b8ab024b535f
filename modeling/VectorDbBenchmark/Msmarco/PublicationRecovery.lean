import VectorDbBenchmark.Msmarco.Publication

/-!
# An interrupted publication is finished

The candidate that the recovery validates is what a reader of staged copies sees, and no
rename changes that.  So the recovery can be interrupted after any file operation, any number
of times, and still ends with the same directory, which the ordinary check accepts.
-/

namespace VectorDbBenchmark.Msmarco

open Kit Readers

/-! ## Names -/

theorem separated_names : Separated part ("COMPLETE" :: publishOrder) where
  part_ne := by decide
  part_inj := fun m _ n _ h ↦ (String.append_left_inj ".part").mp h

theorem hybrid_mem_publishOrder : "hybrid_queries.jsonl" ∈ publishOrder := by decide

theorem required_subset_publishOrder (caps : Capabilities) : required caps ⊆ publishOrder := by
  rw [required]
  split_ifs <;> decide

section Names

variable {caps : Capabilities}

theorem containsKey_iff {files : FileInventory} {name : String} :
    files.containsKey name = true ↔ name ∈ files.entries.map Prod.fst := by
  rw [FileInventory.containsKey, FileInventory.get, List.lookup_isSome_iff, List.mem_map]
  constructor
  · rintro ⟨b, hb, hname⟩
    exact ⟨b, hb, (beq_iff_eq.mp hname).symm⟩
  · rintro ⟨b, hb, hname⟩
    exact ⟨b, hb, beq_iff_eq.mpr hname.symm⟩

/-- An inventory of the right size that has the required files has no others. -/
theorem mem_required_of_containsKey (hlen : caps.files.len = (required caps).length)
    (hall : ∀ name ∈ required caps, caps.files.containsKey name = true) {name : String}
    (h : caps.files.containsKey name = true) : name ∈ required caps := by
  have hnodup : (required caps).Nodup := by
    rw [required]
    split_ifs <;> decide
  have hsub : required caps ⊆ caps.files.entries.map Prod.fst := fun n hn ↦
    containsKey_iff.mp (hall n hn)
  have hperm := (hnodup.subperm hsub).perm_of_length_le (by rw [List.length_map]; exact hlen.le)
  exact hperm.mem_iff.mpr (containsKey_iff.mp h)

theorem publishedNames_subset : publishedNames caps ⊆ publishOrder := List.filter_sublist.subset

theorem prepared_mem_publishedNames : "PREPARED.json" ∈ publishedNames caps :=
  List.mem_filter.mpr ⟨by decide, rfl⟩

theorem mem_publishedNames {name : String} (h : name ∈ required caps)
    (hkey : caps.files.containsKey name = true) : name ∈ publishedNames caps := by
  refine List.mem_filter.mpr ⟨required_subset_publishOrder caps h, ?_⟩
  rw [hkey, Bool.or_true]

end Names

/-! ## What the check depends on -/

section Inspect

variable {env : PublicationEnv} {variant : Variant} {caps : Capabilities} {manifest : Json}
  {hashes : Bool}

/-- The path is in the messages only. -/
theorem f32NpyLayout_shown {shown shown' : String} {file : Bytes} {layout : F32NpyLayout}
    (h : f32NpyLayout shown file = .ok layout) : f32NpyLayout shown' file = .ok layout := by
  rw [f32NpyLayout] at h ⊢
  obtain ⟨header, hread, h⟩ := bind_eq_ok.mp h
  rw [hread, ok_bind]
  cases header with
  | none => cases h
  | some header =>
      dsimp only at h ⊢
      split_ifs at h ⊢
      split at h
      · cases h
      · split at h
        · split_ifs at h ⊢
          split at h
          · cases h
          · split_ifs at h ⊢
            exact h
        · cases h

/-- A file that has the size and the digest of its record. -/
theorem checkArtifact_of_record {staged : Bool} {dir : Dir} {name : String}
    {expected : FileIntegrity} {content : Bytes}
    (hget : caps.files.get name = some expected) (hfile : artifact dir staged name = some content)
    (hlen : content.length = expected.bytes.toNat) (hsize : expected.sha256.utf8ByteSize = 64)
    (hhex : (utf8Bytes expected.sha256.toList).all isHexDigit = true)
    (hdigest : env.sha256 content = expected.sha256) :
    checkArtifact env caps hashes staged dir name = .ok () := by
  have hvalid : expected.sha256.toUTF8.toList.all isHexDigit = true := by
    rw [toList_toUTF8]
    exact hhex
  rw [checkArtifact, hget, hfile]
  dsimp only
  rw [digest, hdigest, hvalid, hlen, hsize]
  simp

theorem checkArtifact_congr {staged staged₂ : Bool} {dir dir₂ : Dir} {name : String}
    (hname : artifact dir₂ staged₂ name = artifact dir staged name)
    (h : checkArtifact env caps hashes staged dir name = .ok ()) :
    checkArtifact env caps hashes staged₂ dir₂ name = .ok () := by
  rw [checkArtifact] at h ⊢
  split at h
  · cases h
  · rw [hname]
    split at h
    · cases h
    · exact h

theorem checkShape_congr {staged staged₂ : Bool} {dir dir₂ : Dir}
    (hname : artifact dir₂ staged₂ "vectors.npy" = artifact dir staged "vectors.npy")
    (h : checkShape env variant staged dir = .ok ()) :
    checkShape env variant staged₂ dir₂ = .ok () := by
  rw [checkShape] at h ⊢
  rw [hname]
  split at h
  · cases h
  · obtain ⟨layout, hlayout, hdims⟩ := bind_eq_ok.mp h
    rw [f32NpyLayout_shown hlayout]
    exact hdims

/-- Equal contents pass equally. -/
theorem checkFiles_congr {staged staged₂ : Bool} {dir dir₂ : Dir}
    (hsame : ∀ name ∈ required caps, artifact dir₂ staged₂ name = artifact dir staged name)
    (h : checkFiles env variant hashes staged dir manifest caps = .ok ()) :
    checkFiles env variant hashes staged₂ dir₂ manifest caps = .ok () := by
  rw [checkFiles] at h ⊢
  obtain ⟨⟨⟩, hartifacts, h⟩ := bind_eq_ok.mp h
  obtain ⟨⟨⟩, hshape, h⟩ := bind_eq_ok.mp h
  have htests : artifact dir₂ staged₂ "tests.jsonl" = artifact dir staged "tests.jsonl" :=
    hsame _ (by simp [required])
  have hvectors : artifact dir₂ staged₂ "vectors.npy" = artifact dir staged "vectors.npy" :=
    hsame _ (by simp [required])
  have hartifacts' : (required caps).forM (checkArtifact env caps hashes staged₂ dir₂) =
      .ok ⟨⟩ :=
    forM_eq_ok.mpr fun name hname ↦
      checkArtifact_congr (hsame name hname) (forM_eq_ok.mp hartifacts name hname)
  rw [hartifacts', ok_bind, checkShape_congr hvectors hshape, ok_bind, htests]
  exact h

theorem containsKey_of_checkFiles {staged : Bool} {dir : Dir}
    (h : checkFiles env variant hashes staged dir manifest caps = .ok ()) :
    ∀ name ∈ required caps, caps.files.containsKey name = true := by
  intro name hname
  rw [checkFiles] at h
  obtain ⟨⟨⟩, hartifacts, -⟩ := bind_eq_ok.mp h
  have hartifact := forM_eq_ok.mp hartifacts name hname
  rw [checkArtifact] at hartifact
  split at hartifact
  · cases hartifact
  · next expected hget =>
      rw [FileInventory.containsKey, hget]
      rfl

/-- What the check asks of a candidate. -/
theorem inspect_of_checkFiles {staged : Bool} {dir : Dir} {file : Bytes} {value : Json}
    (hfile : artifact dir staged "PREPARED.json" = some file)
    (hread : env.fromReader file = .ok manifest)
    (hvalue : manifest.get "preparation" = some value) (hcaps : env.fromValue value = .ok caps)
    (hversion : ¬(caps.version ≠ 1 || !caps.vectors || !caps.text || !caps.scalar ||
      (caps.filteredTruth && !caps.vectorTruth)) = true)
    (hcomplete : staged = true ∨ (dir "COMPLETE").isSome)
    (hidentity : identityMatches variant manifest = true)
    (hlen : caps.files.len = (required caps).length)
    (hfiles : checkFiles env variant hashes staged dir manifest caps = .ok ()) :
    inspect env variant hashes staged dir = .ok (some caps) := by
  have hmarker : ¬(!staged && (dir "COMPLETE").isNone) = true := by
    rcases hcomplete with rfl | hsome
    · exact Bool.false_ne_true
    · rw [← Option.not_isSome, hsome, Bool.not_true, Bool.and_false]
      exact Bool.false_ne_true
  have hsame : ¬(!identityMatches variant manifest) = true := by
    rw [hidentity]
    exact Bool.false_ne_true
  rw [inspect, hfile]
  dsimp only
  rw [hread, ok_bind, hvalue]
  dsimp only
  rw [hcaps]
  dsimp only [Except.mapError]
  rw [ok_bind, if_neg hversion, if_neg hmarker, if_neg hsame, if_neg (not_not.mpr hlen), hfiles,
    ok_bind]
  rfl

/-- A candidate that is accepted: its manifest and what was checked of it. -/
theorem inspect_eq_some {staged : Bool} {dir : Dir}
    (h : inspect env variant hashes staged dir = .ok (some caps)) :
    (artifact dir staged "PREPARED.json").isSome ∧ (staged = true ∨ (dir "COMPLETE").isSome) ∧
      caps.files.len = (required caps).length ∧
      ∃ manifest, checkFiles env variant hashes staged dir manifest caps = .ok () ∧
        ∀ staged₂ (dir₂ : Dir),
          artifact dir₂ staged₂ "PREPARED.json" = artifact dir staged "PREPARED.json" →
          (staged₂ = true ∨ (dir₂ "COMPLETE").isSome) →
          checkFiles env variant hashes staged₂ dir₂ manifest caps = .ok () →
          inspect env variant hashes staged₂ dir₂ = .ok (some caps) := by
  rw [inspect] at h
  cases hfile : artifact dir staged "PREPARED.json" with
  | none =>
      rw [hfile] at h
      obtain ⟨⟨⟩, -, h⟩ := bind_eq_ok.mp h
      cases h
  | some file =>
      rw [hfile] at h
      obtain ⟨manifest, hmanifest, h⟩ := bind_eq_ok.mp h
      split at h
      · obtain ⟨⟨⟩, -, h⟩ := bind_eq_ok.mp h
        cases h
      · next value hvalue =>
          obtain ⟨caps', hcaps, h⟩ := bind_eq_ok.mp h
          split_ifs at h with hversion hcomplete hidentity hlen
          obtain ⟨⟨⟩, hfiles, h⟩ := bind_eq_ok.mp h
          cases h
          refine ⟨rfl, ?_, not_not.mp hlen, manifest, hfiles, ?_⟩
          · cases staged with
            | true => exact .inl rfl
            | false =>
                refine .inr (Option.isSome_iff_ne_none.mpr fun hnone ↦ hcomplete ?_)
                rw [hnone]
                rfl
          · intro staged₂ dir₂ hfile' hcomplete' hfiles'
            have hsame : identityMatches variant manifest = true := by simpa using hidentity
            exact inspect_of_checkFiles hfile' hmanifest hvalue (mapError_eq_ok.mp hcaps) hversion
              hcomplete' hsame (not_not.mp hlen) hfiles'

/-- While the marker is missing nothing is certified. -/
theorem check_ne_some {dir : Dir} (h : dir "COMPLETE" = none) :
    check env variant hashes dir ≠ .ok (some caps) := by
  intro hcheck
  rcases (inspect_eq_some hcheck).2.1 with hstaged | hsome
  · cases hstaged
  · rw [h] at hsome
    cases hsome

/-- What has the same files passes the same check. -/
theorem inspect_congr {staged staged₂ : Bool} {dir dir₂ : Dir}
    (h : inspect env variant hashes staged dir = .ok (some caps))
    (hcomplete : staged₂ = true ∨ (dir₂ "COMPLETE").isSome)
    (hsame : ∀ name ∈ publishedNames caps,
      artifact dir₂ staged₂ name = artifact dir staged name) :
    inspect env variant hashes staged₂ dir₂ = .ok (some caps) := by
  obtain ⟨-, -, -, manifest, hfiles, hagain⟩ := inspect_eq_some h
  refine hagain staged₂ dir₂ (hsame _ prepared_mem_publishedNames) hcomplete ?_
  refine checkFiles_congr ?_ hfiles
  intro name hname
  exact hsame name (mem_publishedNames hname (containsKey_of_checkFiles hfiles name hname))

end Inspect

/-! ## The file operations -/

section Steps

variable {caps : Capabilities} {dir : Dir}

theorem artifact_true (dir : Dir) (name : String) :
    artifact dir true name = staged part dir name := by
  rw [artifact, artifactPath, Bool.true_and, staged]
  split_ifs <;> rfl

/-- Without an invalidated filtered truth. -/
def cleared (caps : Capabilities) (dir : Dir) : Dir :=
  if caps.filteredTruth then dir else Function.update dir "hybrid_queries.jsonl" none

/-- Where an uninterrupted recovery ends. -/
def recovered (caps : Capabilities) (dir : Dir) : Dir :=
  Function.update (publishAll part (publishedNames caps) (cleared caps dir)) "COMPLETE"
    (some (asciiBytes "ok\n".toList))

theorem foldl_publish (names : List String) (dir : Dir) :
    (names.map RecoveryStep.publish).foldl RecoveryStep.run dir = publishAll part names dir :=
  List.foldl_map

theorem foldl_recoverySteps (caps : Capabilities) (dir : Dir) :
    (recoverySteps caps).foldl RecoveryStep.run dir = recovered caps dir := by
  rw [recoverySteps, List.foldl_append, List.foldl_append, foldl_publish, recovered, cleared]
  split_ifs <;> rfl

/-- Before its last operation a recovery has published some of the files. -/
theorem foldl_take_recoverySteps {k : ℕ} (hk : k < (recoverySteps caps).length) (dir : Dir) :
    ((recoverySteps caps).take k).foldl RecoveryStep.run dir = dir ∨
      ∃ names ⊆ publishedNames caps,
        ((recoverySteps caps).take k).foldl RecoveryStep.run dir =
          publishAll part names (cleared caps dir) := by
  have hpublish : ∀ j ≤ (publishedNames caps).length, ∀ d : Dir,
      ((((publishedNames caps).map RecoveryStep.publish) ++
        [RecoveryStep.write "COMPLETE" (asciiBytes "ok\n".toList)]).take j).foldl
          RecoveryStep.run d = publishAll part ((publishedNames caps).take j) d := by
    intro j hj d
    rw [List.take_append_of_le_length (by rwa [List.length_map]), ← List.map_take, foldl_publish]
  rw [recoverySteps] at hk ⊢
  rw [cleared]
  split_ifs at hk ⊢ with htruth
  · rw [List.nil_append, List.length_append, List.length_map, List.length_singleton] at hk
    exact .inr ⟨_, List.take_subset _ _, hpublish k (Nat.le_of_lt_succ hk) dir⟩
  · cases k with
    | zero => exact .inl rfl
    | succ k =>
        rw [List.singleton_append, List.length_cons, List.length_append, List.length_map,
          List.length_singleton] at hk
        refine .inr ⟨_, List.take_subset _ _,
          hpublish k (Nat.le_of_lt_succ (Nat.lt_of_succ_lt_succ hk)) _⟩

theorem separated_of_subset {names : List String} (h : names ⊆ publishedNames caps) :
    Separated part ("COMPLETE" :: "hybrid_queries.jsonl" :: names) := by
  refine separated_names.mono (List.cons_subset_cons _ (List.cons_subset.mpr ⟨?_, ?_⟩))
  · exact hybrid_mem_publishOrder
  · exact List.Subset.trans h publishedNames_subset

theorem complete_not_mem_publishedNames : "COMPLETE" ∉ publishedNames caps := by
  intro h
  exact absurd (publishedNames_subset h) (by decide)

theorem staged_cleared (hhybrid : caps.filteredTruth = false →
      "hybrid_queries.jsonl" ∉ publishedNames caps) {name : String}
    (hname : name ∈ publishedNames caps) :
    staged part (cleared caps dir) name = staged part dir name := by
  rw [cleared]
  split_ifs with htruth
  · rfl
  · have hne : name ≠ "hybrid_queries.jsonl" := fun heq ↦
      hhybrid (Bool.eq_false_iff.mpr htruth) (heq ▸ hname)
    have hpart : part name ≠ "hybrid_queries.jsonl" :=
      (separated_of_subset (List.Subset.refl (publishedNames caps))).part_ne name
        (by simp [hname]) _ (by simp)
    rw [staged, staged, Function.update_of_ne hne, Function.update_of_ne hpart]

/-- A name that is not published stands as it was. -/
theorem publishAll_of_not_mem {names : List String} (hsub : names ⊆ publishedNames caps)
    {name : String} (hmem : name ∉ names) (hbase : name ∈ ["COMPLETE", "hybrid_queries.jsonl"]) :
    publishAll part names (cleared caps dir) name = cleared caps dir name := by
  have hsep := separated_of_subset hsub
  rw [publishAll_apply (hsep.mono fun n hn ↦ by simp [hn]), if_neg hmem, if_neg]
  rintro ⟨n, hn, heq⟩
  refine hsep.part_ne n (by simp [hn]) name ?_ heq.symm
  exact List.mem_append_left names hbase

section Published

variable {names : List String} (hsub : names ⊆ publishedNames caps)
  (hhybrid : caps.filteredTruth = false → "hybrid_queries.jsonl" ∉ publishedNames caps)

include hsub

/-- The marker is not among the files that are renamed. -/
theorem publishAll_complete :
    publishAll part names (cleared caps dir) "COMPLETE" = dir "COMPLETE" := by
  rw [publishAll_of_not_mem hsub (fun h ↦ complete_not_mem_publishedNames (hsub h)) (by simp),
    cleared]
  split_ifs
  · rfl
  · exact Function.update_of_ne (by decide) _ _

include hhybrid

theorem staged_published {name : String} (hname : name ∈ publishedNames caps) :
    staged part (publishAll part names (cleared caps dir)) name = staged part dir name := by
  have hsep : Separated part (publishedNames caps) :=
    separated_names.mono fun n hn ↦ List.mem_cons_of_mem _ (publishedNames_subset hn)
  rw [staged_publishAll hsep _ hsub hname, staged_cleared hhybrid hname]

theorem cleared_published : cleared caps (publishAll part names (cleared caps dir)) =
    publishAll part names (cleared caps dir) := by
  cases htruth : caps.filteredTruth with
  | true => simp only [cleared, htruth, if_true]
  | false =>
      have hnone : publishAll part names (cleared caps dir) "hybrid_queries.jsonl" = none := by
        rw [publishAll_of_not_mem hsub (fun h ↦ hhybrid htruth (hsub h)) (by simp), cleared,
          htruth, if_neg Bool.false_ne_true, Function.update_self]
      conv_lhs => rw [cleared, htruth, if_neg Bool.false_ne_true, ← hnone]
      exact Function.update_eq_self _ _

/-- Starting again from there ends at the same directory. -/
theorem recovered_published :
    recovered caps (publishAll part names (cleared caps dir)) = recovered caps dir := by
  have hsep : Separated part (publishedNames caps) :=
    separated_names.mono fun n hn ↦ List.mem_cons_of_mem _ (publishedNames_subset hn)
  rw [recovered, cleared_published hsub hhybrid, publishAll_resume hsep _ hsub, recovered]

end Published

/-- The published files are those of the candidate. -/
theorem artifact_recovered
    (hhybrid : caps.filteredTruth = false → "hybrid_queries.jsonl" ∉ publishedNames caps)
    {name : String} (hname : name ∈ publishedNames caps) :
    artifact (recovered caps dir) false name = artifact dir true name := by
  have hsep : Separated part (publishedNames caps) :=
    separated_names.mono fun n hn ↦ List.mem_cons_of_mem _ (publishedNames_subset hn)
  have hne : name ≠ "COMPLETE" := fun heq ↦ complete_not_mem_publishedNames (heq ▸ hname)
  have hread : artifact (recovered caps dir) false name = recovered caps dir name := rfl
  rw [hread, recovered, Function.update_of_ne hne, publishAll_apply hsep, if_pos hname,
    staged_cleared hhybrid hname, artifact_true]

end Steps

/-! ## Interrupted recoveries -/

section Recovery

variable {env : PublicationEnv} {variant : Variant} {caps : Capabilities} {dir : Dir}

/-- What a directory can be after recoveries that were stopped between two file operations. -/
inductive Interrupted (env : PublicationEnv) (variant : Variant) (dir : Dir) : Dir → Prop where
  | start : Interrupted env variant dir dir
  | stop {crashed : Dir} {k : ℕ} (h : Interrupted env variant dir crashed)
      (hk : k < (recoveryTrace env variant crashed).2.length) :
      Interrupted env variant dir
        (((recoveryTrace env variant crashed).2.take k).foldl RecoveryStep.run crashed)

/-- An accepted candidate has its required files in the inventory and no others. -/
theorem hybrid_not_mem_publishedNames
    (h : inspect env variant true true dir = .ok (some caps))
    (htruth : caps.filteredTruth = false) : "hybrid_queries.jsonl" ∉ publishedNames caps := by
  obtain ⟨-, -, hlen, manifest, hfiles, -⟩ := inspect_eq_some h
  intro hmem
  have hkey : caps.files.containsKey "hybrid_queries.jsonl" = true := (List.mem_filter.mp hmem).2
  have hrequired := mem_required_of_containsKey hlen (containsKey_of_checkFiles hfiles) hkey
  rw [required, htruth] at hrequired
  exact absurd hrequired (by decide)

theorem recoveryTrace_of_accepted (hmissing : dir "COMPLETE" = none)
    (h : inspect env variant true true dir = .ok (some caps)) :
    recoveryTrace env variant dir = (.ok true, recoverySteps caps) := by
  obtain ⟨hmanifest, -⟩ := inspect_eq_some h
  rw [recoveryTrace, hmissing, if_neg, h]
  rw [← Option.not_isSome, hmanifest]
  exact Bool.false_ne_true

theorem recoverPublication_of_accepted (hmissing : dir "COMPLETE" = none)
    (h : inspect env variant true true dir = .ok (some caps)) :
    recoverPublication env variant dir = (.ok true, recovered caps dir) := by
  rw [recoverPublication, recoveryTrace_of_accepted hmissing h, foldl_recoverySteps]

/-- Without an accepted candidate there is nothing to do. -/
theorem recoveryTrace_of_rejected
    (h : ∀ caps, inspect env variant true true dir ≠ .ok (some caps)) :
    (recoveryTrace env variant dir).2 = [] := by
  rw [recoveryTrace]
  split_ifs
  · rfl
  · cases hinspect : inspect env variant true true dir with
    | error e => rfl
    | ok r =>
        cases r with
        | none => rfl
        | some caps => exact absurd hinspect (h caps)

/-- One interruption keeps the candidate, and where its publication ends. -/
theorem crashed_of_accepted (hmissing : dir "COMPLETE" = none)
    (h : inspect env variant true true dir = .ok (some caps)) {k : ℕ}
    (hk : k < (recoverySteps caps).length) {crashed : Dir}
    (hcrashed : crashed = ((recoverySteps caps).take k).foldl RecoveryStep.run dir) :
    crashed "COMPLETE" = none ∧ inspect env variant true true crashed = .ok (some caps) ∧
      recovered caps crashed = recovered caps dir := by
  have hhybrid := hybrid_not_mem_publishedNames h
  rcases foldl_take_recoverySteps hk dir with hstart | ⟨names, hsub, hnames⟩
  · rw [hcrashed, hstart]
    exact ⟨hmissing, h, rfl⟩
  · rw [hcrashed, hnames]
    refine ⟨?_, inspect_congr h (.inl rfl) ?_, recovered_published hsub hhybrid⟩
    · rw [publishAll_complete hsub, hmissing]
    · intro name hname
      rw [artifact_true, artifact_true, staged_published hsub hhybrid hname]

theorem interrupted_of_accepted (hmissing : dir "COMPLETE" = none)
    (h : inspect env variant true true dir = .ok (some caps)) {crashed : Dir}
    (hcrashed : Interrupted env variant dir crashed) :
    crashed "COMPLETE" = none ∧ inspect env variant true true crashed = .ok (some caps) ∧
      recovered caps crashed = recovered caps dir := by
  induction hcrashed with
  | start => exact ⟨hmissing, h, rfl⟩
  | stop _ hk ih =>
      obtain ⟨hmissing', h', hend⟩ := ih
      rw [recoveryTrace_of_accepted hmissing' h'] at hk ⊢
      obtain ⟨hmissing'', h'', hend'⟩ := crashed_of_accepted hmissing' h' hk rfl
      exact ⟨hmissing'', h'', hend'.trans hend⟩

theorem eq_of_interrupted_rejected
    (h : ∀ caps, inspect env variant true true dir ≠ .ok (some caps)) {crashed : Dir}
    (hcrashed : Interrupted env variant dir crashed) : crashed = dir := by
  induction hcrashed with
  | start => rfl
  | stop _ hk ih =>
      rw [ih, recoveryTrace_of_rejected h] at hk
      exact absurd hk (Nat.not_lt_zero _)

/-- What the recovery publishes passes the ordinary check with hashes. -/
theorem check_recovered (h : inspect env variant true true dir = .ok (some caps)) :
    check env variant true (recovered caps dir) = .ok (some caps) := by
  refine inspect_congr h (.inr ?_) ?_
  · rw [recovered, Function.update_self]
    rfl
  · intro name hname
    exact artifact_recovered (hybrid_not_mem_publishedNames h) hname

/-- A file of an accepted set has the digest of its record. -/
theorem digest_of_check (h : check env variant true dir = .ok (some caps)) {name : String}
    {expected : FileIntegrity} (hget : caps.files.get name = some expected) :
    ∃ content, dir name = some content ∧ env.sha256 content = expected.sha256 := by
  obtain ⟨-, -, hlen, manifest, hfiles, -⟩ := inspect_eq_some h
  have hkey : caps.files.containsKey name = true := by
    rw [FileInventory.containsKey, hget]
    rfl
  have hrequired := mem_required_of_containsKey hlen (containsKey_of_checkFiles hfiles) hkey
  rw [checkFiles] at hfiles
  obtain ⟨⟨⟩, hartifacts, -⟩ := bind_eq_ok.mp hfiles
  have hartifact := forM_eq_ok.mp hartifacts name hrequired
  rw [checkArtifact, hget] at hartifact
  dsimp only at hartifact
  split at hartifact
  · cases hartifact
  · next content hcontent =>
      split_ifs at hartifact with _ hdigest
      refine ⟨content, hcontent, ?_⟩
      rw [Bool.true_and, decide_eq_true_eq] at hdigest
      exact not_not.mp hdigest

/-- While the marker is missing, however often the recovery is stopped, the check certifies
nothing; a recovery that is started again publishes what an undisturbed one does, which is the
sealed set; and without an accepted candidate no file changes. -/
theorem recoverPublication_interrupted (env : PublicationEnv) (variant : Variant) (dir : Dir)
    (hmissing : dir "COMPLETE" = none) :
    (∀ crashed, Interrupted env variant dir crashed →
      ∀ hashes caps, check env variant hashes crashed ≠ .ok (some caps)) ∧
    (∀ caps, inspect env variant true true dir = .ok (some caps) →
      ∃ published, recoverPublication env variant dir = (.ok true, published) ∧
        (∀ crashed, Interrupted env variant dir crashed →
          recoverPublication env variant crashed = (.ok true, published)) ∧
        check env variant true published = .ok (some caps) ∧
        ∀ name content, caps.files.get name = some (digest env content) →
          (∀ other, env.sha256 other = env.sha256 content → other = content) →
          published name = some content) ∧
    ((∀ caps, inspect env variant true true dir ≠ .ok (some caps)) →
      (recoverPublication env variant dir).2 = dir) := by
  refine ⟨?_, ?_, ?_⟩
  · intro crashed hcrashed hashes caps
    refine check_ne_some ?_
    by_cases haccepted : ∃ caps, inspect env variant true true dir = .ok (some caps)
    · obtain ⟨caps', h⟩ := haccepted
      exact (interrupted_of_accepted hmissing h hcrashed).1
    · rw [eq_of_interrupted_rejected (not_exists.mp haccepted) hcrashed]
      exact hmissing
  · intro caps h
    have hcheck := check_recovered h
    refine ⟨recovered caps dir, recoverPublication_of_accepted hmissing h, ?_, hcheck, ?_⟩
    · intro crashed hcrashed
      obtain ⟨hmissing', h', hend⟩ := interrupted_of_accepted hmissing h hcrashed
      rw [recoverPublication_of_accepted hmissing' h', hend]
    · intro name content hget hcollision
      obtain ⟨published, hpublished, hdigest⟩ := digest_of_check hcheck hget
      rw [hpublished, hcollision published hdigest]
  · intro h
    rw [recoverPublication, recoveryTrace_of_rejected h]
    rfl

end Recovery

/-! ## The fixture of the unit tests, staged -/

open DeferredNpyF32Writer

/-- A file of one line. -/
theorem fileLines_line {t : Text} (h : ∀ c ∈ t, c.toNat < 128) (hbreak : '\n' ∉ t)
    (hend : t.getLast? ≠ some '\r') : fileLines (asciiBytes (t ++ ['\n'])) = [.ok t] := by
  have hchar : ∀ c ∈ t, ∀ d : Char, d.toNat < 128 →
      UInt8.ofNat c.toNat = UInt8.ofNat d.toNat → c = d := by
    intro c hc d hd hbyte
    have hsame : asciiBytes [c] = asciiBytes [d] := congrArg (fun b ↦ [b]) hbyte
    exact List.singleton_inj.mp (asciiBytes_inj (by simpa using h c hc) (by simpa using hd) hsame)
  have hsep : (0x0A : UInt8) ∉ asciiBytes t := by
    intro hmem
    obtain ⟨c, hc, hbyte⟩ := List.mem_map.mp hmem
    exact hbreak (hchar c hc '\n' (by decide) hbyte ▸ hc)
  have hlast : (asciiBytes t).getLast? ≠ some 0x0D := by
    rw [asciiBytes, List.getLast?_map]
    intro hmap
    obtain ⟨c, hc, hbyte⟩ := Option.map_eq_some_iff.mp hmap
    rw [hchar c (List.mem_of_getLast? hc) '\r' (by decide) hbyte] at hc
    exact hend hc
  have hsplit : splitAtSep 0x0A (asciiBytes (t ++ ['\n'])) = [asciiBytes t, []] := by
    rw [asciiBytes, List.map_append]
    exact splitAtSep_append hsep []
  rw [fileLines, hsplit]
  simp only [List.dropLast, List.map_cons, List.map_nil, if_neg hlast, fromUTF8?_asciiBytes h,
    String.toList_ofList]
  rfl

def fixtureVariant : Variant := ⟨"fixture", 3, 886⟩

/-- A vector with a one in front. -/
def fixtureRow : List F32 := ⟨0x3F800000⟩ :: List.replicate 1023 ⟨0⟩

def fixtureVectors : Bytes := npyF32Header 3 1024 ++ rowBytes (List.replicate 3 fixtureRow)

def fixtureLineFront : Text := "\x7b\"query\":[1.0".toList

def fixtureLineBack : Text :=
  "],\"query_id\":\"q1\",\"query_text\":\"example search\",\"trec_year\":null\x7d".toList

/-- The query row with the same vector. -/
def fixtureLine : Text :=
  fixtureLineFront ++ (List.replicate 1023 ",0.0".toList).flatten ++
    fixtureLineBack

theorem fixtureLine_forall {p : Char → Bool} (hfront : fixtureLineFront.all p = true)
    (hzero : ",0.0".toList.all p = true) (hback : fixtureLineBack.all p = true) :
    ∀ c ∈ fixtureLine, p c = true := by
  intro c hc
  rcases List.mem_append.mp hc with hc | hc
  · rcases List.mem_append.mp hc with hc | hc
    · exact List.all_eq_true.mp hfront c hc
    · obtain ⟨t, ht, hc⟩ := List.mem_flatten.mp hc
      exact List.all_eq_true.mp hzero c (List.eq_of_mem_replicate ht ▸ hc)
  · exact List.all_eq_true.mp hback c hc

def fixtureQuery : Json :=
  .object [
    ("query", .array (.number (.float 1) :: List.replicate 1023 (.number (.float 0)))),
    ("query_id", .string "q1"), ("query_text", .string "example search"), ("trec_year", .null)]

def vectorsRecord : FileIntegrity :=
  ⟨12416, "75bb0f974b54048944fd88034a8c74e77e518a6e1de4bc449ccf0dbcc0935b21"⟩

def testsRecord : FileIntegrity :=
  ⟨4171, "0e4d3a0c22ce246c826c423803e640af27bf9d7a7e554fd5b82eca92db1a2b89"⟩

def fixtureRecords : List (String × FileIntegrity) := [
  ("filter_queries.jsonl",
    ⟨3, "ca3d163bab055381827226140568f3bef7eaac187cebd76878e0b63e9e442356"⟩),
  ("payloads.jsonl", ⟨9, "b65d76e848a9d7b03dbe60a365428da2c08f6c1224b30815dbe5601c93e0eaa3"⟩),
  ("tests.jsonl", testsRecord), ("vectors.npy", vectorsRecord)]

def fixtureCaps : Capabilities where
  version := 1
  vectors := true
  text := true
  scalar := true
  vectorTruth := false
  filteredTruth := false
  files := ⟨fixtureRecords, by decide⟩

def fixturePreparation : Json :=
  .object [
    ("files", .object (fixtureRecords.map fun e ↦
      (e.1, .object [("bytes", .ofNat e.2.bytes.toNat), ("sha256", .string e.2.sha256)]))),
    ("filtered_truth", .bool false), ("scalar", .bool true), ("text", .bool true),
    ("vector_truth", .bool false), ("vectors", .bool true), ("version", .ofNat 1)]

def fixtureManifest : Json :=
  .object [
    ("dataset", .string "fixture"), ("dimensions", .ofNat 1024), ("distance", .string "cosine"),
    ("passages", .ofNat 3), ("preparation", fixturePreparation), ("queries", .ofNat 1),
    ("sampling", .object [("buckets", .ofNat 1000000), ("threshold", .ofNat 886)]),
    ("source_revision", .string hfRevision)]

def fixtureManifestText : String :=
  let record (e : String × FileIntegrity) : String :=
    s!"\"{e.1}\":\x7b\"bytes\":{e.2.bytes},\"sha256\":\"{e.2.sha256}\"\x7d"
  "\x7b\"dataset\":\"fixture\",\"dimensions\":1024,\"distance\":\"cosine\",\"passages\":3," ++
    "\"preparation\":\x7b\"files\":\x7b" ++ ",".intercalate (fixtureRecords.map record) ++
    "\x7d,\"filtered_truth\":false,\"scalar\":true,\"text\":true,\"vector_truth\":false," ++
    "\"vectors\":true,\"version\":1\x7d,\"queries\":1," ++
    "\"sampling\":\x7b\"buckets\":1000000,\"threshold\":886\x7d," ++
    s!"\"source_revision\":\"{hfRevision}\"\x7d"

/-- The digest of the file of a length. -/
def fixtureDigest (length : ℕ) : String :=
  ((fixtureRecords.find? fun e ↦ e.2.bytes.toNat = length).map fun e ↦ e.2.sha256).getD ""

/-- The parsers and the digest on these files. -/
def fixtureEnv : PublicationEnv where
  root := "corpus"
  fromReader _ := .ok fixtureManifest
  fromStr _ := .ok fixtureQuery
  fromValue _ := .ok fixtureCaps
  sha256 content := fixtureDigest content.length

theorem sha256_fixture (content : Bytes) :
    fixtureEnv.sha256 content = fixtureDigest content.length := rfl

/-- The payloads stand already, the filtered truth is of an earlier preparation. -/
def stagedFixture : Dir := fun name ↦
  [("vectors.npy.part", fixtureVectors),
    ("payloads.jsonl", asciiBytes "\x7b\x7d\n\x7b\x7d\n\x7b\x7d\n".toList),
    ("tests.jsonl.part", asciiBytes (fixtureLine ++ ['\n'])),
    ("filter_queries.jsonl.part", asciiBytes "\x7b\x7d\n".toList),
    ("hybrid_queries.jsonl", asciiBytes "\x7b\x7d\n".toList),
    ("PREPARED.json.part", asciiBytes fixtureManifestText.toList)].lookup name

theorem length_fixtureRow : fixtureRow.length = 1024 := by
  rw [fixtureRow, List.length_cons, List.length_replicate]

theorem length_fixtureVectors : fixtureVectors.length = 12416 := by
  have hwidth : ∀ row ∈ List.replicate 3 fixtureRow, row.length = 1024 := fun row hrow ↦ by
    rw [List.eq_of_mem_replicate hrow, length_fixtureRow]
  have hpad : headerPad 3 1024 = 55 := by decide
  rw [fixtureVectors, List.length_append, length_rowBytes hwidth, List.length_replicate,
    length_npyF32Header, hpad]
  decide

theorem length_fixtureLine : fixtureLine.length = 4170 := by
  have hfront : fixtureLineFront.length = 13 := by decide
  have hback : fixtureLineBack.length = 65 := by decide
  have hzero : ",0.0".toList.length = 4 := by decide
  rw [fixtureLine, List.length_append, List.length_append, List.length_flatten, List.map_replicate,
    List.sum_replicate, hfront, hback, hzero]
  rfl

theorem getLast?_fixtureLine : fixtureLine.getLast? = some '\x7d' := by
  have hback : fixtureLineBack.getLast? = some '\x7d' := by decide
  rw [fixtureLine, List.getLast?_append, hback]
  rfl

theorem length_fixtureTests : (asciiBytes (fixtureLine ++ ['\n'])).length = 4171 := by
  rw [length_asciiBytes, List.length_append, length_fixtureLine]
  rfl

theorem artifact_fixtureTests : artifact stagedFixture true "tests.jsonl" =
    some (asciiBytes (fixtureLine ++ ['\n'])) := rfl

theorem checkArtifact_fixture {name : String} (h : name ∈ required fixtureCaps) :
    checkArtifact fixtureEnv fixtureCaps true true stagedFixture name = .ok () := by
  have hnames : required fixtureCaps =
      ["vectors.npy", "payloads.jsonl", "tests.jsonl", "filter_queries.jsonl"] := rfl
  rw [hnames] at h
  simp only [List.mem_cons, List.not_mem_nil, or_false] at h
  rcases h with rfl | rfl | rfl | rfl
  · have hget : fixtureCaps.files.get "vectors.npy" = some vectorsRecord := rfl
    have hfile : artifact stagedFixture true "vectors.npy" = some fixtureVectors := rfl
    have hlen : fixtureVectors.length = vectorsRecord.bytes.toNat := by
      rw [length_fixtureVectors]
      rfl
    have hdigest : fixtureEnv.sha256 fixtureVectors = vectorsRecord.sha256 := by
      rw [sha256_fixture, length_fixtureVectors]
      decide
    exact checkArtifact_of_record hget hfile hlen rfl (by decide) hdigest
  · exact checkArtifact_of_record rfl rfl rfl rfl (by decide) rfl
  · have hget : fixtureCaps.files.get "tests.jsonl" = some testsRecord := rfl
    have hlen : (asciiBytes (fixtureLine ++ ['\n'])).length = testsRecord.bytes.toNat := by
      rw [length_fixtureTests]
      rfl
    have hdigest : fixtureEnv.sha256 (asciiBytes (fixtureLine ++ ['\n'])) = testsRecord.sha256 := by
      rw [sha256_fixture, length_fixtureTests]
      decide
    exact checkArtifact_of_record hget artifact_fixtureTests hlen rfl (by decide) hdigest
  · exact checkArtifact_of_record rfl rfl rfl rfl (by decide) rfl

theorem checkShape_fixture : checkShape fixtureEnv fixtureVariant true stagedFixture = .ok () := by
  have hwidth : ∀ row ∈ List.replicate 3 fixtureRow, row.length = (1024 : UInt64).toNat := by
    intro row hrow
    rw [List.eq_of_mem_replicate hrow, length_fixtureRow]
    rfl
  have hsize : 128 + (List.replicate 3 fixtureRow).length * ((1024 : UInt64).toNat * 4) <
      u64Size := by
    rw [List.length_replicate]
    decide
  have hlayout := f32NpyLayout_written "corpus/vectors.npy.part" (by decide) hsize hwidth
  rw [List.length_replicate] at hlayout
  have hfile : artifact stagedFixture true "vectors.npy" = some fixtureVectors := rfl
  rw [checkShape, hfile]
  dsimp only
  rw [f32NpyLayout_shown (show f32NpyLayout _ fixtureVectors = .ok ⟨3, 1024, 128⟩ from hlayout),
    ok_bind]
  rfl

theorem checkQueryRows_fixture :
    checkQueryRows fixtureEnv (some (asciiBytes (fixtureLine ++ ['\n']))) dim (some 1) false =
      .ok () := by
  have hascii := fixtureLine_forall (p := fun c ↦ decide (c.toNat < 128)) rfl rfl rfl
  have hbreak := fixtureLine_forall (p := (· != '\n')) rfl rfl rfl
  have hlines := fileLines_line (fun c hc ↦ of_decide_eq_true (hascii c hc))
    (fun h ↦ absurd rfl (bne_iff_ne.mp (hbreak _ h)))
    (by rw [getLast?_fixtureLine]; decide)
  have hvalid : validQueryInput dim fixtureQuery = true := by
    have hquery : (fixtureQuery.get "query").bind Json.asArray =
        some (.number (.float 1) :: List.replicate 1023 (.number (.float 0))) := rfl
    rw [validQueryInput, hquery]
    simp only [List.length_cons, List.length_replicate, List.all_cons, List.all_replicate]
    decide
  have hrow : checkQueryRow fixtureEnv dim false 0 (.ok fixtureLine) = .ok 1 := by
    have hparse : fixtureEnv.fromStr fixtureLine = .ok fixtureQuery := rfl
    rw [checkQueryRow, ok_bind, hparse]
    simp only [Except.mapError, ok_bind, hvalid]
    rfl
  rw [checkQueryRows, hlines]
  simp only [List.foldlM_cons, List.foldlM_nil, hrow]
  rfl

theorem checkFiles_fixture : checkFiles fixtureEnv fixtureVariant true true stagedFixture
    fixtureManifest fixtureCaps = .ok () := by
  have hartifacts : (required fixtureCaps).forM
      (checkArtifact fixtureEnv fixtureCaps true true stagedFixture) = .ok ⟨⟩ :=
    forM_eq_ok.mpr fun name hname ↦ checkArtifact_fixture hname
  have hcount : ((fixtureManifest.get "queries").bind Json.asU64).filter (0 < ·) = some 1 := by
    decide
  rw [checkFiles, hartifacts, ok_bind, checkShape_fixture, ok_bind, hcount, artifact_fixtureTests]
  exact checkQueryRows_fixture

theorem inspect_fixture :
    inspect fixtureEnv fixtureVariant true true stagedFixture = .ok (some fixtureCaps) :=
  inspect_of_checkFiles rfl rfl rfl rfl (by decide) (.inl rfl) (by decide +kernel) (by decide)
    checkFiles_fixture

/-- A staged manifest `{}`, which declares no preparation, is left where it is. -/
def stagedEmptyManifest : Dir := fun name ↦
  if name = "PREPARED.json.part" then some (asciiBytes "\x7b\x7d".toList) else none

def emptyManifestEnv : PublicationEnv :=
  ⟨"corpus", fun _ ↦ .ok (.object []),
    fun _ ↦ .error "EOF while parsing a value at line 1 column 0",
    fun _ ↦ .error "missing field: version", fun _ ↦
      "44136fa355b3678a1146ad16f7e8649e94fb4fc21fe77e8310c060f61caaff8a"⟩

/-- A recovery that is stopped after it removed the old filtered truth and published the
vectors: started again it publishes the same set, and the check accepts it.  Without a
preparation nothing is certified and nothing changes. -/
theorem recoverPublication_fixture :
    (∃ crashed published, Interrupted fixtureEnv fixtureVariant stagedFixture crashed ∧
      crashed "hybrid_queries.jsonl" = none ∧ crashed "vectors.npy" = some fixtureVectors ∧
      crashed "tests.jsonl" = none ∧
      recoverPublication fixtureEnv fixtureVariant crashed = (.ok true, published) ∧
      recoverPublication fixtureEnv fixtureVariant stagedFixture = (.ok true, published) ∧
      check fixtureEnv fixtureVariant true published = .ok (some fixtureCaps)) ∧
    (∀ hashes caps, check emptyManifestEnv fixtureVariant hashes stagedEmptyManifest ≠
      .ok (some caps)) ∧
    (recoverPublication emptyManifestEnv fixtureVariant stagedEmptyManifest).2 =
      stagedEmptyManifest := by
  refine ⟨?_, ?_⟩
  · obtain ⟨-, haccepted, -⟩ := recoverPublication_interrupted fixtureEnv fixtureVariant
      stagedFixture rfl
    obtain ⟨published, hrecover, hagain, hcheck, -⟩ := haccepted fixtureCaps inspect_fixture
    have htrace : recoveryTrace fixtureEnv fixtureVariant stagedFixture =
        (.ok true, recoverySteps fixtureCaps) := recoveryTrace_of_accepted rfl inspect_fixture
    have hk : 2 < (recoveryTrace fixtureEnv fixtureVariant stagedFixture).2.length := by
      rw [htrace]
      decide
    have hcrashed := Interrupted.stop .start hk
    rw [htrace] at hcrashed
    exact ⟨_, published, hcrashed, rfl, rfl, rfl, hagain _ hcrashed, hrecover, hcheck⟩
  · obtain ⟨hcheck, -, hrejected⟩ := recoverPublication_interrupted emptyManifestEnv
      fixtureVariant stagedEmptyManifest rfl
    refine ⟨hcheck _ .start, hrejected fun caps h ↦ ?_⟩
    have hnone : inspect emptyManifestEnv fixtureVariant true true stagedEmptyManifest =
        .ok none := rfl
    rw [hnone] at h
    cases h

end VectorDbBenchmark.Msmarco
