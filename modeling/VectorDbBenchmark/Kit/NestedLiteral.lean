import VectorDbBenchmark.Kit.Lexer

/-!
# Nested literals

Lists in brackets and objects in braces over literals of one token; what stands between
their members only separates.  A literal is read token by token, with a stack of the lists
and objects that are open.  What the members of a list are read as makes up what the list is
read as, and all names in what is read are names.
-/

namespace Kit

universe u

inductive Literal (α : Type u) where
  | leaf (a : α)
  | list (items : List (Literal α))
  | object (fields : List (Text × Literal α))

namespace Literal

/-- How literals of one token and the names of fields are spelt. -/
structure Dialect (α : Type u) where
  spelling : Spelling
  isName : Text → Bool
  readLeaf : Token → Option α

/-- Where an object is read on. -/
inductive Slot where
  | free
  | named (k : Text)
  | awaits (k : Text)

inductive Frame (α : Type u) where
  | list (items : List (Literal α))
  | object (fields : List (Text × Literal α)) (slot : Slot)

/-- The lists and objects that are open, the innermost first, and what has been read. -/
structure State (α : Type u) where
  frames : List (Frame α) := []
  result : Option (Literal α) := none

variable {α : Type u} (m : Dialect α)

/-- A literal that is read to its end. -/
def put (v : Literal α) (s : State α) : Option (State α) :=
  match s.frames with
  | [] => if s.result.isSome then none else some { s with result := some v }
  | .list items :: fs => some { s with frames := .list (items ++ [v]) :: fs }
  | .object fields (.awaits k) :: fs =>
    some { s with frames := .object (fields ++ [(k, v)]) .free :: fs }
  | .object _ _ :: _ => none

/-- The end of a list, of an object and of the name of a field. -/
def closeList (s : State α) : Option (State α) :=
  match s.frames with
  | .list items :: fs => put (.list items) { s with frames := fs }
  | _ => none

def closeObject (s : State α) : Option (State α) :=
  match s.frames with
  | .object fields .free :: fs => put (.object fields) { s with frames := fs }
  | _ => none

def endName (s : State α) : Option (State α) :=
  match s.frames with
  | .object fields (.named k) :: fs => some { s with frames := .object fields (.awaits k) :: fs }
  | _ => none

/-- A token that is no punctuation. -/
def word (s : State α) (k : Token) : Option (State α) :=
  match s.frames, k with
  | .object fields .free :: fs, .word w =>
    if m.isName w then some { s with frames := .object fields (.named w) :: fs } else none
  | _, k => (m.readLeaf k).bind fun a ↦ put (.leaf a) s

def step (s : State α) : Token → Option (State α)
  | .punctuation c =>
    if c = '[' then some { s with frames := .list [] :: s.frames }
    else if c = '\x7b' then some { s with frames := .object [] .free :: s.frames }
    else if c = ']' then closeList s
    else if c = '\x7d' then closeObject s
    else if c = ':' then endName s
    else none
  | k => word m s k

/-- What has been read when no list or object is open. -/
def finish (s : State α) : Option (Literal α) :=
  match s.frames with
  | [] => s.result
  | _ => none

def parse (t : Text) : Option (Literal α) :=
  (Lexer.lex m.spelling t).bind fun ts ↦ (ts.foldlM (step m) {}).bind finish

/-! ## Reading -/

section Reading

variable {m}

/-- A literal may stand here. -/
def Ready (s : State α) : Prop := ∀ fields fs, s.frames ≠ .object fields .free :: fs

/-- The tokens are read as the literal, wherever one may stand. -/
def Reads (m : Dialect α) (ts : List Token) (v : Literal α) : Prop :=
  ∀ s, Ready s → ts.foldlM (step m) s = put v s

theorem ready_list (items : List (Literal α)) (fs : List (Frame α)) (r : Option (Literal α)) :
    Ready ⟨.list items :: fs, r⟩ := by
  intro fields fs' h
  cases h

theorem reads_leaf {k : Token} {a : α} (hk : ∀ c, k ≠ .punctuation c)
    (h : m.readLeaf k = some a) : Reads m [k] (.leaf a) := by
  intro s hs
  have hword : word m s k = put (.leaf a) s := by
    unfold word
    split
    · next fields fs w hframes => exact absurd hframes (hs fields fs)
    · rw [h, Option.bind_some]
  have hstep : step m s k = put (.leaf a) s := by
    cases k with
    | punctuation c => exact absurd rfl (hk c)
    | word t => exact hword
    | symbol t => exact hword
    | quoted q t => exact hword
  rw [List.foldlM_cons, hstep]
  cases put (.leaf a) s <;> rfl

/-- The members of a list, one after the other. -/
theorem foldlM_items {tss : List (List Token)} {vs : List (Literal α)}
    (h : List.Forall₂ (Reads m) tss vs) (items : List (Literal α)) (fs : List (Frame α))
    (r : Option (Literal α)) :
    tss.flatten.foldlM (step m) ⟨.list items :: fs, r⟩ = some ⟨.list (items ++ vs) :: fs, r⟩ := by
  induction h generalizing items with
  | nil => rw [List.append_nil]; rfl
  | @cons ts v tss vs hv _ ih =>
      rw [List.flatten_cons, List.foldlM_append, hv _ (ready_list items fs r)]
      show tss.flatten.foldlM (step m) ⟨.list (items ++ [v]) :: fs, r⟩ = _
      rw [ih, List.append_assoc]
      rfl

theorem reads_list {tss : List (List Token)} {vs : List (Literal α)}
    (h : List.Forall₂ (Reads m) tss vs) :
    Reads m (.punctuation '[' :: (tss.flatten ++ [.punctuation ']'])) (.list vs) := by
  intro s _
  show (tss.flatten ++ _).foldlM (step m) ⟨.list [] :: s.frames, s.result⟩ = _
  rw [List.foldlM_append, foldlM_items h, List.nil_append]
  show (put (.list vs) s).bind pure = _
  exact Option.bind_fun_some _

/-- The tokens of a field are its name, a colon and its value. -/
def ReadsField (m : Dialect α) (ts : List Token) (f : Text × Literal α) : Prop :=
  m.isName f.1 = true ∧ ∃ us, ts = .word f.1 :: .punctuation ':' :: us ∧ Reads m us f.2

theorem foldlM_fields {tss : List (List Token)} {fields : List (Text × Literal α)}
    (h : List.Forall₂ (ReadsField m) tss fields) (read : List (Text × Literal α))
    (fs : List (Frame α)) (r : Option (Literal α)) :
    tss.flatten.foldlM (step m) ⟨.object read .free :: fs, r⟩ =
      some ⟨.object (read ++ fields) .free :: fs, r⟩ := by
  induction h generalizing read with
  | nil => rw [List.append_nil]; rfl
  | @cons ts f tss fields hf _ ih =>
      obtain ⟨hname, us, rfl, hus⟩ := hf
      have hready : Ready (⟨.object read (.awaits f.1) :: fs, r⟩ : State α) := by
        intro fields fs' h
        cases h
      have hopen : step m ⟨.object read .free :: fs, r⟩ (.word f.1) =
          some ⟨.object read (.named f.1) :: fs, r⟩ := if_pos hname
      rw [List.flatten_cons, List.foldlM_append, List.foldlM_cons, hopen]
      show ((us.foldlM (step m) ⟨.object read (.awaits f.1) :: fs, r⟩).bind _) = _
      rw [hus _ hready]
      show tss.flatten.foldlM (step m) ⟨.object (read ++ [f]) .free :: fs, r⟩ = _
      rw [ih, List.append_assoc]
      rfl

theorem reads_object {tss : List (List Token)} {fields : List (Text × Literal α)}
    (h : List.Forall₂ (ReadsField m) tss fields) :
    Reads m (.punctuation '\x7b' :: (tss.flatten ++ [.punctuation '\x7d'])) (.object fields) := by
  intro s _
  show (tss.flatten ++ _).foldlM (step m) ⟨.object [] .free :: s.frames, s.result⟩ = _
  rw [List.foldlM_append, foldlM_fields h, List.nil_append]
  show (put (.object fields) s).bind pure = _
  exact Option.bind_fun_some _

theorem Reads.parse {t : Text} {ts : List Token} {v : Literal α}
    (hlex : Lexer.lex m.spelling t = some ts) (h : Reads m ts v) : parse m t = some v := by
  have hready : Ready ({} : State α) := by
    intro fields fs h
    cases h
  rw [Literal.parse, hlex, Option.bind_some, h _ hready]
  rfl

end Reading

/-! ## What is read -/

section Valid

mutual

/-- All names of fields are names, and all leaves are literals of one token. -/
def Valid : Literal α → Prop
  | leaf a => ∃ k, m.readLeaf k = some a
  | list items => ValidEach items
  | object fields => ValidIn fields

def ValidEach : List (Literal α) → Prop
  | [] => True
  | v :: vs => Valid v ∧ ValidEach vs

def ValidIn : List (Text × Literal α) → Prop
  | [] => True
  | (k, v) :: fs => m.isName k = true ∧ Valid v ∧ ValidIn fs

end

variable {m}

theorem validEach_append {vs ws : List (Literal α)} (h : ValidEach m vs) (h' : ValidEach m ws) :
    ValidEach m (vs ++ ws) := by
  induction vs with
  | nil => exact h'
  | cons v vs ih => exact ⟨h.1, ih h.2⟩

theorem validIn_append {fs gs : List (Text × Literal α)} (h : ValidIn m fs) (h' : ValidIn m gs) :
    ValidIn m (fs ++ gs) := by
  induction fs with
  | nil => exact h'
  | cons f fs ih => exact ⟨h.1, h.2.1, ih h.2.2⟩

/-- The names that an open object is waiting with. -/
def Slot.Valid (m : Dialect α) : Slot → Prop
  | .free => True
  | .named k | .awaits k => m.isName k = true

def Frame.Valid (m : Dialect α) : Frame α → Prop
  | .list items => ValidEach m items
  | .object fields slot => ValidIn m fields ∧ slot.Valid m

structure State.Valid (m : Dialect α) (s : State α) : Prop where
  frames : ∀ f ∈ s.frames, f.Valid m
  result : ∀ v, s.result = some v → v.Valid m

theorem State.Valid.put {s s' : State α} (hs : s.Valid m) {v : Literal α} (hv : v.Valid m)
    (h : put v s = some s') : s'.Valid m := by
  obtain ⟨frames, result⟩ := s
  obtain ⟨hframes, hresult⟩ := hs
  rcases frames with _ | ⟨items | ⟨fields, slot⟩, fs⟩
  · rw [Literal.put] at h
    dsimp only at h
    split_ifs at h
    cases h
    refine ⟨hframes, fun w hw ↦ ?_⟩
    cases hw
    exact hv
  · cases h
    rw [List.forall_mem_cons] at hframes
    refine ⟨List.forall_mem_cons.mpr ⟨validEach_append hframes.1 ⟨hv, trivial⟩, hframes.2⟩, hresult⟩
  · cases slot with
    | free => cases h
    | named k => cases h
    | awaits k =>
        cases h
        rw [List.forall_mem_cons] at hframes
        obtain ⟨⟨hfields, hk⟩, hrest⟩ := hframes
        refine ⟨List.forall_mem_cons.mpr ⟨⟨?_, trivial⟩, hrest⟩, hresult⟩
        exact validIn_append hfields ⟨hk, hv, trivial⟩

/-- A step keeps what has been read valid. -/
theorem State.Valid.step {s s' : State α} (hs : s.Valid m) {k : Token}
    (h : step m s k = some s') : s'.Valid m := by
  have hword : word m s k = some s' → s'.Valid m := by
    intro h
    unfold word at h
    split at h
    · next fields fs w hframes h =>
        split_ifs at h with hname
        cases h
        have hvalid := hs.frames
        rw [hframes, List.forall_mem_cons] at hvalid
        exact ⟨List.forall_mem_cons.mpr ⟨⟨hvalid.1.1, hname⟩, hvalid.2⟩, hs.result⟩
    · obtain ⟨a, ha, hput⟩ := Option.bind_eq_some_iff.mp h
      have hleaf : (leaf a).Valid m := ⟨_, ha⟩
      exact hs.put hleaf hput
  cases k with
  | word t => exact hword h
  | symbol t => exact hword h
  | quoted q t => exact hword h
  | punctuation c =>
      rw [Literal.step] at h
      split_ifs at h
      · cases h
        exact ⟨List.forall_mem_cons.mpr ⟨trivial, hs.frames⟩, hs.result⟩
      · cases h
        exact ⟨List.forall_mem_cons.mpr ⟨⟨trivial, trivial⟩, hs.frames⟩, hs.result⟩
      · unfold closeList at h
        split at h
        · next items fs hframes =>
            have hvalid := hs.frames
            rw [hframes, List.forall_mem_cons] at hvalid
            have hlist : (list items).Valid m := hvalid.1
            have hrest : (⟨fs, s.result⟩ : State α).Valid m := ⟨hvalid.2, hs.result⟩
            exact hrest.put hlist h
        · cases h
      · unfold closeObject at h
        split at h
        · next fields fs hframes =>
            have hvalid := hs.frames
            rw [hframes, List.forall_mem_cons] at hvalid
            have hobject : (object fields).Valid m := hvalid.1.1
            have hrest : (⟨fs, s.result⟩ : State α).Valid m := ⟨hvalid.2, hs.result⟩
            exact hrest.put hobject h
        · cases h
      · unfold endName at h
        split at h
        · next fields k fs hframes =>
            cases h
            have hvalid := hs.frames
            rw [hframes, List.forall_mem_cons] at hvalid
            exact ⟨List.forall_mem_cons.mpr ⟨hvalid.1, hvalid.2⟩, hs.result⟩
        · cases h

theorem State.Valid.run {s s' : State α} (hs : s.Valid m) {ts : List Token}
    (h : ts.foldlM (Literal.step m) s = some s') : s'.Valid m := by
  induction ts generalizing s with
  | nil =>
      cases h
      exact hs
  | cons k ts ih =>
      rw [List.foldlM_cons] at h
      obtain ⟨s₁, hstep, hrest⟩ := Option.bind_eq_some_iff.mp h
      exact ih (hs.step hstep) hrest

/-- What is read is valid. -/
theorem valid_of_parse {t : Text} {v : Literal α} (h : parse m t = some v) : v.Valid m := by
  obtain ⟨ts, -, h⟩ := Option.bind_eq_some_iff.mp h
  obtain ⟨s, hrun, hfinish⟩ := Option.bind_eq_some_iff.mp h
  have hinit : ({} : State α).Valid m := ⟨List.forall_mem_nil _, fun v hv ↦ by cases hv⟩
  unfold finish at hfinish
  split at hfinish
  · exact (hinit.run hrun).result v hfinish
  · cases hfinish

end Valid

end Literal

end Kit
