import VectorDbBenchmark.Kit.LastWins

/-!
# Sections

Items that open a named section or give a key of the current one a value, read into a map of
maps.  A section that is opened again starts empty, and at its end replaces what was stored
under its name (`build`).  `runs` are the stretches of items between headers, and
`found_iff` says when each key is found with its last value.
-/

namespace Kit

namespace Sections

universe u v w

/-- What one line says. -/
inductive Item (ν : Type u) (κ : Type v) (β : Type w) where
  | skip
  | header (name : ν)
  | entry (key : κ) (value : β)

section Reading

variable {ν : Type u} {κ : Type v} {β : Type w} [DecidableEq ν] [DecidableEq κ]

/-- The sections that are stored, and the current one. -/
structure State (ν : Type u) (κ : Type v) (β : Type w) where
  root : List (ν × List (κ × β))
  current : ν
  entries : List (κ × β)

/-- An empty section is not stored. -/
def State.store (st : State ν κ β) : List (ν × List (κ × β)) :=
  if st.entries = [] then st.root else insertKey st.current st.entries st.root

def State.step (st : State ν κ β) : Item ν κ β → State ν κ β
  | .skip => st
  | .header name => ⟨st.store, name, []⟩
  | .entry key value => { st with entries := insertKey key value st.entries }

/-- The stretches between the headers, each with the name of its section. -/
def runs (name : ν) (entries : List (κ × β)) : List (Item ν κ β) → List (ν × List (κ × β))
  | [] => [(name, entries)]
  | .skip :: items => runs name entries items
  | .header next :: items => (name, entries) :: runs next [] items
  | .entry key value :: items => runs name (entries ++ [(key, value)]) items

/-- One stretch. -/
def storeRun (root : List (ν × List (κ × β))) (run : ν × List (κ × β)) : List (ν × List (κ × β)) :=
  if run.2 = [] then root else insertKey run.1 (insertKeys [] run.2) root

/-- Stretch after stretch. -/
def build (rs : List (ν × List (κ × β))) : List (ν × List (κ × β)) := rs.foldl storeRun []

theorem store_eq_storeRun (root : List (ν × List (κ × β))) (name : ν) (es : List (κ × β)) :
    State.store ⟨root, name, insertKeys [] es⟩ = storeRun root (name, es) := by
  rw [State.store, storeRun]
  dsimp only
  rcases eq_or_ne es [] with rfl | hes
  · rfl
  · rw [if_neg hes, if_neg (insertKeys_ne_nil (.inr hes))]

/-- Reading goes from stretch to stretch. -/
theorem store_foldl_step (root : List (ν × List (κ × β))) (name : ν) (es : List (κ × β))
    (items : List (Item ν κ β)) :
    (items.foldl State.step ⟨root, name, insertKeys [] es⟩).store =
      (runs name es items).foldl storeRun root := by
  induction items generalizing root name es with
  | nil => exact store_eq_storeRun root name es
  | cons item items ih =>
      cases item with
      | skip => exact ih root name es
      | header next =>
          rw [List.foldl_cons, State.step, store_eq_storeRun, runs, List.foldl_cons]
          exact ih _ next []
      | entry key value =>
          have hentry : insertKey key value (insertKeys [] es) =
            insertKeys [] (es ++ [(key, value)]) := by
            rw [insertKeys_append]
            rfl
          rw [List.foldl_cons, State.step, runs, hentry]
          exact ih root name _

end Reading

/-! ## Lookup -/

section Lookup

variable {κ : Type v} {β : Type w} [DecidableEq κ]

/-- The last value for a key. -/
def lastValue (key : κ) (es : List (κ × β)) : Option β := es.reverse.lookup key

theorem lastValue_append (key : κ) (es fs : List (κ × β)) :
    lastValue key (es ++ fs) = (lastValue key fs).or (lastValue key es) := by
  rw [lastValue, List.reverse_append, List.lookup_append]
  rfl

theorem lastValue_eq_none {key : κ} {es : List (κ × β)} :
    lastValue key es = none ↔ key ∉ es.map Prod.fst := by
  rw [lastValue, List.lookup_eq_none_iff, List.mem_map]
  simp only [List.mem_reverse, not_exists, not_and, bne_iff_ne]
  exact forall₂_congr fun e _ ↦ ne_comm

/-- Insertions leave the last value. -/
theorem lookup_insertKeys_nil (key : κ) (es : List (κ × β)) :
    (insertKeys [] es).lookup key = lastValue key es := by
  induction es using List.reverseRecOn with
  | nil => rfl
  | append_singleton es e ih =>
      have hone : insertKeys (insertKeys [] es) [e] = insertKey e.1 e.2 (insertKeys [] es) := rfl
      have hlast : lastValue key [e] = if key = e.1 then some e.2 else none := by
        rw [lastValue, List.reverse_singleton]
        exact lookup_cons_eq key e.1 e.2 []
      rw [insertKeys_append, hone, lookup_insertKey, ih, lastValue_append, hlast]
      split_ifs <;> rfl

end Lookup

section Found

variable {ν : Type u} {κ : Type v} {β : Type w} [DecidableEq ν] [DecidableEq κ]

/-- All entries of a section. -/
def entriesOf (name : ν) (rs : List (ν × List (κ × β))) : List (κ × β) :=
  (rs.filter fun r ↦ r.1 = name).flatMap Prod.snd

/-- The last stretch of a section that has entries. -/
def lastRun (name : ν) (rs : List (ν × List (κ × β))) : List (κ × β) :=
  rs.foldl (fun last r ↦ if r.1 = name ∧ r.2 ≠ [] then r.2 else last) []

theorem lookup_build (name : ν) (rs : List (ν × List (κ × β))) :
    (build rs).lookup name =
      if lastRun name rs = [] then none else some (insertKeys [] (lastRun name rs)) := by
  induction rs using List.reverseRecOn with
  | nil => rfl
  | append_singleton rs r ih =>
      have hbuild : build (rs ++ [r]) = storeRun (build rs) r := List.foldl_append
      have hlast : lastRun name (rs ++ [r]) =
          if r.1 = name ∧ r.2 ≠ [] then r.2 else lastRun name rs := List.foldl_append
      rw [hbuild, hlast, storeRun]
      by_cases hnil : r.2 = []
      · have hsame : ¬(r.1 = name ∧ r.2 ≠ []) := fun h ↦ h.2 hnil
        rw [if_pos hnil, if_neg hsame, ih]
      · rw [if_neg hnil, lookup_insertKey]
        by_cases hname : name = r.1
        · have hnew : r.1 = name ∧ r.2 ≠ [] := ⟨hname.symm, hnil⟩
          rw [if_pos hname, if_pos hnew, if_neg hnil]
        · have hsame : ¬(r.1 = name ∧ r.2 ≠ []) := fun h ↦ hname h.1.symm
          rw [if_neg hname, if_neg hsame, ih]

omit [DecidableEq κ] in
/-- The last stretch is at the end of all entries. -/
theorem exists_entriesOf_eq (name : ν) (rs : List (ν × List (κ × β))) :
    ∃ before, entriesOf name rs = before ++ lastRun name rs := by
  induction rs using List.reverseRecOn with
  | nil => exact ⟨[], rfl⟩
  | append_singleton rs r ih =>
      obtain ⟨before, hbefore⟩ := ih
      have hlast : lastRun name (rs ++ [r]) =
          if r.1 = name ∧ r.2 ≠ [] then r.2 else lastRun name rs := List.foldl_append
      rw [hlast, entriesOf, List.filter_append, List.flatMap_append, ← entriesOf,
        List.filter_singleton]
      rcases eq_or_ne r.1 name with rfl | hname
      · rw [decide_eq_true rfl, cond_true, List.flatMap_singleton]
        split_ifs with h
        · exact ⟨_, rfl⟩
        · have hnil : r.2 = [] := not_not.mp fun hne ↦ h ⟨rfl, hne⟩
          exact ⟨before, by rw [hnil, List.append_nil, hbefore]⟩
      · rw [decide_eq_false hname, cond_false, List.flatMap_nil, List.append_nil,
          if_neg fun h ↦ hname h.1]
        exact ⟨before, hbefore⟩

/-- Each key of a section is in its last stretch. -/
def Recurs (rs : List (ν × List (κ × β))) : Prop :=
  ∀ r ∈ rs, ∀ e ∈ r.2, e.1 ∈ (lastRun r.1 rs).map Prod.fst

omit [DecidableEq κ] in
theorem mem_entriesOf {name : ν} {rs : List (ν × List (κ × β))} {e : κ × β} :
    e ∈ entriesOf name rs ↔ ∃ r ∈ rs, r.1 = name ∧ e ∈ r.2 := by
  simp only [entriesOf, List.mem_flatMap, List.mem_filter, decide_eq_true_eq, and_assoc]

/-- A key is found with its last value when it is in the last stretch of its section, and with
no value otherwise. -/
theorem lookup_build_bind (name : ν) (key : κ) (rs : List (ν × List (κ × β))) :
    ((build rs).lookup name).bind (List.lookup key) = lastValue key (lastRun name rs) := by
  rw [lookup_build]
  split_ifs with h
  · rw [h]
    rfl
  · exact lookup_insertKeys_nil key _

/-- Every key of every section is found with its last value exactly when it recurs in the last
stretch of its section. -/
theorem found_iff (rs : List (ν × List (κ × β))) :
    (∀ name key value, lastValue key (entriesOf name rs) = some value →
      ((build rs).lookup name).bind (List.lookup key) = some value) ↔ Recurs rs := by
  constructor
  · intro h r hr e he
    have hsome : lastValue e.1 (entriesOf r.1 rs) ≠ none := by
      rw [ne_eq, lastValue_eq_none, not_not]
      exact List.mem_map_of_mem (mem_entriesOf.mpr ⟨r, hr, rfl, he⟩)
    obtain ⟨value, hvalue⟩ := Option.ne_none_iff_exists'.mp hsome
    have hfound := h r.1 e.1 value hvalue
    rw [lookup_build_bind] at hfound
    by_contra hmissing
    rw [lastValue_eq_none.mpr hmissing] at hfound
    cases hfound
  · intro h name key value hvalue
    obtain ⟨before, hbefore⟩ := exists_entriesOf_eq name rs
    have hkey : key ∈ (entriesOf name rs).map Prod.fst := by
      by_contra hmissing
      rw [lastValue_eq_none.mpr hmissing] at hvalue
      cases hvalue
    obtain ⟨e, he, rfl⟩ := List.mem_map.mp hkey
    obtain ⟨r, hr, rfl, hentry⟩ := mem_entriesOf.mp he
    have hlast : lastValue e.1 (lastRun r.1 rs) ≠ none := by
      rw [ne_eq, lastValue_eq_none, not_not]
      exact h r hr e hentry
    obtain ⟨last, hlast⟩ := Option.ne_none_iff_exists'.mp hlast
    rw [hbefore, lastValue_append, hlast, Option.some_or] at hvalue
    rw [lookup_build_bind, hlast, hvalue]

end Found

end Sections

end Kit
