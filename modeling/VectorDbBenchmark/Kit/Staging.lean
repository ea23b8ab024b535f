import Mathlib.Data.List.Basic
import Mathlib.Logic.Function.Basic
import Mathlib.Tactic

/-!
# Files published from staged copies

A directory is a map from names to contents.  A file is replaced by writing a copy under a
second name, `part name`, and renaming that copy over it.  Publishing any of the files leaves
what a reader sees who prefers staged copies, so that a publication that was interrupted can
be started again.
-/

namespace Kit

universe u v

abbrev Directory (Name : Type u) (Content : Type v) := Name → Option Content

section Staging

variable {Name : Type u} {Content : Type v} {part : Name → Name}

/-- The staged names are apart from the names and from each other. -/
structure Separated (part : Name → Name) (names : List Name) : Prop where
  part_ne : ∀ m ∈ names, ∀ n ∈ names, part m ≠ n
  part_inj : ∀ m ∈ names, ∀ n ∈ names, part m = part n → m = n

theorem Separated.mono {names names' : List Name} (h : Separated part names)
    (hsub : names' ⊆ names) : Separated part names' :=
  ⟨fun m hm n hn ↦ h.part_ne m (hsub hm) n (hsub hn),
    fun m hm n hn ↦ h.part_inj m (hsub hm) n (hsub hn)⟩

/-- The staged copy when there is one, else the file. -/
def staged (part : Name → Name) (d : Directory Name Content) (name : Name) : Option Content :=
  if (d (part name)).isSome then d (part name) else d name

theorem staged_of_none {d : Directory Name Content} {name : Name} (h : d (part name) = none) :
    staged part d name = d name := by
  rw [staged, h]
  rfl

variable [DecidableEq Name]

def rename (src dst : Name) (d : Directory Name Content) : Directory Name Content :=
  Function.update (Function.update d dst (d src)) src none

/-- Rename the staged copy, when there is one, over the file. -/
def publish (part : Name → Name) (d : Directory Name Content) (name : Name) :
    Directory Name Content :=
  if (d (part name)).isSome then rename (part name) name d else d

def publishAll (part : Name → Name) (names : List Name) (d : Directory Name Content) :
    Directory Name Content :=
  names.foldl (publish part) d

theorem publish_apply {d : Directory Name Content} {name : Name} (h : part name ≠ name)
    (x : Name) : publish part d name x =
      if x = name then staged part d name else if x = part name then none else d x := by
  rw [publish, staged]
  split_ifs with hsome hx hpart
  · rw [hx, rename, Function.update_of_ne h.symm, Function.update_self]
  · rw [hpart, rename, Function.update_self]
  · rw [rename, Function.update_of_ne hpart, Function.update_of_ne hx]
  · next hx => rw [hx]
  · next hpart => rw [hpart, Option.not_isSome_iff_eq_none.mp hsome]
  · rfl

section Names

variable {names : List Name}

/-- Publishing a file changes nothing for a reader of staged copies. -/
theorem staged_publish (h : Separated part names) (d : Directory Name Content) {m n : Name}
    (hm : m ∈ names) (hn : n ∈ names) :
    staged part (publish part d n) m = staged part d m := by
  have hself := h.part_ne n hn n hn
  by_cases hmn : m = n
  · subst hmn
    have hpart : publish part d m (part m) = none := by
      rw [publish_apply hself, if_neg hself, if_pos rfl]
    rw [staged_of_none hpart, publish_apply hself, if_pos rfl]
  · have hpart : publish part d n (part m) = d (part m) := by
      rw [publish_apply hself, if_neg (h.part_ne m hm n hn),
        if_neg fun heq ↦ hmn (h.part_inj m hm n hn heq)]
    have hname : publish part d n m = d m := by
      rw [publish_apply hself, if_neg hmn, if_neg (h.part_ne n hn m hm).symm]
    rw [staged, hpart, hname, staged]

theorem staged_publishAll (h : Separated part names) (d : Directory Name Content)
    {published : List Name} (hsub : published ⊆ names) {m : Name} (hm : m ∈ names) :
    staged part (publishAll part published d) m = staged part d m := by
  induction published generalizing d with
  | nil => rfl
  | cons n published ih =>
      obtain ⟨hn, hrest⟩ := List.cons_subset.mp hsub
      rw [publishAll, List.foldl_cons, ← publishAll, ih (publish part d n) hrest,
        staged_publish h d hm hn]

/-- Where every name stands after a publication. -/
theorem publishAll_apply (h : Separated part names) (d : Directory Name Content) (x : Name) :
    publishAll part names d x =
      if x ∈ names then staged part d x
      else if ∃ n ∈ names, x = part n then none else d x := by
  induction names generalizing d with
  | nil =>
      rw [if_neg List.not_mem_nil, if_neg]
      · rfl
      · rintro ⟨n, hn, -⟩
        exact List.not_mem_nil hn
  | cons n names ih =>
      have hn : n ∈ n :: names := List.mem_cons_self
      have hself := h.part_ne n hn n hn
      rw [publishAll, List.foldl_cons, ← publishAll, ih (h.mono (List.subset_cons_self n names))]
      by_cases hx : x ∈ names
      · rw [if_pos hx, if_pos (List.mem_cons_of_mem n hx),
          staged_publish h d (List.mem_cons_of_mem n hx) hn]
      · rw [if_neg hx, publish_apply hself]
        by_cases hxn : x = n
        · subst hxn
          rw [if_pos hn, if_pos rfl, if_neg]
          rintro ⟨m, hm, heq⟩
          exact h.part_ne m (List.mem_cons_of_mem x hm) x hn heq.symm
        · rw [if_neg hxn, if_neg (List.not_mem_cons_of_ne_of_not_mem hxn hx)]
          by_cases hpart : x = part n
          · have hex : ∃ m ∈ n :: names, x = part m := ⟨n, hn, hpart⟩
            rw [if_pos hex, if_pos hpart, ite_self]
          · rw [if_neg hpart]
            refine if_congr ?_ rfl rfl
            constructor
            · rintro ⟨m, hm, heq⟩
              exact ⟨m, List.mem_cons_of_mem n hm, heq⟩
            · rintro ⟨m, hm, heq⟩
              rcases List.mem_cons.mp hm with rfl | hm
              · exact absurd heq hpart
              · exact ⟨m, hm, heq⟩

/-- A publication that was interrupted ends where an uninterrupted one does. -/
theorem publishAll_resume (h : Separated part names) (d : Directory Name Content)
    {published : List Name} (hsub : published ⊆ names) :
    publishAll part names (publishAll part published d) = publishAll part names d := by
  funext x
  rw [publishAll_apply h, publishAll_apply h]
  split_ifs with hx hpart
  · exact staged_publishAll h d hsub hx
  · rfl
  · rw [publishAll_apply (h.mono hsub), if_neg fun hmem ↦ hx (hsub hmem), if_neg]
    rintro ⟨n, hn, heq⟩
    exact hpart ⟨n, hsub hn, heq⟩

end Names

end Staging

end Kit
