import Mathlib.Data.List.Basic
import Mathlib.Tactic

/-!
# Text as a list of characters

The string operations of a line- and field-oriented parser: decimal numerals that name one
number each, searching for a substring, splitting at a separator or at a kind of character,
trimming, reading up to a line break, and decimal numerals that fit a machine word.
-/

namespace Kit

/-! ## Decimal numerals -/

theorem natRepr_injective {m n : ℕ} (h : Nat.repr m = Nat.repr n) : m = n := by
  have hdigits := congrArg String.toList h
  rw [Nat.toList_repr, Nat.toList_repr] at hdigits
  rw [← Nat.ofDigitChars_ten_toDigits (n := m), hdigits, Nat.ofDigitChars_ten_toDigits]

theorem isDigit_of_mem_natRepr {n : ℕ} {c : Char} (h : c ∈ (Nat.repr n).toList) : c.isDigit := by
  rw [Nat.toList_repr] at h
  exact Nat.isDigit_of_mem_toDigits (by decide) (by decide) h

/-! ## Characters -/

abbrev Text := List Char

/-- A property that is decided at each element. -/
theorem forall_mem_of_all {α : Type*} {p : α → Prop} [DecidablePred p] {xs : List α}
    (h : (xs.all fun x ↦ p x) = true) : ∀ x ∈ xs, p x := fun x hx ↦
  of_decide_eq_true (List.all_eq_true.mp h x hx)

/-- `text.replace(c, sub)` of a single character. -/
def replaceChar (c : Char) (sub t : Text) : Text := t.flatMap fun d ↦ if d = c then sub else [d]

/-- Backslashes are replaced first, and then quotes. -/
def replaceQuote (q : Char) (t : Text) : Text :=
  replaceChar q ['\\', q] (replaceChar '\\' ['\\', '\\'] t)

/-- A text in quotes. -/
def quoteWith (q : Char) (t : Text) : Text := q :: (replaceQuote q t ++ [q])

/-- `str::eq_ignore_ascii_case`. -/
def eqIgnoreAsciiCase (s t : String) : Bool :=
  s.toList.map Char.toLower = t.toList.map Char.toLower

/-! ## Searching and splitting -/

section Search

variable {α : Type*} [DecidableEq α]

/-- The place of the first occurrence of `pat`. -/
def findSub (pat : List α) : List α → Option ℕ
  | [] => if pat.isEmpty then some 0 else none
  | x :: xs => if pat.isPrefixOf (x :: xs) then some 0 else (findSub pat xs).map (· + 1)

/-- `text.contains(pat)`. -/
def containsSub (pat xs : List α) : Bool := (findSub pat xs).isSome

/-- The pieces between the separators, empty ones included. -/
def splitAtSep (sep : α) : List α → List (List α)
  | [] => [[]]
  | x :: xs =>
    if x = sep then [] :: splitAtSep sep xs
    else match splitAtSep sep xs with
      | [] => [[x]]
      | piece :: pieces => (x :: piece) :: pieces

theorem findSub_le {pat xs : List α} {i : ℕ} (h : findSub pat xs = some i) :
    i + pat.length ≤ xs.length := by
  induction xs generalizing i with
  | nil =>
      rw [findSub] at h
      split_ifs at h with hpat
      cases h
      rw [List.isEmpty_iff.mp hpat]
      exact le_rfl
  | cons x xs ih =>
      rw [findSub] at h
      split_ifs at h with hpre
      · cases h
        simpa using (List.isPrefixOf_iff_prefix.mp hpre).length_le
      · obtain ⟨j, hj, rfl⟩ := Option.map_eq_some_iff.mp h
        have := ih hj
        rw [List.length_cons]
        omega

/-- What follows the first occurrence does not matter. -/
theorem findSub_append {pat xs : List α} {i : ℕ} (h : findSub pat xs = some i) (ys : List α) :
    findSub pat (xs ++ ys) = some i := by
  induction xs generalizing i with
  | nil =>
      rw [findSub] at h
      split_ifs at h with hpat
      cases h
      rw [List.isEmpty_iff.mp hpat]
      cases ys <;> rfl
  | cons x xs ih =>
      have hle := findSub_le h
      rw [findSub] at h
      rw [List.cons_append, findSub]
      split_ifs at h with hpre
      · cases h
        have hpre' : pat.isPrefixOf (x :: (xs ++ ys)) = true :=
          List.isPrefixOf_iff_prefix.mpr
            ((List.isPrefixOf_iff_prefix.mp hpre).trans (List.prefix_append (x :: xs) ys))
        rw [if_pos hpre']
      · obtain ⟨j, hj, rfl⟩ := Option.map_eq_some_iff.mp h
        have hpre' : pat.isPrefixOf (x :: (xs ++ ys)) = false := by
          rw [Bool.eq_false_iff]
          intro hp
          refine hpre (List.isPrefixOf_iff_prefix.mpr ?_)
          refine List.prefix_of_prefix_length_le (List.isPrefixOf_iff_prefix.mp hp)
            (List.prefix_append (x :: xs) ys) ?_
          omega
        rw [if_neg (by rw [hpre']; exact Bool.false_ne_true), ih hj]
        rfl

theorem containsSub_append {pat xs : List α} (h : containsSub pat xs = true) (ys : List α) :
    containsSub pat (xs ++ ys) = true := by
  obtain ⟨i, hi⟩ := Option.isSome_iff_exists.mp h
  rw [containsSub, findSub_append hi]
  rfl

theorem containsSub_iff {pat xs : List α} : containsSub pat xs = true ↔ pat <:+: xs := by
  induction xs with
  | nil =>
      rw [containsSub, findSub, List.infix_nil]
      split_ifs with h
      · exact iff_of_true rfl (List.isEmpty_iff.mp h)
      · exact iff_of_false Bool.false_ne_true fun hpat ↦ h (List.isEmpty_iff.mpr hpat)
  | cons x xs ih =>
      rw [containsSub, findSub, List.infix_cons_iff, ← ih, ← List.isPrefixOf_iff_prefix]
      split_ifs with h
      · exact iff_of_true rfl (.inl h)
      · rw [or_iff_right h, Option.isSome_map, containsSub]

/-- The first occurrence of one element, after elements that differ from it. -/
theorem findSub_singleton {a : α} {xs : List α} (h : a ∉ xs) (ys : List α) :
    findSub [a] (xs ++ a :: ys) = some xs.length := by
  induction xs with
  | nil => simp [findSub, List.isPrefixOf]
  | cons x xs ih =>
      have hx : a ≠ x := fun hax ↦ h (hax ▸ List.mem_cons_self)
      rw [List.cons_append, findSub, ih fun ha ↦ h (List.mem_cons_of_mem x ha)]
      simp [List.isPrefixOf, hx]

theorem splitAtSep_of_not_mem {sep : α} {xs : List α} (h : sep ∉ xs) :
    splitAtSep sep xs = [xs] := by
  induction xs with
  | nil => rfl
  | cons x xs ih =>
      have hx : x ≠ sep := fun hxs ↦ h (hxs ▸ List.mem_cons_self)
      rw [splitAtSep, if_neg hx, ih fun hs ↦ h (List.mem_cons_of_mem x hs)]

theorem splitAtSep_ne_nil (sep : α) (xs : List α) : splitAtSep sep xs ≠ [] := by
  cases xs with
  | nil => exact List.cons_ne_nil _ _
  | cons x xs =>
      rw [splitAtSep]
      split_ifs
      · exact List.cons_ne_nil _ _
      · split <;> exact List.cons_ne_nil _ _

theorem splitAtSep_append_sep (sep : α) (xs ys : List α) :
    splitAtSep sep (xs ++ sep :: ys) = splitAtSep sep xs ++ splitAtSep sep ys := by
  induction xs with
  | nil =>
      rw [List.nil_append]
      exact if_pos rfl
  | cons x xs ih =>
      rw [List.cons_append, splitAtSep, splitAtSep, ih]
      split_ifs with hx
      · rfl
      · cases hxs : splitAtSep sep xs with
        | nil => exact absurd hxs (splitAtSep_ne_nil sep xs)
        | cons piece pieces => rfl

theorem splitAtSep_append {sep : α} {xs : List α} (h : sep ∉ xs) (ys : List α) :
    splitAtSep sep (xs ++ sep :: ys) = xs :: splitAtSep sep ys := by
  rw [splitAtSep_append_sep, splitAtSep_of_not_mem h, List.singleton_append]

theorem takeWhile_ne_append {sep : α} {xs : List α} (h : sep ∉ xs) (ys : List α) :
    (xs ++ sep :: ys).takeWhile (· ≠ sep) = xs := by
  rw [List.takeWhile_append_of_pos, List.takeWhile_cons_of_neg, List.append_nil]
  · exact fun hsep ↦ of_decide_eq_true hsep rfl
  · exact fun x hx ↦ decide_eq_true fun hxs ↦ h (hxs ▸ hx)

theorem dropWhile_ne_append {sep : α} {xs : List α} (h : sep ∉ xs) (ys : List α) :
    (xs ++ sep :: ys).dropWhile (· ≠ sep) = sep :: ys := by
  rw [List.dropWhile_append_of_pos, List.dropWhile_cons_of_neg]
  · exact fun hsep ↦ of_decide_eq_true hsep rfl
  · exact fun x hx ↦ decide_eq_true fun hxs ↦ h (hxs ▸ hx)

/-- The first separator separates in one way. -/
theorem append_cons_inj {sep : α} {xs xs' ys ys' : List α} (h : sep ∉ xs) (h' : sep ∉ xs')
    (heq : xs ++ sep :: ys = xs' ++ sep :: ys') : xs = xs' ∧ ys = ys' := by
  have hfront := congrArg (List.takeWhile (· ≠ sep)) heq
  have hback := congrArg (List.dropWhile (· ≠ sep)) heq
  rw [takeWhile_ne_append h, takeWhile_ne_append h'] at hfront
  rw [dropWhile_ne_append h, dropWhile_ne_append h'] at hback
  exact ⟨hfront, (List.cons.inj hback).2⟩

/-- `text.split(pat)`, for a pattern that is not empty. -/
def splitSub (pat xs : List α) : List (List α) :=
  match _h : findSub pat xs with
  | none => [xs]
  | some i =>
    if _hpat : pat = [] then [xs]
    else xs.take i :: splitSub pat (xs.drop (i + pat.length))
termination_by xs.length
decreasing_by
  have := findSub_le _h
  have := List.length_pos_iff.mpr _hpat
  rw [List.length_drop]
  omega

theorem splitSub_of_findSub {pat xs : List α} {i : ℕ} (hpat : pat ≠ [])
    (h : findSub pat xs = some i) :
    splitSub pat xs = xs.take i :: splitSub pat (xs.drop (i + pat.length)) := by
  rw [splitSub]
  split
  · rename_i hn
    rw [hn] at h
    cases h
  · rename_i j hj
    rw [hj] at h
    cases h
    rw [dif_neg hpat]

theorem findSub_eq_none {pat xs : List α} {a : α} (ha : a ∈ pat) (h : a ∉ xs) :
    findSub pat xs = none := by
  induction xs with
  | nil =>
      rw [findSub, if_neg]
      intro hpat
      rw [List.isEmpty_iff.mp hpat] at ha
      cases ha
  | cons x xs ih =>
      rw [findSub, if_neg, ih fun hxs ↦ h (List.mem_cons_of_mem x hxs)]
      · rfl
      · intro hpre
        exact h ((List.isPrefixOf_iff_prefix.mp hpre).subset ha)

theorem splitSub_of_not_mem {pat xs : List α} {a : α} (ha : a ∈ pat) (h : a ∉ xs) :
    splitSub pat xs = [xs] := by
  rw [splitSub]
  split
  · rfl
  · rename_i j hj
    rw [findSub_eq_none ha h] at hj
    cases hj

/-- `rsplit(sep).next()`: what follows the last separator, or everything. -/
def afterLast (sep : α) (xs : List α) : List α := (splitAtSep sep xs).getLast?.getD xs

theorem afterLast_of_not_mem {sep : α} {xs : List α} (h : sep ∉ xs) : afterLast sep xs = xs := by
  rw [afterLast, splitAtSep_of_not_mem h]
  rfl

theorem afterLast_append {sep : α} (xs : List α) {ys : List α} (h : sep ∉ ys) :
    afterLast sep (xs ++ sep :: ys) = ys := by
  rw [afterLast, splitAtSep_append_sep, splitAtSep_of_not_mem h, List.getLast?_append]
  rfl

/-- What follows the last separator is determined, and so is what precedes it. -/
theorem append_last_inj {sep : α} {xs xs' ys ys' : List α} (h : sep ∉ ys)
    (h' : sep ∉ ys') (heq : xs ++ sep :: ys = xs' ++ sep :: ys') : xs = xs' ∧ ys = ys' := by
  have hrev : ys.reverse ++ sep :: xs.reverse = ys'.reverse ++ sep :: xs'.reverse := by
    have := congrArg List.reverse heq
    rwa [List.reverse_append, List.reverse_append, List.reverse_cons, List.reverse_cons,
      List.append_assoc, List.append_assoc, List.singleton_append, List.singleton_append] at this
  obtain ⟨hys, hxs⟩ := append_cons_inj (fun hmem ↦ h (List.mem_reverse.mp hmem))
    (fun hmem ↦ h' (List.mem_reverse.mp hmem)) hrev
  exact ⟨List.reverse_inj.mp hxs, List.reverse_inj.mp hys⟩

/-- What comes before the first separator of a prefix is determined. -/
theorem append_sep_prefix_iff {sep : α} {xs ys zs : List α} (hxs : sep ∉ xs) (hys : sep ∉ ys) :
    xs ++ [sep] <+: ys ++ sep :: zs ↔ xs = ys := by
  constructor
  · rintro ⟨ws, h⟩
    rw [List.append_assoc, List.singleton_append] at h
    have hsplit := congrArg (splitAtSep sep) h
    rw [splitAtSep_append hxs, splitAtSep_append hys] at hsplit
    exact (List.cons.inj hsplit).1
  · rintro rfl
    exact ⟨zs, by rw [List.append_assoc, List.singleton_append]⟩

end Search

section Split

variable {α : Type*} {p : α → Bool}

/-- What a list without separators hands on to both sides of one holds of every piece. -/
theorem forall_mem_splitOnP {Q : List α → Prop}
    (hQ : ∀ xs sep ys, p sep = true → Q (xs ++ sep :: ys) → Q xs ∧ Q ys) {xs : List α} (h : Q xs) :
    ∀ piece ∈ xs.splitOnP p, Q piece ∧ ∀ x ∈ piece, p x = false := by
  induction hn : xs.length using Nat.strong_induction_on generalizing xs with
  | _ n ih =>
      by_cases hsep : ∃ sep ∈ xs, p sep = true
      · obtain ⟨sep, hmem, hp⟩ := hsep
        obtain ⟨ys, zs, rfl⟩ := List.append_of_mem hmem
        rw [List.length_append, List.length_cons] at hn
        obtain ⟨hys, hzs⟩ := hQ ys sep zs hp h
        rw [List.splitOnP_append_cons ys zs hp, List.forall_mem_append]
        exact ⟨ih ys.length (by omega) hys rfl, ih zs.length (by omega) hzs rfl⟩
      · have hnone : ∀ x ∈ xs, p x = false :=
          fun x hx ↦ Bool.eq_false_iff.mpr fun hp ↦ hsep ⟨x, hx, hp⟩
        rw [List.splitOnP_eq_singleton hnone, List.forall_mem_singleton]
        exact ⟨h, hnone⟩

/-- Pieces without separators are split again where they were joined. -/
theorem splitOnP_intercalate {sep : α} (hsep : p sep = true) {pieces : List (List α)}
    (hne : pieces ≠ []) (h : ∀ piece ∈ pieces, ∀ x ∈ piece, p x = false) :
    ([sep].intercalate pieces).splitOnP p = pieces := by
  induction pieces with
  | nil => exact absurd rfl hne
  | cons piece pieces ih =>
      have hpiece := h piece List.mem_cons_self
      cases pieces with
      | nil =>
          rw [List.intercalate_singleton]
          exact List.splitOnP_eq_singleton hpiece
      | cons piece' pieces =>
          rw [List.intercalate_cons_cons, List.append_assoc, List.singleton_append,
            List.splitOnP_append_cons_of_forall_mem hpiece sep hsep,
            ih (List.cons_ne_nil _ _) fun q hq ↦ h q (List.mem_cons_of_mem piece hq)]

end Split

/-! ## Trimming -/

/-- The characters with the Unicode property `White_Space`. -/
def isWhiteSpace (c : Char) : Bool :=
  let n := c.toNat
  (9 ≤ n && n ≤ 13) || n = 0x20 || n = 0x85 || n = 0xA0 || n = 0x1680 ||
    (0x2000 ≤ n && n ≤ 0x200A) || n = 0x2028 || n = 0x2029 || n = 0x202F || n = 0x205F ||
    n = 0x3000

/-- `char::is_control`. -/
def isControl (c : Char) : Bool := c.toNat < 32 || (127 ≤ c.toNat && c.toNat < 160)

def trimStart (t : Text) : Text := t.dropWhile isWhiteSpace

def trim (t : Text) : Text := (trimStart (trimStart t).reverse).reverse

theorem toNat_of_isLower {c : Char} (h : c.isLower = true) : 97 ≤ c.toNat ∧ c.toNat ≤ 122 := by
  have hrange : (decide (97 ≤ c.val) && decide (c.val ≤ 122)) = true := h
  rw [Bool.and_eq_true, decide_eq_true_eq, decide_eq_true_eq] at hrange
  exact ⟨UInt32.le_iff_toNat_le.mp hrange.1, UInt32.le_iff_toNat_le.mp hrange.2⟩

theorem toNat_of_isUpper {c : Char} (h : c.isUpper = true) : 65 ≤ c.toNat ∧ c.toNat ≤ 90 := by
  have hrange : 65 ≤ c.val ∧ c.val ≤ 90 := of_decide_eq_true h
  exact ⟨UInt32.le_iff_toNat_le.mp hrange.1, UInt32.le_iff_toNat_le.mp hrange.2⟩

theorem toNat_of_isDigit {c : Char} (h : c.isDigit = true) : 48 ≤ c.toNat ∧ c.toNat ≤ 57 := by
  have hrange : (decide (48 ≤ c.val) && decide (c.val ≤ 57)) = true := h
  rw [Bool.and_eq_true, decide_eq_true_eq, decide_eq_true_eq] at hrange
  exact ⟨UInt32.le_iff_toNat_le.mp hrange.1, UInt32.le_iff_toNat_le.mp hrange.2⟩

/-- Letters and digits are in three blocks. -/
theorem toNat_of_isAlphanum {c : Char} (h : c.isAlphanum = true) :
    (65 ≤ c.toNat ∧ c.toNat ≤ 90) ∨ (97 ≤ c.toNat ∧ c.toNat ≤ 122) ∨
      (48 ≤ c.toNat ∧ c.toNat ≤ 57) := by
  have hkinds : ((c.isUpper || c.isLower) || c.isDigit) = true := h
  rw [Bool.or_eq_true, Bool.or_eq_true] at hkinds
  rcases hkinds with (hupper | hlower) | hdigit
  · exact .inl (toNat_of_isUpper hupper)
  · exact .inr (.inl (toNat_of_isLower hlower))
  · exact .inr (.inr (toNat_of_isDigit hdigit))

theorem not_isWhiteSpace_of_isDigit {c : Char} (h : c.isDigit = true) : isWhiteSpace c = false := by
  have hrange := toNat_of_isDigit h
  simp only [isWhiteSpace, Bool.or_eq_false_iff, Bool.and_eq_false_iff, decide_eq_false_iff_not]
  omega

theorem not_isWhiteSpace_of_isLower {c : Char} (h : c.isLower = true) : isWhiteSpace c = false := by
  have hrange := toNat_of_isLower h
  simp only [isWhiteSpace, Bool.or_eq_false_iff, Bool.and_eq_false_iff, decide_eq_false_iff_not]
  omega

theorem trimStart_of_blankless {t : Text} (h : ∀ c ∈ t, isWhiteSpace c = false) :
    trimStart t = t := by
  cases t with
  | nil => rfl
  | cons c cs =>
      refine List.dropWhile_cons_of_neg ?_
      rw [h c List.mem_cons_self]
      exact Bool.false_ne_true

/-- A text without blanks is left as it is. -/
theorem trim_of_blankless {t : Text} (h : ∀ c ∈ t, isWhiteSpace c = false) : trim t = t := by
  have hreverse : ∀ c ∈ t.reverse, isWhiteSpace c = false :=
    fun c hc ↦ h c (List.mem_reverse.mp hc)
  rw [trim, trimStart_of_blankless h, trimStart_of_blankless hreverse, List.reverse_reverse]

theorem trimStart_append_blank {c : Char} (hc : isWhiteSpace c = true) (t : Text) :
    trimStart (t ++ [c]) = [] ∧ trimStart t = [] ∨ trimStart (t ++ [c]) = trimStart t ++ [c] := by
  induction t with
  | nil => exact .inl ⟨List.dropWhile_cons_of_pos hc, rfl⟩
  | cons d t ih =>
      rw [List.cons_append, trimStart, trimStart, List.dropWhile_cons, List.dropWhile_cons]
      split_ifs
      · exact ih
      · exact .inr rfl

theorem trimStart_append_solid {c : Char} (hc : isWhiteSpace c = false) (t : Text) :
    trimStart (t ++ [c]) = trimStart t ++ [c] := by
  induction t with
  | nil => exact List.dropWhile_cons_of_neg (by rw [hc]; decide)
  | cons d t ih =>
      rw [List.cons_append, trimStart, trimStart, List.dropWhile_cons, List.dropWhile_cons]
      split_ifs
      · exact ih
      · rfl

/-- Nothing is trimmed before a character that is no blank. -/
theorem trim_cons_solid {c : Char} (hc : isWhiteSpace c = false) (t : Text) :
    trim (c :: t) = c :: (trimStart t.reverse).reverse := by
  have hstart : trimStart (c :: t) = c :: t := List.dropWhile_cons_of_neg (by rw [hc]; decide)
  rw [trim, hstart, List.reverse_cons, trimStart_append_solid hc, List.reverse_append,
    List.reverse_singleton, List.singleton_append]

/-- A blank in front is trimmed. -/
theorem trim_cons_blank {c : Char} (hc : isWhiteSpace c = true) (t : Text) :
    trim (c :: t) = trim t := by
  have hstart : trimStart (c :: t) = trimStart t := List.dropWhile_cons_of_pos hc
  rw [trim, trim, hstart]

/-- A blank at the end is trimmed. -/
theorem trim_append_blank {c : Char} (hc : isWhiteSpace c = true) (t : Text) :
    trim (t ++ [c]) = trim t := by
  rw [trim, trim]
  rcases trimStart_append_blank hc t with ⟨hend, hstart⟩ | hend
  · rw [hend, hstart]
  · have hreverse : trimStart (c :: (trimStart t).reverse) = trimStart (trimStart t).reverse :=
      List.dropWhile_cons_of_pos hc
    rw [hend, List.reverse_append, List.reverse_singleton, List.singleton_append, hreverse]

theorem mem_trimStart {t : Text} {c : Char} (hc : c ∈ t) (h : isWhiteSpace c = false) :
    c ∈ trimStart t := by
  induction t with
  | nil => cases hc
  | cons d t ih =>
      rw [trimStart, List.dropWhile_cons]
      rcases List.mem_cons.mp hc with rfl | hc
      · rw [h]
        exact List.mem_cons_self
      · split_ifs
        · exact ih hc
        · exact List.mem_cons_of_mem d hc

/-- A character that is no blank is not trimmed. -/
theorem mem_trim {t : Text} {c : Char} (hc : c ∈ t) (h : isWhiteSpace c = false) : c ∈ trim t := by
  rw [trim, List.mem_reverse]
  exact mem_trimStart (List.mem_reverse.mpr (mem_trimStart hc h)) h

theorem trim_of_digits {t : Text} (h : ∀ c ∈ t, c.isDigit = true) : trim t = t :=
  trim_of_blankless fun c hc ↦ not_isWhiteSpace_of_isDigit (h c hc)

/-! ## Numerals -/

/-- The digits of a numeral, without a leading plus sign. -/
def stripPlus : Text → Text
  | '+' :: rest => rest
  | t => t

theorem stripPlus_of_head_ne {t : Text} (h : ∀ c ∈ t, c ≠ '+') : stripPlus t = t := by
  cases t with
  | nil => rfl
  | cons c cs =>
      have hc : c ≠ '+' := h c List.mem_cons_self
      rw [stripPlus]
      intro rest heq
      exact hc (List.cons.inj heq).1

/-- `str::parse::<u64>`: an optional plus sign and digits whose value fits. -/
def parseU64 (t : Text) : Option ℕ :=
  let digits := stripPlus t
  if digits.isEmpty || !digits.all Char.isDigit then none
  else
    let n := Nat.ofDigitChars 10 digits 0
    if n < 2 ^ 64 then some n else none

theorem parseU64_repr {n : ℕ} (h : n < 2 ^ 64) : parseU64 n.repr.toList = some n := by
  have hdigits : ∀ c ∈ n.repr.toList, c.isDigit = true := fun c hc ↦ isDigit_of_mem_natRepr hc
  have hne : n.repr.toList ≠ [] := by
    rw [Nat.toList_repr]
    exact Nat.toDigits_ne_nil
  have hvalue : Nat.ofDigitChars 10 n.repr.toList 0 = n := by
    rw [Nat.toList_repr, Nat.ofDigitChars_ten_toDigits]
  have hplus : stripPlus n.repr.toList = n.repr.toList := by
    refine stripPlus_of_head_ne fun c hc ↦ ?_
    rintro rfl
    exact absurd (hdigits '+' hc) (by decide)
  rw [parseU64]
  simp only [hplus, hvalue, if_pos h]
  rw [if_neg]
  rw [Bool.or_eq_true, not_or, List.isEmpty_iff]
  refine ⟨hne, ?_⟩
  rw [Bool.not_eq_true', Bool.not_eq_false, List.all_eq_true]
  exact hdigits

/-- The value of a numeral of digits only. -/
def parseDigits (digits : Text) : Option ℕ :=
  if digits.isEmpty || !digits.all Char.isDigit then none
  else some (Nat.ofDigitChars 10 digits 0)

/-- `str::parse::<i64>`: an optional sign and digits whose value fits. -/
def parseI64 : Text → Option ℤ
  | '-' :: digits => (parseDigits digits).bind fun n ↦ if n ≤ 2 ^ 63 then some (-n : ℤ) else none
  | t => (parseDigits (stripPlus t)).bind fun n ↦ if n < 2 ^ 63 then some (n : ℤ) else none

theorem parseDigits_of_ofDigitChars {t : Text} {n : ℕ} (hne : t ≠ [])
    (hdigits : ∀ c ∈ t, c.isDigit = true) (h : Nat.ofDigitChars 10 t 0 = n) :
    parseDigits t = some n := by
  rw [parseDigits, List.isEmpty_eq_false_iff.mpr hne, List.all_eq_true.mpr hdigits, if_neg, h]
  exact Bool.false_ne_true

theorem isDigit_of_parseDigits {t : Text} {n : ℕ} (h : parseDigits t = some n) :
    ∀ c ∈ t, c.isDigit = true := by
  rw [parseDigits] at h
  split_ifs at h with hdigits
  rw [Bool.or_eq_true, not_or, Bool.not_eq_true', Bool.not_eq_false, List.all_eq_true] at hdigits
  exact hdigits.2

/-- The characters of a signed numeral. -/
theorem mem_of_parseI64 {t : Text} {i : ℤ} (h : parseI64 t = some i) :
    ∀ c ∈ t, c.isDigit = true ∨ c = '-' ∨ c = '+' := by
  intro c hc
  rw [parseI64.eq_def] at h
  split at h
  · obtain ⟨n, hn, -⟩ := Option.bind_eq_some_iff.mp h
    rcases List.mem_cons.mp hc with rfl | hc
    · exact .inr (.inl rfl)
    · exact .inl (isDigit_of_parseDigits hn c hc)
  · obtain ⟨n, hn, -⟩ := Option.bind_eq_some_iff.mp h
    have hdigits := isDigit_of_parseDigits hn
    rw [stripPlus.eq_def] at hdigits
    split at hdigits
    · rcases List.mem_cons.mp hc with rfl | hc
      · exact .inr (.inr rfl)
      · exact .inl (hdigits c hc)
    · exact .inl (hdigits c hc)

/-! ## Lines -/

/-- `BufRead::read_line`: the text up to the next line break, which is kept, and
the rest. -/
def readLine : Text → Text × Text
  | [] => ([], [])
  | c :: cs => if c = '\n' then (['\n'], cs) else (c :: (readLine cs).1, (readLine cs).2)

/-- The lines of a text with their line breaks; a last line may lack one. -/
def textLines : Text → List Text
  | [] => []
  | c :: cs =>
    if c = '\n' then ['\n'] :: textLines cs
    else match textLines cs with
      | [] => [[c]]
      | line :: lines => (c :: line) :: lines

@[simp] theorem textLines_nil : textLines [] = [] := rfl

/-- Reading a line takes the first of the lines. -/
theorem textLines_eq_readLine {t : Text} (h : t ≠ []) :
    textLines t = (readLine t).1 :: textLines (readLine t).2 := by
  induction t with
  | nil => exact absurd rfl h
  | cons c cs ih =>
      rw [textLines, readLine]
      split_ifs with hc
      · rfl
      · by_cases hcs : cs = []
        · subst hcs
          rfl
        · rw [ih hcs]

theorem readLine_eq_nil {t : Text} : (readLine t).1 = [] ↔ t = [] := by
  cases t with
  | nil => exact ⟨fun _ ↦ rfl, fun _ ↦ rfl⟩
  | cons c cs =>
      rw [readLine]
      split_ifs <;> simp

theorem length_readLine_lt {t : Text} (h : t ≠ []) : (readLine t).2.length < t.length := by
  induction t with
  | nil => exact absurd rfl h
  | cons c cs ih =>
      rw [readLine]
      split_ifs
      · exact Nat.lt_succ_self _
      · by_cases hcs : cs = []
        · subst hcs
          exact Nat.succ_pos _
        · exact (ih hcs).trans (Nat.lt_succ_self _)

end Kit
