import VectorDbBenchmark.Hybrid.RedisFilter

/-!
# The text of a filter leaf

How the filter builder writes a leaf, and that the parser of the checker reads it back
whatever follows, when the names in it have none of the characters that end a name, a
value or a field.
-/

namespace VectorDbBenchmark.Hybrid

open Kit

/-! ## Searching and trimming -/

section Text

variable {α : Type} {a : α}

/-- What occurs in joined parts occurs in one of them or in the separator. -/
theorem mem_intercalate {sep : List α} {xss : List (List α)} (h : a ∈ sep.intercalate xss) :
    ∃ u, (u ∈ xss ∨ u = sep) ∧ a ∈ u := by
  induction xss with
  | nil => exact absurd h List.not_mem_nil
  | cons u us ih =>
      cases us with
      | nil =>
          rcases List.mem_append.mp h with h | h
          · exact ⟨u, .inl List.mem_cons_self, h⟩
          · exact absurd h List.not_mem_nil
      | cons u' us =>
          rw [List.intercalate_cons_cons, List.mem_append, List.mem_append] at h
          rcases h with (h | h) | h
          · exact ⟨u, .inl List.mem_cons_self, h⟩
          · exact ⟨sep, .inr rfl, h⟩
          · obtain ⟨w, hw, ha⟩ := ih h
            exact ⟨w, hw.imp_left (List.mem_cons_of_mem u), ha⟩

end Text

/-- A text without blanks at its ends. -/
structure Tight (t : Text) : Prop where
  head : ∃ c u, t = c :: u ∧ isWhiteSpace c = false
  last : ∃ u c, t = u ++ [c] ∧ isWhiteSpace c = false

theorem trimStart_append {pre t : Text} (hpre : ∀ c ∈ pre, isWhiteSpace c = true) {c : Char}
    (hc : isWhiteSpace c = false) : trimStart (pre ++ c :: t) = c :: t := by
  rw [trimStart, List.dropWhile_append_of_pos hpre]
  exact List.dropWhile_cons_of_neg (by rw [hc]; exact Bool.false_ne_true)

/-- Trimming takes away the blanks around a text. -/
theorem trim_append {pre t post : Text} (hpre : ∀ c ∈ pre, isWhiteSpace c = true)
    (hpost : ∀ c ∈ post, isWhiteSpace c = true) (ht : Tight t) : trim (pre ++ t ++ post) = t := by
  obtain ⟨c, u, hhead, hc⟩ := ht.head
  obtain ⟨v, d, hlast, hd⟩ := ht.last
  have hstart : trimStart (pre ++ t ++ post) = t ++ post := by
    rw [List.append_assoc, hhead, List.cons_append]
    exact trimStart_append hpre hc
  have hend : trimStart (t ++ post).reverse = t.reverse := by
    rw [List.reverse_append, hlast, List.reverse_append, List.reverse_singleton,
      List.singleton_append]
    exact trimStart_append (fun c hc ↦ hpost c (List.mem_reverse.mp hc)) hd
  rw [trim, hstart, hend, List.reverse_reverse]

/-- Parts joined by bars, split at the bars again. -/
theorem map_trim_splitAtSep {pre : Text} (hpre : pre = [] ∨ pre = [' ']) {t : Text}
    {ts : List Text} (h : ∀ u ∈ t :: ts, Tight u ∧ '|' ∉ u) :
    (splitAtSep '|' (pre ++ [' ', '|', ' '].intercalate (t :: ts))).map trim = t :: ts := by
  have hblank : ∀ c ∈ [' '], isWhiteSpace c = true := List.forall_mem_singleton.mpr rfl
  have hblanks : ∀ c ∈ pre, isWhiteSpace c = true := by
    rcases hpre with rfl | rfl
    · exact fun c hc ↦ absurd hc List.not_mem_nil
    · exact hblank
  have hnot : '|' ∉ pre := by
    rcases hpre with rfl | rfl <;> decide
  obtain ⟨htight, hbar⟩ := h t List.mem_cons_self
  induction ts generalizing t pre with
  | nil =>
      have hone : pre ++ [' ', '|', ' '].intercalate [t] = pre ++ t ++ [] :=
        (List.append_assoc pre t []).symm
      rw [hone, splitAtSep_of_not_mem, List.map_singleton, trim_append hblanks]
      · exact fun c hc ↦ absurd hc List.not_mem_nil
      · exact htight
      · rw [List.append_nil, List.mem_append]
        exact not_or.mpr ⟨hnot, hbar⟩
  | cons t' ts ih =>
      have hsplit : pre ++ [' ', '|', ' '].intercalate (t :: t' :: ts) =
          (pre ++ t ++ [' ']) ++ '|' :: ([' '] ++ [' ', '|', ' '].intercalate (t' :: ts)) := by
        rw [List.intercalate_cons_cons]
        simp only [List.append_assoc, List.cons_append, List.nil_append]
      have hnotin : '|' ∉ pre ++ t ++ [' '] := by
        rw [List.mem_append, List.mem_append]
        exact not_or.mpr ⟨not_or.mpr ⟨hnot, hbar⟩, by decide⟩
      rw [hsplit, splitAtSep_append hnotin, List.map_cons, trim_append hblanks hblank htight]
      refine congrArg (t :: ·) ?_
      obtain ⟨htight', hbar'⟩ := h t' (List.mem_cons_of_mem _ List.mem_cons_self)
      exact ih (.inr rfl) (fun u hu ↦ h u (List.mem_cons_of_mem _ hu)) hblank (by decide) htight'
        hbar'

/-! ## Leaves -/

def refText (p : String) : Text := '$' :: p.toList

/-- One end of an interval. -/
def endText (inf : String) : Option (String × Bool) → Text
  | none => inf.toList
  | some (p, true) => '(' :: refText p
  | some (p, false) => refText p

def RLeaf.body : RLeaf → Text
  | .range _ lo hi => endText "-inf" lo ++ ' ' :: endText "+inf" hi
  | .tag _ ps => [' ', '|', ' '].intercalate (ps.map refText)
  | .text _ p => refText p

def RLeaf.field : RLeaf → String
  | .range f _ _ => f
  | .tag f _ => f
  | .text f _ => f

/-- The characters around the value. -/
def RLeaf.brackets : RLeaf → Char × Char
  | .range .. => ('[', ']')
  | .tag .. => ('\x7b', '\x7d')
  | .text .. => ('(', ')')

/-- A leaf as the builder writes it. -/
def RLeaf.render (l : RLeaf) : Text :=
  '@' :: (l.field.toList ++ ':' :: l.brackets.1 :: (l.body ++ [l.brackets.2]))

/-- The characters that end a name, a value or a field. -/
def delimiters : List Char := [' ', ':', '|', ')', ']', '\x7d']

def Plain (name : String) : Prop := ∀ c ∈ name.toList, c ∉ delimiters

/-- A parameter name that is read back. -/
structure NameOk (p : String) : Prop where
  plain : Plain p
  last : ∃ u c, p.toList = u ++ [c] ∧ isWhiteSpace c = false

/-- The parameters of a leaf. -/
def RLeaf.names : RLeaf → List String
  | .range _ lo hi => (lo.toList ++ hi.toList).map Prod.fst
  | .tag _ ps => ps
  | .text _ p => [p]

structure RLeaf.Ok (l : RLeaf) : Prop where
  field : Plain l.field
  names : ∀ p ∈ l.names, NameOk p
  /-- A tag leaf has a value. -/
  value : ∀ f, l ≠ .tag f []

theorem NameOk.notMem {p : String} (h : NameOk p) {c : Char} (hc : c ∈ delimiters) :
    c ∉ refText p := by
  rw [refText, List.mem_cons, not_or]
  refine ⟨?_, fun hmem ↦ h.plain c hmem hc⟩
  rintro rfl
  exact absurd hc (by decide)

theorem NameOk.tight {p : String} (h : NameOk p) : Tight (refText p) := by
  obtain ⟨u, c, hu, hc⟩ := h.last
  exact ⟨⟨'$', p.toList, rfl, by decide⟩, '$' :: u, c, by rw [refText, hu, List.cons_append], hc⟩

theorem NameOk.param {p : String} (h : NameOk p) (debug : Debug) (field : String) :
    param debug field (refText p) = .ok p := by
  obtain ⟨u, c, hu, -⟩ := h.last
  have hne : ¬(p.toList.isEmpty = true ∨ ' ' ∈ p.toList) := by
    rintro (hempty | hblank)
    · rw [hu] at hempty
      exact absurd (List.isEmpty_iff.mp hempty) (List.append_ne_nil_of_right_ne_nil _ (by simp))
    · exact h.plain ' ' hblank (by decide)
  rw [refText, Hybrid.param, if_neg hne, String.ofList_toList]

/-! ## Reading back -/

section ReadBack

variable (debug : Debug) (expr : Text)

/-- A leaf between its brackets, whatever follows. -/
theorem readLeaf_frame {field : String} {opening close : Char} {body : Text}
    (hfield : ':' ∉ field.toList) (hclose : closing opening = some close) (hbody : close ∉ body)
    (tail : Text) :
    readLeaf debug expr ('@' :: (field.toList ++ ':' :: opening :: (body ++ [close])) ++ tail) =
      (leafNode debug field opening body).map fun l ↦ (l, tail) := by
  have htail : ('@' :: (field.toList ++ ':' :: opening :: (body ++ [close])) ++ tail).tail =
      field.toList ++ ':' :: opening :: (body ++ close :: tail) := by
    simp only [List.cons_append, List.append_assoc, List.tail_cons, List.nil_append]
  rw [readLeaf, htail, takeWhile_ne_append hfield, dropWhile_ne_append hfield]
  dsimp only
  rw [hclose]
  dsimp only
  rw [dropWhile_ne_append hbody, takeWhile_ne_append hbody, String.ofList_toList]

theorem side_endText {field inf : String} (hinf : inf = "-inf" ∨ inf = "+inf")
    {e : Option (String × Bool)} (h : ∀ p ∈ e.toList.map Prod.fst, NameOk p) :
    side debug field inf (endText inf e) = .ok e := by
  rcases e with _ | ⟨p, _ | _⟩
  · exact if_pos rfl
  · have hp := h p List.mem_cons_self
    have hne : refText p ≠ inf.toList := by
      rcases hinf with rfl | rfl <;> exact fun h ↦ absurd (List.cons.inj h).1 (by decide)
    unfold side
    rw [endText, if_neg hne]
    exact congrArg (Except.map fun p ↦ some (p, false)) (hp.param debug field)
  · have hp := h p List.mem_cons_self
    have hne : '(' :: refText p ≠ inf.toList := by
      rcases hinf with rfl | rfl <;> exact fun h ↦ absurd (List.cons.inj h).1 (by decide)
    unfold side
    rw [endText, if_neg hne]
    exact congrArg (Except.map fun p ↦ some (p, true)) (hp.param debug field)

theorem notMem_endText {inf : String} (hinf : inf = "-inf" ∨ inf = "+inf")
    {e : Option (String × Bool)} (h : ∀ p ∈ e.toList.map Prod.fst, NameOk p) {c : Char}
    (hc : c ∈ delimiters) : c ∉ endText inf e := by
  rcases e with _ | ⟨p, _ | _⟩
  · rcases hinf with rfl | rfl
    · exact forall_mem_of_all (p := (· ∉ "-inf".toList)) (by decide) c hc
    · exact forall_mem_of_all (p := (· ∉ "+inf".toList)) (by decide) c hc
  · exact (h p List.mem_cons_self).notMem hc
  · rw [endText, List.mem_cons, not_or]
    refine ⟨?_, (h p List.mem_cons_self).notMem hc⟩
    rintro rfl
    exact absurd hc (by decide)

theorem endText_ne_nil {inf : String} (hinf : inf = "-inf" ∨ inf = "+inf")
    (e : Option (String × Bool)) : (endText inf e).isEmpty = false := by
  rcases e with _ | ⟨p, _ | _⟩
  · rcases hinf with rfl | rfl <;> rfl
  · rfl
  · rfl

theorem rangeNode_body {field : String} {lo hi : Option (String × Bool)}
    (h : ∀ p ∈ (lo.toList ++ hi.toList).map Prod.fst, NameOk p) :
    rangeNode debug field (endText "-inf" lo ++ ' ' :: endText "+inf" hi) =
      .ok (.range field lo hi) := by
  rw [List.map_append, List.forall_mem_append] at h
  have hblank : ' ' ∈ delimiters := by decide
  have hparts : (splitAtSep ' ' (endText "-inf" lo ++ ' ' :: endText "+inf" hi)).filter
      (fun t ↦ !t.isEmpty) = [endText "-inf" lo, endText "+inf" hi] := by
    rw [splitAtSep_append (notMem_endText (.inl rfl) h.1 hblank),
      splitAtSep_of_not_mem (notMem_endText (.inr rfl) h.2 hblank), List.filter_cons_of_pos,
      List.filter_cons_of_pos, List.filter_nil]
    · rw [endText_ne_nil (.inr rfl)]
      rfl
    · rw [endText_ne_nil (.inl rfl)]
      rfl
  rw [rangeNode, hparts]
  dsimp only
  rw [side_endText debug (.inl rfl) h.1, side_endText debug (.inr rfl) h.2]
  rfl

theorem tagNode_body {field p : String} {ps : List String} (h : ∀ q ∈ p :: ps, NameOk q) :
    tagNode debug field ([' ', '|', ' '].intercalate ((p :: ps).map refText)) =
      .ok (.tag field (p :: ps)) := by
  have htight : ∀ u ∈ (p :: ps).map refText, Tight u ∧ '|' ∉ u := by
    intro u hu
    obtain ⟨q, hq, rfl⟩ := List.mem_map.mp hu
    exact ⟨(h q hq).tight, (h q hq).notMem (by decide)⟩
  have hparts := map_trim_splitAtSep (.inl rfl) htight
  rw [List.nil_append] at hparts
  have hmap : (splitAtSep '|' ([' ', '|', ' '].intercalate ((p :: ps).map refText))).mapM
      (fun t ↦ param debug field (trim t)) = .ok (p :: ps) := by
    refine mapM_eq_ok.mpr ?_
    have hsame : List.Forall₂ (fun u q ↦ param debug field u = .ok q)
        ((p :: ps).map refText) (p :: ps) :=
      List.forall₂_map_left_iff.mpr (List.forall₂_same.mpr fun q hq ↦ (h q hq).param debug field)
    rw [List.map_cons, ← hparts] at hsame
    exact List.forall₂_map_left_iff.mp hsame
  rw [tagNode, hmap]
  rfl

theorem textNode_body {field p : String} (h : NameOk p) :
    textNode debug field (refText p) = .ok (.text field p) := by
  have htrim : trim (refText p) = refText p := by
    have htrim := trim_append (fun c hc ↦ absurd hc List.not_mem_nil)
      (fun c hc ↦ absurd hc List.not_mem_nil) h.tight
    rwa [List.nil_append, List.append_nil] at htrim
  rw [textNode, htrim, h.param]
  rfl

theorem closing_brackets (l : RLeaf) : closing l.brackets.1 = some l.brackets.2 := by
  cases l <;> rfl

theorem closing_notMem_body {l : RLeaf} (h : l.Ok) : l.brackets.2 ∉ l.body := by
  have hnames := h.names
  rcases l with ⟨f, lo, hi⟩ | ⟨f, ps⟩ | ⟨f, p⟩
  · rw [RLeaf.names, List.map_append, List.forall_mem_append] at hnames
    have hbracket : ']' ∈ delimiters := by decide
    rw [RLeaf.body, List.mem_append, List.mem_cons]
    rintro (hmem | heq | hmem)
    · exact notMem_endText (.inl rfl) hnames.1 hbracket hmem
    · exact absurd heq (by decide : ']' ≠ ' ')
    · exact notMem_endText (.inr rfl) hnames.2 hbracket hmem
  · intro hmem
    obtain ⟨u, hu, hin⟩ := mem_intercalate hmem
    rcases hu with hu | hu
    · obtain ⟨q, hq, rfl⟩ := List.mem_map.mp hu
      exact (hnames q hq).notMem (by decide : '\x7d' ∈ delimiters) hin
    · subst hu
      revert hin
      exact (by decide : '\x7d' ∉ [' ', '|', ' '])
  · exact (hnames p List.mem_cons_self).notMem (by decide : ')' ∈ delimiters)

/-- What stands between the brackets of a leaf is read back. -/
theorem leafNode_body {l : RLeaf} (h : l.Ok) :
    leafNode debug l.field l.brackets.1 l.body = .ok l := by
  rcases l with ⟨f, lo, hi⟩ | ⟨f, _ | ⟨p, ps⟩⟩ | ⟨f, p⟩
  · exact rangeNode_body debug h.names
  · exact absurd rfl (h.value f)
  · exact tagNode_body debug h.names
  · exact textNode_body debug (h.names p List.mem_cons_self)

/-- A rendered leaf is read back, whatever follows it. -/
theorem readLeaf_render {l : RLeaf} (h : l.Ok) (tail : Text) :
    readLeaf debug expr (l.render ++ tail) = .ok (l, tail) := by
  have hfield : ':' ∉ l.field.toList := fun hc ↦ h.field ':' hc (by decide)
  rw [RLeaf.render, readLeaf_frame debug expr hfield (closing_brackets l) (closing_notMem_body h),
    leafNode_body debug h]
  rfl

theorem readsBack_leafReader {l : RLeaf} (h : l.Ok) :
    GroupSyntax.ReadsBack (leafReader debug expr) RLeaf.render l :=
  ⟨⟨_, rfl⟩, fun tail ↦ GroupSyntax.LeafReader.returns_ofRead (readLeaf_render debug expr h tail)⟩

theorem startOk_leafReader : GroupSyntax.StartOk (leafReader debug expr) := by
  exact (by decide : '@' ∉ ['(', ')', '|', ' '])

end ReadBack

/-- A rendered expression is parsed as its tree. -/
theorem parseRedisFilter_render (debug : Debug) {a : GroupSyntax.Alternatives RLeaf}
    (h : ∀ l ∈ a.leaves, l.Ok) :
    parseRedisFilter debug (a.render RLeaf.render) = .ok a.tree :=
  GroupSyntax.parse_render (startOk_leafReader debug _) a
    fun l hl ↦ readsBack_leafReader debug _ (h l hl)

end VectorDbBenchmark.Hybrid
