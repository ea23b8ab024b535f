import VectorDbBenchmark.Kit.Text

/-!
# Lines as a buffered reader yields them

`BufRead::lines`: the lines of a text without their line breaks, where a line break is a line
feed with or without a carriage return in front of it.
-/

namespace Kit

/-- A line without its line break. -/
def lineText (line : Text) : Text :=
  match line.reverse with
  | '\n' :: '\r' :: rest => rest.reverse
  | '\n' :: rest => rest.reverse
  | _ => line

/-- `reader.lines()`. -/
def bufLines (t : Text) : List Text := (textLines t).map lineText

/-- `writeln!(out, "{line}")` for each line. -/
def writeLines (lines : List Text) : Text := lines.flatMap fun line ↦ line ++ ['\n']

theorem writeLines_singleton (line : Text) : writeLines [line] = line ++ ['\n'] :=
  List.flatMap_singleton _ _

theorem textLines_append {line : Text} (h : '\n' ∉ line) (t : Text) :
    textLines (line ++ '\n' :: t) = (line ++ ['\n']) :: textLines t := by
  induction line with
  | nil => rw [List.nil_append, textLines, if_pos rfl, List.nil_append]
  | cons c line ih =>
      obtain ⟨hc, hline⟩ := not_or.mp (fun hmem ↦ h (List.mem_cons.mpr hmem))
      rw [List.cons_append, textLines, if_neg (Ne.symm hc), ih hline]
      rfl

theorem textLines_writeLines {lines : List Text} (h : ∀ line ∈ lines, '\n' ∉ line) :
    textLines (writeLines lines) = lines.map (· ++ ['\n']) := by
  induction lines with
  | nil => rfl
  | cons line lines ih =>
      obtain ⟨hline, hlines⟩ := List.forall_mem_cons.mp h
      rw [writeLines, List.flatMap_cons, ← writeLines, List.append_assoc, List.singleton_append,
        textLines_append hline, ih hlines, List.map_cons]

/-- A line is a text without line feeds, with a line feed after it or at the end. -/
theorem exists_of_mem_textLines {t line : Text} (h : line ∈ textLines t) :
    ∃ body : Text, '\n' ∉ body ∧ (line = body ∨ line = body ++ ['\n']) := by
  induction t generalizing line with
  | nil => cases h
  | cons c t ih =>
      rw [textLines] at h
      split_ifs at h with hc
      · rcases List.mem_cons.mp h with rfl | h
        · exact ⟨[], List.not_mem_nil, .inr rfl⟩
        · exact ih h
      · split at h
        · rw [List.mem_singleton.mp h]
          exact ⟨[c], by simpa using Ne.symm hc, .inl rfl⟩
        · next first rest hlines =>
            rcases List.mem_cons.mp h with rfl | h
            · obtain ⟨body, hbody, hline⟩ := ih (hlines ▸ List.mem_cons_self)
              refine ⟨c :: body, ?_, ?_⟩
              · rw [List.mem_cons, not_or]
                exact ⟨Ne.symm hc, hbody⟩
              · rcases hline with rfl | rfl
                · exact .inl rfl
                · exact .inr rfl
            · exact ih (hlines ▸ List.mem_cons_of_mem first h)

theorem lineText_of_plain {line : Text} (h : '\n' ∉ line) : lineText line = line := by
  rw [lineText]
  split
  · next rest hrev =>
      have hmem : '\n' ∈ line.reverse := hrev ▸ List.mem_cons_self
      exact absurd (List.mem_reverse.mp hmem) h
  · next rest _ hrev =>
      have hmem : '\n' ∈ line.reverse := hrev ▸ List.mem_cons_self
      exact absurd (List.mem_reverse.mp hmem) h
  · rfl

/-- A line feed after a text that does not end in a carriage return. -/
theorem lineText_append {line : Text} (h : line.getLast? ≠ some '\r') :
    lineText (line ++ ['\n']) = line := by
  have hrev : (line ++ ['\n']).reverse = '\n' :: line.reverse := List.reverse_append
  rw [lineText, hrev]
  split
  · next rest heq =>
      have hlast : line.getLast? = some '\r' := by
        rw [← List.head?_reverse, (List.cons.inj heq).2]
        rfl
      exact absurd hlast h
  · next rest _ heq =>
      rw [← (List.cons.inj heq).2, List.reverse_reverse]
  · next hne => exact absurd rfl (hne _)

theorem not_mem_of_mem_bufLines {t line : Text} (h : line ∈ bufLines t) : '\n' ∉ line := by
  obtain ⟨raw, hraw, rfl⟩ := List.mem_map.mp h
  obtain ⟨body, hbody, rfl | rfl⟩ := exists_of_mem_textLines hraw
  · rwa [lineText_of_plain hbody]
  · intro hmem
    refine hbody ?_
    have hrev : (body ++ ['\n']).reverse = '\n' :: body.reverse := List.reverse_append
    rw [lineText, hrev] at hmem
    split at hmem
    · next rest heq =>
        rw [← List.mem_reverse, (List.cons.inj heq).2]
        exact List.mem_cons_of_mem _ (List.mem_reverse.mp hmem)
    · next rest _ heq =>
        rw [← List.mem_reverse, (List.cons.inj heq).2]
        exact List.mem_reverse.mp hmem
    · next hne => exact absurd rfl (hne _)

/-- The first line, before a line feed. -/
theorem bufLines_append {line : Text} (h : '\n' ∉ line) (hlast : line.getLast? ≠ some '\r')
    (t : Text) : bufLines (line ++ '\n' :: t) = line :: bufLines t := by
  rw [bufLines, textLines_append h, List.map_cons, lineText_append hlast]
  rfl

/-- The first line, before a carriage return and a line feed. -/
theorem bufLines_append_crlf {line : Text} (h : '\n' ∉ line) (t : Text) :
    bufLines (line ++ '\r' :: '\n' :: t) = line :: bufLines t := by
  have hcr : '\n' ∉ line ++ ['\r'] := by simpa using h
  have hsplit : line ++ '\r' :: '\n' :: t = (line ++ ['\r']) ++ '\n' :: t := by
    rw [List.append_assoc, List.singleton_append]
  have htext : lineText ((line ++ ['\r']) ++ ['\n']) = line := by
    rw [lineText, List.reverse_append, List.reverse_append]
    exact List.reverse_reverse line
  rw [bufLines, hsplit, textLines_append hcr, List.map_cons, htext]
  rfl

/-- Written lines are read back. -/
theorem bufLines_writeLines {lines : List Text}
    (h : ∀ line ∈ lines, '\n' ∉ line ∧ line.getLast? ≠ some '\r') :
    bufLines (writeLines lines) = lines := by
  have htext : ∀ line ∈ lines, lineText (line ++ ['\n']) = line :=
    fun line hline ↦ lineText_append (h line hline).2
  rw [bufLines, textLines_writeLines fun line hline ↦ (h line hline).1, List.map_map]
  exact (List.map_congr_left htext).trans (List.map_id _)

end Kit
