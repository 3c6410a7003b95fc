import LiteralPool.Proofs.Complaints
import LiteralPool.Proofs.Layout
import LiteralPool.Proofs.Lines

/-!
# Places in a text

An offset is the length of what stands in front of it. Its position is then the number of line
feeds there and the number of characters behind the last one (`excerpt?_eq`).

A cursor that reads a text stands at such a place, and so does the next one (`StandsIn.next`), so
every answer of a reading, also behind faults, is the answer of a step at a place of the text
(`mem_answers`). What a step found there is a written literal (`exists_written_of_step`) or
something malformed (`exists_about_of_step`).
-/

namespace LiteralPool

namespace Text

/-! ## Line by line -/

/-- A property holds of every text if it holds of a line and carries over a line put in front. -/
@[elab_as_elim]
theorem linewise {motive : List Char → Prop} (last : ∀ cs, '\n' ∉ cs → motive cs)
    (line : ∀ l cs, '\n' ∉ l → motive cs → motive (l ++ '\n' :: cs)) (cs : List Char) :
    motive cs := by
  induction hn : cs.length using Nat.strongRecOn generalizing cs with
  | ind n ih =>
    by_cases h : '\n' ∈ cs
    · obtain ⟨l, more, rfl, hl⟩ := List.eq_append_cons_of_mem h
      have hlt : more.length < n := by
        rw [← hn, List.length_append, List.length_cons]
        omega
      exact line l more hl (ih _ hlt more rfl)
    · exact last cs h

/-- The characters behind the last line feed. -/
def lastLine (cs : List Char) : List Char := cs.rtakeWhile (· != '\n')

theorem lastLine_of_notMem {cs : List Char} (h : '\n' ∉ cs) : lastLine cs = cs := by
  rw [lastLine, List.rtakeWhile_eq_self_iff]
  intro c hc
  rw [bne_iff_ne]
  rintro rfl
  exact h hc

theorem lastLine_append (l cs : List Char) : lastLine (l ++ '\n' :: cs) = lastLine cs := by
  have hstop : ('\n' :: l.reverse).takeWhile (· != '\n') = [] := by simp
  simp only [lastLine, List.rtakeWhile, List.reverse_append, List.reverse_cons, List.append_assoc,
    List.singleton_append, List.takeWhile_append, hstop, List.append_nil]
  split_ifs with h
  · have hall := List.takeWhile_prefix (· != '\n') (l := cs.reverse)
    rw [hall.eq_of_length h]
  · rfl

theorem firstLine_append {cs : List Char} (h : '\n' ∉ cs) (rest : List Char) :
    firstLine (cs ++ rest) = cs ++ firstLine rest := by
  refine List.takeWhile_append_of_pos fun c hc => ?_
  rw [bne_iff_ne]
  rintro rfl
  exact h hc

theorem firstLine_of_notMem {cs : List Char} (h : '\n' ∉ cs) : firstLine cs = cs := by
  simpa [firstLine] using firstLine_append h []

theorem count_line {l : List Char} (h : '\n' ∉ l) (cs : List Char) :
    (l ++ '\n' :: cs).count '\n' = cs.count '\n' + 1 := by
  rw [List.count_append, List.count_eq_zero_of_not_mem h, List.count_cons_self, Nat.zero_add]

/-! ## Positions -/

theorem utf8Length_pos {cs : List Char} (h : cs ≠ []) : 0 < utf8Length cs := by
  obtain ⟨c, cs, rfl⟩ := List.exists_cons_of_ne_nil h
  rw [utf8Length_cons]
  exact Nat.add_pos_left c.utf8Size_pos _

/-- The length of a text that has a character, as a successor. -/
theorem exists_utf8Length_cons (c : Char) (cs : List Char) : ∃ size,
    c.utf8Size = size + 1 ∧ utf8Length (c :: cs) = size + utf8Length cs + 1 := by
  obtain ⟨size, hsize⟩ := Nat.exists_eq_succ_of_ne_zero (Nat.ne_of_gt c.utf8Size_pos)
  refine ⟨size, hsize, ?_⟩
  rw [utf8Length_cons, hsize]
  omega

theorem columnFrom_append (count : Nat) (cs rest : List Char) :
    columnFrom count (utf8Length cs) (cs ++ rest) = some (count + cs.length) := by
  induction cs generalizing count with
  | nil =>
    rw [utf8Length_nil, columnFrom]
    rfl
  | cons c cs ih =>
    obtain ⟨size, hsize, hlength⟩ := exists_utf8Length_cons c cs
    have hfits : c.utf8Size ≤ (size + utf8Length cs) + 1 := by omega
    have hleft : (size + utf8Length cs) + 1 - c.utf8Size = utf8Length cs := by omega
    rw [hlength, List.cons_append, columnFrom, if_pos hfits, hleft, ih, List.length_cons]
    congr 1
    omega

theorem column?_append (cs rest : List Char) :
    column? (utf8Length cs) (cs ++ rest) = some cs.length := by
  rw [column?, columnFrom_append, Nat.zero_add]

/-- A search finds nothing in an empty text. -/
theorem excerptFrom_nil (line offset : Nat) : excerptFrom line offset [] = none := by
  rw [excerptFrom, dif_pos rfl]

/-- A search looks at the first line, and then at those behind its line feed. -/
theorem excerptFrom_line (line offset : Nat) {l : List Char} (hl : '\n' ∉ l) (cs : List Char) :
    excerptFrom line offset (l ++ '\n' :: cs) =
      if offset ≤ utf8Length l then
        (column? offset l).map fun col => ⟨⟨line, col⟩, String.ofList l⟩
      else excerptFrom (line + 1) (offset - (utf8Length l + 1)) cs := by
  obtain ⟨hfirst, hlater⟩ := firstLine_laterLines hl cs
  rw [excerptFrom, dif_neg (by simp)]
  simp only [hfirst, hlater]

/-- Behind a last line that is not ended a search finds nothing more. -/
theorem excerptFrom_last (line offset : Nat) {l : List Char} (hl : '\n' ∉ l) (hne : l ≠ []) :
    excerptFrom line offset l =
      if offset ≤ utf8Length l then
        (column? offset l).map fun col => ⟨⟨line, col⟩, String.ofList l⟩
      else none := by
  have hfirst := firstLine_of_notMem hl
  have hlater : laterLines l = [] := by
    rw [firstLine, List.takeWhile_eq_self_iff] at hfirst
    rw [laterLines, List.dropWhile_eq_nil_iff.mpr hfirst, List.drop_nil]
  rw [excerptFrom, dif_neg hne]
  simp only [hfirst, hlater, excerptFrom_nil]

/-- The position of an offset: line feeds in front of it, and characters behind the last one. -/
theorem excerptFrom_append (line : Nat) (before rest : List Char)
    (h : lastLine before ++ rest ≠ []) :
    excerptFrom line (utf8Length before) (before ++ rest) =
      some ⟨⟨line + before.count '\n', (lastLine before).length⟩,
        String.ofList (lastLine before ++ firstLine rest)⟩ := by
  induction before using linewise generalizing line with
  | last before hbefore =>
    -- The offset is in the first line.
    rw [lastLine_of_notMem hbefore] at h ⊢
    have hsize : utf8Length before ≤ utf8Length (before ++ firstLine rest) := by
      rw [utf8Length_append]
      exact Nat.le_add_right _ _
    rw [excerptFrom, dif_neg h]
    simp only [firstLine_append hbefore, if_pos hsize, column?_append,
      List.count_eq_zero_of_not_mem hbefore]
    rfl
  | line l before hl ih =>
    -- The first line and its line feed are passed, and the offset shrinks by their length.
    have htext : l ++ '\n' :: before ++ rest = l ++ '\n' :: (before ++ rest) := by simp
    have hsize : utf8Length (l ++ '\n' :: before) = utf8Length l + 1 + utf8Length before := by
      rw [utf8Length_append, utf8Length_cons, ← Nat.add_assoc]
      rfl
    have hbeyond : ¬ utf8Length (l ++ '\n' :: before) ≤ utf8Length l := by omega
    have hleft : utf8Length (l ++ '\n' :: before) - (utf8Length l + 1) = utf8Length before := by
      omega
    rw [lastLine_append] at h ⊢
    rw [htext, excerptFrom_line line _ hl, if_neg hbeyond, hleft, ih (line + 1) h, count_line hl,
      Nat.add_comm (before.count '\n'), Nat.add_assoc]

end Text

open Text

theorem Source.excerpt?_eq {s : Source} {before rest : List Char}
    (hs : s.text.toList = before ++ rest) (h : lastLine before ++ rest ≠ []) :
    s.excerpt? (utf8Length before) =
      some ⟨⟨before.count '\n', (lastLine before).length⟩,
        String.ofList (lastLine before ++ firstLine rest)⟩ := by
  rw [excerpt?, hs, excerptFrom_append 0 before rest h, Nat.zero_add]

theorem Diagnostic.foldl_note (d : Diagnostic) (notes : List String) :
    notes.foldl note d = { d with notes := d.notes ++ notes } := by
  induction notes generalizing d with
  | nil => simp
  | cons text notes ih =>
    rw [List.foldl_cons, ih]
    simp [note]

/-- What a diagnostic says about a fault. -/
theorem Source.diagnose_eq (s : Source) (f : Fault) :
    s.diagnose f = ⟨f.cause, s.file, s.excerpt? f.offset, f.notes⟩ := by
  rw [diagnose, Diagnostic.foldl_note]
  rfl

theorem Source.position?_diagnose {s : Source} {f : Fault} {before rest : List Char}
    (hs : s.text.toList = before ++ rest) (h : lastLine before ++ rest ≠ [])
    (hf : f.offset = utf8Length before) :
    (s.diagnose f).position? = some ⟨before.count '\n', (lastLine before).length⟩ := by
  rw [diagnose_eq, Diagnostic.position?, hf, excerpt?_eq hs h]
  rfl

/-! ## Where a cursor stands -/

namespace Cursor

/-- The cursor is at a place of this text. -/
def StandsIn (c : Cursor) (cs : List Char) : Prop :=
  ∃ before, cs = before ++ c.rest ∧ c.offset = utf8Length before

theorem standsIn_start (s : Source) : s.start.StandsIn s.text.toList := ⟨[], rfl, rfl⟩

variable {c : Cursor} {cs : List Char}

theorem next_eq (c : Cursor) :
    c.step.next = ⟨c.skipTrivia.offset + utf8Length (Scan.ofText c.skipTrivia.rest).taken,
      (Scan.ofText c.skipTrivia.rest).rest⟩ := rfl

theorem StandsIn.next (h : c.StandsIn cs) : c.step.next.StandsIn cs := by
  obtain ⟨before, hcs, hoffset⟩ := h
  obtain ⟨lead, hrest, hskip, -⟩ := c.skipTrivia_spec
  have htaken := Scan.taken_append_rest c.skipTrivia.rest
  refine ⟨before ++ lead ++ (Scan.ofText c.skipTrivia.rest).taken, ?_, ?_⟩
  · rw [next_eq, List.append_assoc, List.append_assoc, htaken, ← hrest]
    exact hcs
  · rw [next_eq, hskip, hoffset, utf8Length_append, utf8Length_append]

/-- Every answer is that of a step at a place of the text. -/
theorem mem_answers {answer : Except Fault (Option Token)} {n : Nat} (hc : c.StandsIn cs)
    (h : answer ∈ c.answers n) : ∃ c' : Cursor, c'.StandsIn cs ∧ c'.step.answer = answer := by
  induction n generalizing c with
  | zero => cases h
  | succ n ih =>
    rcases List.mem_cons.mp h with rfl | h
    · exact ⟨c, hc, rfl⟩
    · exact ih hc.next h

/-- A fault that ends a reading is found by a step at a place of the text. -/
theorem exists_step_of_fault {f : Fault} (h : c.read.fault = some f) (hc : c.StandsIn cs) :
    ∃ c' : Cursor, c'.StandsIn cs ∧ c'.step.answer = .error f := by
  induction c using stepwise with
  | token c t hanswer ih =>
    rw [read_of_token hanswer] at h
    exact ih h hc.next
  | done c hanswer =>
    rw [read_of_end hanswer] at h
    cases h
  | fault c g hanswer =>
    rw [read_of_fault hanswer] at h
    obtain rfl : g = f := Option.some.inj h
    exact ⟨c, hc, hanswer⟩

/-- A fault is what a malformed text is complained about, behind trivia. -/
theorem exists_about_of_step {f : Fault} (h : c.step.answer = .error f) :
    ∃ (lead taken rest : List Char) (e : Complaint),
      c.rest = lead ++ (taken ++ rest) ∧ Trivia false lead ∧ e.About taken rest ∧
        f = ⟨e.cause, c.offset + utf8Length lead + utf8Length e.lead, e.notes⟩ := by
  obtain ⟨lead, hrest, hskip, htrivia⟩ := c.skipTrivia_spec
  have hhead : ∀ d ∈ c.skipTrivia.rest.head?, isDelimiter d = false :=
    isDelimiter_of_skipFrom false c.offset c.rest
  have htaken := Scan.taken_append_rest c.skipTrivia.rest
  have hne : c.skipTrivia.rest ≠ [] := by
    intro hnil
    rw [step, hnil] at h
    cases h
  rw [List.isEmpty_eq_false_iff.mpr hne] at htrivia
  simp only [step] at h
  split at h
  · cases h
  · cases h
  · next e he =>
    refine ⟨lead, _, _, e, ?_, htrivia, Scan.about_of_ofText hhead he, ?_⟩
    · rw [htaken, ← hrest]
    · rw [← hskip]
      exact (Except.error.inj h).symm

/-- A step in front of a malformed text, behind trivia, finds its fault. -/
theorem step_of_about {lead taken rest : List Char} {e : Complaint}
    (hc : c.rest = lead ++ (taken ++ rest)) (hlead : Trivia false lead) (he : e.About taken rest) :
    c.step = ⟨.error ⟨e.cause, c.offset + utf8Length lead + utf8Length e.lead, e.notes⟩,
      ⟨c.offset + utf8Length lead + utf8Length taken, rest⟩⟩ := by
  obtain ⟨d, ds, htext, hd⟩ := he.head
  have hhead : ∀ d' ∈ (taken ++ rest).head?, isDelimiter d' = false := by
    rw [htext]
    intro d' hd'
    obtain rfl : d = d' := Option.some.inj hd'
    exact hd
  rw [step, skipTrivia_lead hc hlead (by simp [htext]) hhead]
  simp only [Scan.ofText_of_about he]

/-- A token is what a written literal reads as, behind trivia and in front of a delimiter. -/
theorem exists_entry_eq_of_step {t : Token} (h : c.step.answer = .ok (some t)) :
    ∃ e : Entry, c.rest = e.chars ++ c.step.next.rest ∧ Delimited c.step.next.rest ∧
      t = e.token c.offset := by
  obtain ⟨e, hrest, hdelim⟩ := exists_entry_of_step h
  refine ⟨e, hrest, hdelim, ?_⟩
  have hstep := congrArg Step.answer (step_entry hrest hdelim)
  exact Option.some.inj (Except.ok.inj (h.symm.trans hstep))

end Cursor

end LiteralPool
