import LiteralPool.Proofs.Excerpts
import LiteralPool.Proofs.LineByLine

/-!
# Drawing a place

Under the wording of a diagnostic with a place stand four lines for the place, and one line for each
note (`Excerpt.drawing`). In the line that quotes the source the text begins behind the line number
and a bar; in all the others a margin of blanks takes the place of the number.

**Theorem (`places_are_drawn`).** A diagnostic with a place cannot be drawn exactly if its column is
65535 or beyond. Otherwise the drawing is the wording with these lines, where the quoted text is the
line of the source that has the number, and the caret stands under the character at the place, or
just behind the line if the place is there (`Excerpt.PointsAt`). So a reading of a source can be
reported (`Source.account`) unless it ends in a fault as far to the right as that.

Number and margin have the same width, and the column is the number of characters that the quoted
text has in front of the place. So the line with the caret and the quoted line agree in length up to
there (`Excerpt.marker_toList`, `Excerpt.quoted_toList`), whatever these characters are.
-/

namespace LiteralPool

open Text

/-! ## The lines of a drawing -/

/-- Lines, each on a further line. -/
def Text.below (lines : List String) : String := String.join (lines.map ("\n" ++ ·))

theorem Text.below_append (ls ms : List String) : below (ls ++ ms) = below ls ++ below ms := by
  simp [below]

namespace Excerpt

/-- The number of the line, counted from one. -/
def number (e : Excerpt) : String := (e.position.line + 1).repr

/-- What stands in place of the number in front of all lines but the quoted one. -/
def margin (e : Excerpt) : String := Diagnostic.blanks e.number.length

/-- The name of the place. -/
def place (e : Excerpt) (file : Option String) : String :=
  e.margin ++ "--> " ++ file.getD "<input>" ++ ":" ++ e.number ++ ":" ++ (e.position.col + 1).repr

/-- The line of the source, behind its number. -/
def quoted (e : Excerpt) : String := e.number ++ " | " ++ e.text

/-- The line with the caret. -/
def marker (e : Excerpt) : String :=
  e.margin ++ " | " ++ Diagnostic.blanks e.position.col ++ "^"

/-- What is drawn under the wording of a diagnostic. -/
def drawing (e : Excerpt) (file : Option String) (notes : List String) : List String :=
  [e.place file, e.margin ++ " |", e.quoted, e.marker] ++ notes.map (e.margin ++ " = while " ++ ·)

/-- The column of the caret in its line, counted from zero. -/
def caretColumn (e : Excerpt) : Nat := e.number.length + 3 + e.position.col

/-- The caret is under the first character of `rest`, or just behind the line. -/
structure PointsAt (e : Excerpt) (rest : List Char) : Prop where
  caret : ∀ i, e.marker.toList[i]? = some '^' ↔ i = e.caretColumn
  char : ∀ c, rest.head? = some c → c ≠ '\n' → e.quoted.toList[e.caretColumn]? = some c
  lineEnd : rest = [] ∨ rest.head? = some '\n' → e.caretColumn = e.quoted.length

end Excerpt

namespace Diagnostic

theorem drawExcerpt_eq (e : Excerpt) (file : Option String) :
    drawExcerpt (file.getD "<input>") e =
      below [e.place file, e.margin ++ " |", e.quoted, e.marker] := by
  unfold drawExcerpt
  simp only [below, Excerpt.place, Excerpt.quoted, Excerpt.marker, Excerpt.margin,
    Excerpt.number, gutter, List.map_cons, List.map_nil, String.join_cons, String.join_nil,
    String.append_assoc, String.append_empty]

theorem drawNotes_eq (margin : String) (notes : List String) :
    drawNotes margin notes = below (notes.map (margin ++ " = while " ++ ·)) := by
  simp only [drawNotes, below, List.map_map, Function.comp_def, String.append_assoc]

theorem draw_of_excerpt {d : Diagnostic} {e : Excerpt} (h : d.excerpt = some e) :
    d.draw = if e.position.col + 1 ≤ maxColumn then
      .ok (d.cause.message ++ below (e.drawing d.file d.notes))
    else .error .columnOutOfRange := by
  rw [Excerpt.drawing, below_append, ← drawExcerpt_eq, ← drawNotes_eq, ← String.append_assoc]
  cases d
  subst h
  rfl

end Diagnostic

/-! ## The quoted line -/

namespace Text

theorem head?_splitOn (cs : List Char) : (cs.splitOn '\n').head? = some (firstLine cs) := by
  induction cs using linewise with
  | last cs hcs =>
    rw [splitOn_of_notMem hcs, firstLine_of_notMem hcs]
    rfl
  | line l cs hl _ =>
    rw [List.splitOn_append_cons_self_of_not_mem hl, (firstLine_laterLines hl cs).1]
    rfl

/-- The line around a place, by the number of line feeds in front of the place. -/
theorem getElem?_splitOn (before rest : List Char) :
    ((before ++ rest).splitOn '\n')[before.count '\n']? =
      some (lastLine before ++ firstLine rest) := by
  induction before using linewise with
  | last before hbefore =>
    rw [List.count_eq_zero_of_not_mem hbefore, ← List.head?_eq_getElem?, head?_splitOn,
      firstLine_append hbefore, lastLine_of_notMem hbefore]
  | line l before hl ih =>
    have htext : l ++ '\n' :: before ++ rest = l ++ '\n' :: (before ++ rest) := by simp
    rw [htext, List.splitOn_append_cons_self_of_not_mem hl, count_line hl,
      List.getElem?_cons_succ, ih, lastLine_append]

end Text

/-- An excerpt is the line of the source that has its number, and it is one line. -/
theorem Source.line_of_excerpt? {s : Source} {offset : Nat} {e : Excerpt}
    (h : s.excerpt? offset = some e) :
    (s.text.toList.splitOn '\n')[e.position.line]? = some e.text.toList ∧ OneLine e.text := by
  obtain ⟨before, rest, hs, rfl, -, rfl⟩ := excerpt?_eq_some_iff.mp h
  obtain ⟨-, -, -, hleft⟩ := exists_lastLine before
  obtain ⟨-, -, -, hright⟩ := exists_firstLine rest
  rw [OneLine, hs, String.toList_ofList]
  exact ⟨getElem?_splitOn before rest, by simp [hleft, hright]⟩

/-! ## The caret -/

theorem Diagnostic.toList_blanks (n : Nat) : (blanks n).toList = List.replicate n ' ' :=
  String.toList_ofList

namespace Excerpt

variable {e : Excerpt}

theorem marker_toList (e : Excerpt) :
    ∃ front : List Char, e.marker.toList = front ++ ['^'] ∧ front.length = e.caretColumn ∧
      '^' ∉ front := by
  refine ⟨(e.margin ++ " | " ++ Diagnostic.blanks e.position.col).toList, ?_, ?_, ?_⟩
  · rw [marker, String.toList_append]
    rfl
  · simp only [margin, Diagnostic.blanks, caretColumn, String.length_toList, String.length_append,
      String.length_ofList, List.length_replicate]
    rfl
  · simp [margin, Diagnostic.toList_blanks, List.mem_replicate]

theorem quoted_toList {left right : List Char} (htext : e.text = String.ofList (left ++ right))
    (hcol : e.position.col = left.length) :
    ∃ front : List Char, e.quoted.toList = front ++ right ∧ front.length = e.caretColumn := by
  refine ⟨(e.number ++ " | " ++ String.ofList left).toList, ?_, ?_⟩
  · simp [quoted, htext]
  · simp only [caretColumn, hcol, String.length_toList, String.length_append, String.length_ofList]
    rfl

/-- The only caret of its line stands under what is behind the place, as far as the line goes. -/
theorem pointsAt {left rest : List Char} (htext : e.text = String.ofList (left ++ firstLine rest))
    (hcol : e.position.col = left.length) : e.PointsAt rest := by
  obtain ⟨front, hmarker, hlength, hfront⟩ := e.marker_toList
  obtain ⟨quote, hquoted, hquote⟩ := quoted_toList htext hcol
  -- The line goes on to the next line feed, so the first character behind the place may be missing.
  have hhead : e.quoted.toList[e.caretColumn]? = rest.head?.filter (· != '\n') := by
    rw [hquoted, ← hquote, List.getElem?_append_right (le_refl _), Nat.sub_self,
      ← List.head?_eq_getElem?, firstLine, List.head?_takeWhile]
  refine ⟨fun i => ?_, fun c hc hfeed => ?_, fun hend => ?_⟩
  · rw [hmarker, ← hlength]
    constructor
    · intro hi
      by_contra hne
      -- Any other caret would be one of the blanks in front, or of the bar.
      have hlt : i < front.length := by
        obtain ⟨hi, -⟩ := List.getElem?_eq_some_iff.mp hi
        rw [List.length_append, List.length_singleton] at hi
        omega
      rw [List.getElem?_append_left hlt] at hi
      exact hfront (List.mem_of_getElem? hi)
    · rintro rfl
      exact List.getElem?_concat_length
  · rw [hhead, hc, Option.filter_some, if_pos (bne_iff_ne.mpr hfeed)]
  · have hnothing : firstLine rest = [] := by
      rcases hend with rfl | hend
      · rfl
      · obtain ⟨more, rfl⟩ := List.head?_eq_some_iff.mp hend
        rfl
    rw [← String.length_toList, hquoted, hnothing, List.append_nil, hquote]

end Excerpt

/-! ## Reporting a reading -/

/-- Reads a source to its end, and draws the fault in which that ends, if it does. -/
def Source.account (s : Source) : Except DrawingError (List Token × Option String) :=
  match s.read.fault with
  | none => .ok (s.read.tokens, none)
  | some f => (s.diagnose f).draw.map fun text => (s.read.tokens, some text)

theorem Diagnostic.draw_eq_error_iff {d : Diagnostic} {err : DrawingError} :
    d.draw = .error err ↔ ∃ p, d.position? = some p ∧ maxColumn ≤ p.col := by
  cases he : d.excerpt with
  | none =>
    have hdrawn : d.draw ≠ .error err := by
      rw [draw, he]
      cases d.file <;> simp
    simp [hdrawn, position?, he]
  | some e =>
    have hcol : ¬ e.position.col + 1 ≤ maxColumn ↔ maxColumn ≤ e.position.col := by omega
    rw [draw_of_excerpt he, ← ite_not]
    simp only [hcol, position?, he, Option.map_some, Option.some.injEq, exists_eq_left']
    split_ifs with h <;> simp [h]

theorem Source.account_eq_error_iff {s : Source} {err : DrawingError} :
    s.account = .error err ↔ ∃ f p, s.read.fault = some f ∧
      (s.diagnose f).position? = some p ∧ Diagnostic.maxColumn ≤ p.col := by
  rw [account]
  cases s.read.fault with
  | none => simp
  | some f =>
    have hdraw : (s.diagnose f).draw.map (fun text => (s.read.tokens, some text)) = .error err ↔
        (s.diagnose f).draw = .error err := by
      cases (s.diagnose f).draw <;> simp [Except.map]
    simp [hdraw, Diagnostic.draw_eq_error_iff]

/-- **Places are drawn.** Whatever a diagnostic says about a place of a source, it cannot be drawn
exactly if the column is too far to the right for the caret. Otherwise the drawing is the wording,
the lines of the place, and the notes in order. The quoted text is the line of the source that has
the number, the margin is as wide as the number has digits, and the caret points at the character of
the place. So a source cannot be reported exactly if its reading ends in a fault that far to the
right. -/
theorem places_are_drawn (s : Source) :
    (∀ (f : Fault) (e : Excerpt), s.excerpt? f.offset = some e →
      ((∃ err, (s.diagnose f).draw = .error err ∧
        err.message = "Formatting argument out of range") ↔ 65535 < e.position.col + 1) ∧
      (e.position.col + 1 ≤ 65535 →
        (s.diagnose f).draw = .ok (f.cause.message ++ below (e.drawing s.file f.notes))) ∧
      (s.text.toList.splitOn '\n')[e.position.line]? = some e.text.toList ∧ OneLine e.text ∧
      e.margin.toList = List.replicate (Nat.toDigits 10 (e.position.line + 1)).length ' ' ∧
      ∃ before rest, s.text.toList = before ++ rest ∧ f.offset = utf8Length before ∧
        e.position = Position.behind before ∧ e.PointsAt rest) ∧
    ((∃ err, s.account = .error err) ↔ ∃ f p, s.read.fault = some f ∧
      (s.diagnose f).position? = some p ∧ 65535 ≤ p.col) := by
  refine ⟨fun f e h => ?_, ?_⟩
  · have hd : s.diagnose f = ⟨f.cause, s.file, some e, f.notes⟩ := by rw [Source.diagnose_eq, h]
    obtain ⟨hline, hone⟩ := Source.line_of_excerpt? h
    obtain ⟨before, rest, hs, hoffset, -, he⟩ := Source.excerpt?_eq_some_iff.mp h
    refine ⟨?_, fun hcol => ?_, hline, hone, ?_, before, rest, hs, hoffset, ?_, ?_⟩
    · rw [hd]
      constructor
      · rintro ⟨err, hdraw, -⟩
        obtain ⟨p, hp, hcol⟩ := Diagnostic.draw_eq_error_iff.mp hdraw
        obtain rfl : e.position = p := Option.some.inj hp
        exact Nat.lt_succ_of_le hcol
      · intro hcol
        exact ⟨.columnOutOfRange,
          Diagnostic.draw_eq_error_iff.mpr ⟨e.position, rfl, Nat.le_of_lt_succ hcol⟩, rfl⟩
    · rw [hd, Diagnostic.draw_of_excerpt rfl]
      exact if_pos hcol
    · rw [Excerpt.margin, Diagnostic.toList_blanks, Excerpt.number, Nat.repr, String.length_ofList]
    · rw [he]
      rfl
    · exact Excerpt.pointsAt (congrArg Excerpt.text he) (congrArg (·.position.col) he)
  · constructor
    · rintro ⟨err, h⟩
      exact Source.account_eq_error_iff.mp h
    · intro h
      exact ⟨.columnOutOfRange, Source.account_eq_error_iff.mpr h⟩

/-- A question mark behind a character of two bytes, in the second line. -/
theorem places_are_drawn_behind_two_bytes :
    Source.excerpt? ⟨some "lits.txt", "1\n\"é\" ?"⟩ 7 = some ⟨⟨1, 4⟩, "\"é\" ?"⟩ ∧
    (Source.diagnose ⟨some "lits.txt", "1\n\"é\" ?"⟩ ⟨.unexpectedChar '?', 7, ["list"]⟩).draw =
      .ok "unexpected '?'\n --> lits.txt:2:5\n  |\n2 | \"é\" ?\n  |     ^\n  = while list" := by
  have hexcerpt : Source.excerpt? ⟨some "lits.txt", "1\n\"é\" ?"⟩ 7 = some ⟨⟨1, 4⟩, "\"é\" ?"⟩ :=
    Source.excerpt?_eq_some_iff_lineAround.mpr ⟨['1', '\n'], ['"', 'é', '"', ' '], ['?'], [],
      ⟨rfl, .inr rfl, .inl rfl, by decide⟩, by decide, rfl, rfl⟩
  obtain ⟨hplace, -⟩ := places_are_drawn ⟨some "lits.txt", "1\n\"é\" ?"⟩
  obtain ⟨-, hdraw, -⟩ := hplace ⟨.unexpectedChar '?', 7, ["list"]⟩ _ hexcerpt
  exact ⟨hexcerpt, hdraw (by decide)⟩

end LiteralPool
