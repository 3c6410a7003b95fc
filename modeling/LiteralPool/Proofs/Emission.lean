import LiteralPool.Plan
import LiteralPool.Proofs.Places
import LiteralPool.Proofs.Storage

/-!
# Building assembly text

An assembly text is begun and then added to, in front or at the end (`Assembly.Edit`). Whatever the
edits, its lines are those that they define (`lines_built`): what was put in front since the text
was last begun, the latest line first; what it was begun with; and what was put at the end.

**Theorem (`built_text_reads_back`).** As long as no comment holds a line feed, the text has one
line for each of these, and each is read back from its line.

A comment is written as it is, and so is the comment that stands over a data section as its header.
**Theorem (`header_reads_back_iff`).** A header never changes the text below it. But it is one
line, and a comment, only if it holds no line feed; the text behind a line feed can be anything,
even a label (`header_with_label`).
-/

namespace LiteralPool

open Text

namespace Assembly

/-! ## Edits -/

/-- A step in building an assembly text. -/
inductive Edit
  /-- Begins the text anew, with one line. -/
  | singleton (line : Line)
  /-- Begins the text anew, with these lines. -/
  | collect (lines : List Line)
  /-- Adds a line at the end, in place or in a chain. -/
  | push (line : Line)
  /-- Adds a line in front. -/
  | cons (line : Line)
  /-- Adds lines at the end, in place or in a chain. -/
  | extend (lines : List Line)
deriving DecidableEq

/-- The text after one edit. -/
def edit (a : Assembly) : Edit → Assembly
  | .singleton line => .singleton line
  | .collect lines => .ofList lines
  | .push line => a.push line
  | .cons line => a.cons line
  | .extend lines => a.append lines

/-- The text that edits build from nothing. -/
def built (edits : List Edit) : Assembly := edits.foldl edit empty

namespace Edit

/-- The lines that the text is begun with. -/
def start? : Edit → Option (List Line)
  | singleton line => some [line]
  | collect lines => some lines
  | _ => none

/-- The lines that come in front. -/
def front : Edit → List Line
  | cons line => [line]
  | _ => []

/-- The lines that come at the end. -/
def back : Edit → List Line
  | push line => [line]
  | extend lines => lines
  | _ => []

/-- The edits since the text was last begun. -/
def recent (edits : List Edit) : List Edit := edits.rtakeWhile (·.start?.isNone)

/-- The lines that the text was last begun with. -/
def start (edits : List Edit) : List Line := (edits.filterMap start?).getLast?.getD []

/-- The lines in the order that the edits define. -/
def order (edits : List Edit) : List Line :=
  (recent edits).reverse.flatMap front ++ start edits ++ (recent edits).flatMap back

theorem order_concat_of_some {e : Edit} {lines : List Line} (h : e.start? = some lines)
    (edits : List Edit) : order (edits ++ [e]) = lines := by
  have hrecent : recent (edits ++ [e]) = [] := by
    rw [recent, List.rtakeWhile_concat_neg _ _ _ (by simp [h])]
  have hstart : start (edits ++ [e]) = lines := by
    simp [start, h]
  rw [order, hrecent, hstart]
  simp

theorem order_concat_of_none {e : Edit} (h : e.start? = none) (edits : List Edit) :
    order (edits ++ [e]) = e.front ++ order edits ++ e.back := by
  have hrecent : recent (edits ++ [e]) = recent edits ++ [e] := by
    rw [recent, List.rtakeWhile_concat_pos _ _ _ (by simp [h])]
    rfl
  have hstart : start (edits ++ [e]) = start edits := by
    simp [start, h]
  rw [order, hrecent, hstart, order]
  simp

end Edit

/-- The lines of a text are in the order that its edits define. -/
theorem lines_built (edits : List Edit) : (built edits).lines = Edit.order edits := by
  induction edits using List.reverseRecOn with
  | nil => rfl
  | append_singleton edits e ih =>
    have hbuilt : built (edits ++ [e]) = (built edits).edit e := List.foldl_concat ..
    rw [hbuilt]
    -- The last edit either begins the text anew or keeps all that is there.
    cases e with
    | singleton line => exact (Edit.order_concat_of_some rfl edits).symm
    | collect lines => exact (Edit.order_concat_of_some rfl edits).symm
    | push line =>
      rw [Edit.order_concat_of_none rfl, ← ih]
      rfl
    | cons line =>
      rw [Edit.order_concat_of_none rfl, ← ih]
      simp [Edit.front, Edit.back, edit, Assembly.cons]
    | extend lines =>
      rw [Edit.order_concat_of_none rfl, ← ih]
      rfl

/-! ## Reading back -/

theorem getLast?_text {a : Assembly} (h : a.lines ≠ []) : a.text.toList.getLast? = some '\n' := by
  rw [text_eq]
  exact getLast?_unlines (by simpa using h)

theorem count_text {a : Assembly} (h : ∀ t, .comment t ∈ a.lines → OneLine t) :
    a.text.toList.count '\n' = a.size := by
  rw [text_eq, count_unlines fun _ => oneLine_of_mem h, List.length_map, size]

theorem lines_eq_of_text_eq {a b : Assembly} (ha : ∀ t, .comment t ∈ a.lines → OneLine t)
    (hb : ∀ t, .comment t ∈ b.lines → OneLine t) (h : a.text = b.text) : a.lines = b.lines := by
  have htexts : a.lines.map Line.text = b.lines.map Line.text := by
    rw [← lines_text ha, ← lines_text hb, h]
  exact List.map_injective_iff.mpr Line.text_injective htexts

/-- **What was built is read back from its text.** Take any edits after which no comment holds a
line feed. The lines of the assembly are in the order that the edits define. Its text has as many
line feeds as there are lines, and ends in one unless there are none; line by line it is the text
of these lines, and each is read back from it. So other edits that build the same text have built
the same lines. -/
theorem built_text_reads_back (edits : List Edit)
    (h : ∀ t, .comment t ∈ (built edits).lines → OneLine t) :
    (built edits).lines = Edit.order edits ∧
    (built edits).text.toList.count '\n' = (built edits).size ∧
    ((built edits).isEmpty ∨ (built edits).text.toList.getLast? = some '\n') ∧
    Text.lines (built edits).text = (built edits).lines.map Line.text ∧
    (Text.lines (built edits).text).mapM Line.ofText? = some (built edits).lines ∧
    ∀ edits', (∀ t, .comment t ∈ (built edits').lines → OneLine t) →
      (built edits').text = (built edits).text → (built edits').lines = (built edits).lines := by
  refine ⟨lines_built edits, count_text h, ?_, lines_text h, ?_, ?_⟩
  · by_cases hlines : (built edits).lines = []
    · exact .inl (List.isEmpty_iff.mpr hlines)
    · exact .inr (getLast?_text hlines)
  · rw [lines_text h, Line.mapM_ofText?]
  · intro edits' h' htext
    exact lines_eq_of_text_eq h' h htext

/-- A string that spells a line feed and a label, between a comment in front and a word behind. -/
theorem built_text_reads_back_of_spelled_label :
    let edits : List Edit := [.push .data, .singleton (.string "\nconst_0:\""), .push (.word (-1)),
      .cons (.comment "\t.data")]
    let lines : List Line := [.comment "\t.data", .string "\nconst_0:\"", .word (-1)]
    (∀ t, .comment t ∈ (built edits).lines → OneLine t) ∧ (built edits).lines = lines ∧
      (built edits).text.toList.count '\n' = 3 ∧
      (Text.lines (built edits).text).mapM Line.ofText? = some lines ∧
      ((built [.collect lines]).text = (built edits).text →
        (built [.collect lines]).lines = (built edits).lines) := by
  intro edits lines
  have hlines : (built edits).lines = lines := rfl
  have hcomment : ∀ t, .comment t ∈ lines → OneLine t := by
    intro t ht
    obtain rfl : t = "\t.data" := by simpa [lines] using ht
    decide
  have h : ∀ t, .comment t ∈ (built edits).lines → OneLine t := hlines ▸ hcomment
  obtain ⟨-, hcount, -, -, hread, hunique⟩ := built_text_reads_back edits h
  exact ⟨h, hlines, hcount, hread, hunique [.collect lines] hcomment⟩

end Assembly

/-! ## Headers -/

/-- Every line that is read is read from a text of its own. -/
theorem Line.length_eq_of_mapM {texts : List String} {xs : List Line}
    (h : texts.mapM ofText? = some xs) : texts.length = xs.length := by
  induction texts generalizing xs with
  | nil =>
    obtain rfl : [] = xs := Option.some.inj h
    rfl
  | cons t texts ih =>
    rw [List.mapM_cons] at h
    obtain ⟨x, -, h⟩ := Option.bind_eq_some_iff.mp h
    obtain ⟨ys, hys, h⟩ := Option.bind_eq_some_iff.mp h
    obtain rfl : x :: ys = xs := Option.some.inj h
    rw [List.length_cons, List.length_cons, ih hys]

namespace Text

/-- A text that ends in a line feed is put together of lines. -/
theorem exists_unlines (text : String) :
    ∃ ls, (∀ l ∈ ls, OneLine l) ∧ text ++ "\n" = unlines ls := by
  obtain ⟨cs, rfl⟩ : ∃ cs, String.ofList cs = text := ⟨text.toList, String.ofList_toList⟩
  induction cs using linewise with
  | last cs hcs =>
    refine ⟨[String.ofList cs], ?_, by simp [unlines]⟩
    rw [List.forall_mem_singleton, OneLine, String.toList_ofList]
    exact hcs
  | line l cs hl ih =>
    obtain ⟨ls, hls, htext⟩ := ih
    refine ⟨String.ofList l :: ls, List.forall_mem_cons.mpr ⟨?_, hls⟩, ?_⟩
    · rwa [OneLine, String.toList_ofList]
    · rw [unlines_cons, ← htext]
      apply String.toList_injective
      simp

theorem lines_append_lineFeed (text rest : String) :
    lines (text ++ "\n" ++ rest) = lines (text ++ "\n") ++ lines rest := by
  obtain ⟨ls, hls, htext⟩ := exists_unlines text
  rw [htext, lines_unlines_append hls, lines_unlines hls]

theorem length_lines_lineFeed (text : String) :
    (lines (text ++ "\n")).length = text.toList.count '\n' + 1 := by
  obtain ⟨ls, hls, htext⟩ := exists_unlines text
  rw [htext, lines_unlines hls, ← count_unlines hls, ← htext, String.toList_append,
    List.count_append]
  rfl

end Text

namespace Pool

variable (p : Pool) (header : String)

/-- A header is written in front of an unchanged text. -/
theorem text_assembly :
    (p.assembly header).text = "# " ++ header ++ "\n" ++ p.dataSection.text :=
  Assembly.text_cons _ _

theorem lines_assembly :
    Text.lines (p.assembly header).text =
      Text.lines ("# " ++ header ++ "\n") ++ Text.lines p.dataSection.text := by
  rw [text_assembly, lines_append_lineFeed]

theorem length_lines_assembly :
    (Text.lines (p.assembly header).text).length =
      (p.assembly header).size + header.toList.count '\n' := by
  have hcount : ("# " ++ header).toList.count '\n' = header.toList.count '\n' := by simp
  have hdata : (Text.lines p.dataSection.text).length = p.dataSection.size := by
    rw [lines_dataSection, List.length_map, Assembly.size]
  have hsize : (p.assembly header).size = p.dataSection.size + 1 := rfl
  rw [lines_assembly, List.length_append, length_lines_lineFeed, hcount, hdata, hsize]
  omega

theorem lines_assembly_of_oneLine (h : OneLine header) :
    Text.lines (p.assembly header).text = ("# " ++ header) :: Text.lines p.dataSection.text := by
  have hline : OneLine ("# " ++ header) := oneLine_append.mpr ⟨by decide, h⟩
  rw [text_assembly, lines_append hline]

/-- A header with a line feed makes more lines than there are. -/
theorem oneLine_of_length_lines
    (h : (Text.lines (p.assembly header).text).length = (p.assembly header).size) :
    OneLine header := by
  rw [length_lines_assembly, Nat.add_eq_left, List.count_eq_zero] at h
  exact h

/-- **A header is a comment exactly if it is one line.** Whatever the header, it stands behind a
number sign in front of the data section, whose text and lines it leaves as they are, and every
line feed in it makes a line more than the assembly has. If and only if there is none in it, the
header is one line of the text; and if and only if there is none, the text reads back as the header
and the data section. -/
theorem header_reads_back_iff :
    (p.assembly header).text = "# " ++ header ++ "\n" ++ p.dataSection.text ∧
    Text.lines (p.assembly header).text =
      Text.lines ("# " ++ header ++ "\n") ++ Text.lines p.dataSection.text ∧
    (Text.lines (p.assembly header).text).length =
      (p.assembly header).size + header.toList.count '\n' ∧
    (Text.lines (p.assembly header).text = ("# " ++ header) :: Text.lines p.dataSection.text ↔
      OneLine header) ∧
    ((Text.lines (p.assembly header).text).mapM Line.ofText? =
        some (.comment header :: p.dataSection.lines) ↔ OneLine header) := by
  have hdata : Text.lines p.dataSection.text = p.dataSection.lines.map Line.text :=
    p.lines_dataSection
  refine ⟨p.text_assembly header, p.lines_assembly header, p.length_lines_assembly header, ?_, ?_⟩
  · refine ⟨fun h => p.oneLine_of_length_lines header ?_, p.lines_assembly_of_oneLine header⟩
    rw [h, hdata, List.length_cons, List.length_map]
    rfl
  · constructor
    · intro h
      refine p.oneLine_of_length_lines header ?_
      rw [Line.length_eq_of_mapM h]
      rfl
    · intro h
      have hlines : Text.lines (p.assembly header).text =
          (Line.comment header :: p.dataSection.lines).map Line.text := by
        rw [p.lines_assembly_of_oneLine header h, hdata]
        rfl
      rw [hlines, Line.mapM_ofText?]

/-- What stands behind a line feed in a header is a line of its own, here a label that the data
section has already. -/
theorem header_with_label :
    (Text.lines (empty.assembly "a\nconst_1:").text).length =
      (empty.assembly "a\nconst_1:").size + 1 ∧
    (Text.lines (empty.assembly "a\nconst_1:").text).count "const_1:" = 2 ∧
    Line.ofText? "const_1:" = some (.label ⟨1⟩) := by
  have hheader : Text.lines ("# " ++ "a\nconst_1:" ++ "\n") = ["# a", "const_1:"] := by
    have htext : "# " ++ "a\nconst_1:" ++ "\n" = unlines ["# a", "const_1:"] := by decide
    rw [htext, lines_unlines (by decide)]
  obtain ⟨-, -, -, hcount, -⟩ := exists_block_text (empty.label?_bool true)
  refine ⟨empty.length_lines_assembly _, ?_, Line.ofText?_text (.label ⟨1⟩)⟩
  rw [lines_assembly, hheader, List.count_append]
  exact congrArg (1 + ·) hcount

end Pool

end LiteralPool
