import Mathlib
import LiteralPool.Proofs.LineByLine
import LiteralPool.Proofs.Storage

/-!
# Output grows at its end

A pool only ever gains constants, and a constant that is gained has the highest label. So whatever
is requested, the data section keeps what it had and gains lines at its end.

**Theorem (`output_grows_at_end`).** The text of the data section is a front part of the text after
any request, and it is a proper one if and only if the request is the first of an integer or a
string. And if lines are added to a source, the listing and the data section that it had are front
parts of those that it has.

What becomes of the data section is what becomes of the constants (`dataSection_of_constants`). For
sources it remains to see that literals are read line by line: the text in front of a line feed and
the text behind it can be read as sources of their own (`literals_append_lineFeed`).
-/

namespace LiteralPool

open Text

namespace Pool

variable {p : Pool}

/-! ## Requests -/

/-- In a run on a fresh pool, the integers and strings that were not requested have no label. -/
theorem awaits_after_empty_iff {rs : List Request} {r : Request} :
    (empty.after rs).Awaits r ↔
      ∃ v, r.value? = some v ∧ v.isBool = false ∧ v ∉ rs.filterMap Request.value? := by
  have hnone : ∀ v, (empty.after rs).label? v = none ↔
      v.isBool = false ∧ v ∉ rs.filterMap Request.value? := by
    intro v
    rw [← Option.not_isSome_iff_eq_none, isSome_label?_after, isSome_label?_empty, not_or,
      Bool.not_eq_true]
  simp only [Awaits, hnone]

/-- Constants behind those of a pool are lines behind its data section. -/
theorem dataSection_of_constants {q : Pool} {more : List Constant}
    (h : q.constants = p.constants ++ more) :
    q.dataSection = p.dataSection.append (more.flatMap Constant.lines) := by
  rw [dataSection, h, List.flatMap_append]
  simp [dataSection, Assembly.append]

/-- A request adds lines at the end of the data section, and it adds some if and only if it is the
first of a value. -/
theorem dataSection_answer (p : Pool) (r : Request) :
    ∃ lines, (p.answer r).2.dataSection = p.dataSection.append lines ∧
      (lines ≠ [] ↔ p.Awaits r) := by
  obtain ⟨more, hmore, hawaits⟩ := p.constants_answer r
  refine ⟨_, dataSection_of_constants hmore, ?_⟩
  rw [← hawaits, ne_eq, ne_eq, not_iff_not]
  cases more with
  | nil => simp
  | cons c more => simp [Constant.lines]

/-- A run adds lines at the end of the data section. -/
theorem dataSection_after (p : Pool) (rs : List Request) :
    ∃ lines, (p.after rs).dataSection = p.dataSection.append lines := by
  obtain ⟨more, hmore⟩ := p.constants_after rs
  exact ⟨_, dataSection_of_constants hmore⟩

end Pool

/-- Lines have a text if there are any. -/
theorem Assembly.text_ofList_eq_empty_iff {lines : List Line} :
    (ofList lines).text = "" ↔ lines = [] := by
  constructor
  · intro h
    cases lines with
    | nil => rfl
    | cons line lines => simp [ofList, text_eq, unlines_cons] at h
  · rintro rfl
    rfl

/-! ## Sources -/

/-- A source has literals if each of its lines has, read from its beginning, and then it has
theirs. -/
theorem Source.literals_eq_ok_iff_lines {s : Source} {L : List Literal} :
    s.literals = .ok L ↔
      (∀ l ∈ s.text.toList.splitOn '\n', (⟨0, l⟩ : Cursor).read.fault = none) ∧
        ((s.text.toList.splitOn '\n').map fun l =>
          (⟨0, l⟩ : Cursor).read.tokens.map Token.literal).flatten = L := by
  have hread := s.read_lines 0 s.text.toList
  have hliterals := s.map_literal_lineTokens 0 (s.text.toList.splitOn '\n')
  simp only [read_alone] at hread hliterals
  rw [literals_eq_ok_iff, read_eq, start, hread.1, and_congr_right_iff]
  intro hfaults
  rw [hread.2 (hread.1.mpr hfaults), hliterals]

/-- **Literals are read in parts.** The text in front of a line feed and the text behind it are read
as sources of their own. -/
theorem Source.literals_append_lineFeed {s t whole : Source}
    (h : whole.text = s.text ++ "\n" ++ t.text) {L : List Literal} :
    whole.literals = .ok L ↔
      ∃ first rest, s.literals = .ok first ∧ t.literals = .ok rest ∧ first ++ rest = L := by
  have htext : whole.text.toList = s.text.toList ++ '\n' :: t.text.toList := by simp [h]
  simp only [literals_eq_ok_iff_lines, htext, splitOn_append_lineFeed, List.forall_mem_append,
    List.map_append, List.flatten_append]
  constructor
  · rintro ⟨⟨hs, ht⟩, rfl⟩
    exact ⟨_, _, ⟨hs, rfl⟩, ⟨ht, rfl⟩, rfl⟩
  · rintro ⟨_, _, ⟨hs, rfl⟩, ⟨ht, rfl⟩, rfl⟩
    exact ⟨⟨hs, ht⟩, rfl⟩

/-! ## Growth -/

namespace Pool

/-- **Output grows at its end.** In a run on a fresh pool, the text of the data section is a front
part of the text after one more request, and the two differ if and only if this is the first request
of an integer or a string. If a source has literals, so has the text in front of any of its line
feeds, as a source of its own; and the listing and the text of the data section for that part are
front parts of those for the whole source. -/
theorem output_grows_at_end :
    (∀ (rs : List Request) (r : Request),
      let before := (empty.after rs).dataSection.text
      let after := (empty.after (rs ++ [r])).dataSection.text
      (∃ more, after = before ++ more) ∧
      (after ≠ before ↔
        ∃ v, r.value? = some v ∧ v.isBool = false ∧ v ∉ rs.filterMap Request.value?)) ∧
    ∀ (s whole : Source) (added : String), whole.text = s.text ++ "\n" ++ added →
      ∀ literals, whole.literals = .ok literals →
      ∃ first, s.literals = .ok first ∧
        (∃ more, (empty.list literals).text = (empty.list first).text ++ more) ∧
        ∃ more, (empty.list literals).pool.dataSection.text =
          (empty.list first).pool.dataSection.text ++ more := by
  constructor
  · intro rs r before after
    obtain ⟨lines, hlines, hawaits⟩ := (empty.after rs).dataSection_answer r
    have hafter : after = before ++ (Assembly.ofList lines).text := by
      show (empty.after (rs ++ [r])).dataSection.text = _
      rw [after_append, after_cons, after_nil, hlines, Assembly.text_append]
    refine ⟨⟨_, hafter⟩, ?_⟩
    rw [← awaits_after_empty_iff, ← hawaits, ne_eq, ne_eq, not_iff_not, hafter,
      ← Assembly.text_ofList_eq_empty_iff]
    simp
  · intro s whole added htext literals hliterals
    obtain ⟨first, rest, hfirst, -, rfl⟩ :=
      (Source.literals_append_lineFeed (t := ⟨none, added⟩) htext).mp hliterals
    refine ⟨first, hfirst, ?_, ?_⟩
    · rw [list_append]
      exact ⟨_, rfl⟩
    · obtain ⟨lines, hlines⟩ := (empty.list first).pool.dataSection_after (rest.map .literal)
      refine ⟨(Assembly.ofList lines).text, ?_⟩
      rw [list_append, pool_list _ rest, hlines, Assembly.text_append]

/-- A new string makes the data section longer, and an integer that was requested before does not.
A line that is added to a source leaves what is listed of the line above it. -/
theorem output_grows_at_end_of_integers :
    let p := empty.after [.value (.int 1), .label]
    (p.answer (.value (.string "1"))).2.dataSection.text ≠ p.dataSection.text ∧
    (p.answer (.literal (.value (.int 1)))).2.dataSection.text = p.dataSection.text ∧
    ∃ first, Source.literals ⟨none, "1"⟩ = .ok first ∧
      ∃ more, (empty.list [.value (.int 1), .value (.int 2)]).text =
        (empty.list first).text ++ more := by
  intro p
  obtain ⟨hrequests, hsources⟩ := output_grows_at_end
  have hliterals :
      Source.literals ⟨none, "1\n2"⟩ = .ok [.value (.int 1), .value (.int 2)] := by
    refine Source.literals_eq_ok_iff.mpr ?_
    rw [Source.read_eq, Cursor.read_of_token (t := ⟨.value (.int 1), ⟨0, 1⟩, "1"⟩) rfl,
      Cursor.read_of_token (t := ⟨.value (.int 2), ⟨2, 1⟩, "2"⟩) rfl, Cursor.read_of_end rfl]
    exact ⟨rfl, rfl⟩
  refine ⟨?_, ?_, ?_⟩
  · refine (hrequests [.value (.int 1), .label] (.value (.string "1"))).2.mpr ?_
    exact ⟨_, rfl, rfl, by decide⟩
  · by_contra hne
    obtain ⟨v, hv, -, hnew⟩ :=
      (hrequests [.value (.int 1), .label] (.literal (.value (.int 1)))).2.mp hne
    obtain rfl : Value.int 1 = v := Option.some.inj hv
    exact hnew (by decide)
  · obtain ⟨first, hfirst, hlisting, -⟩ :=
      hsources ⟨none, "1"⟩ ⟨none, "1\n2"⟩ "2" (by decide) _ hliterals
    exact ⟨first, hfirst, hlisting⟩

end Pool

end LiteralPool
