import LiteralPool.Proofs.Places

/-!
# Spelling

A literal can be written in many ways. One of them is its spelling (`Literal.spelling`): the
keyword, the decimal digits, or a string between quotes with the same escapes that the operand of a
string directive has.

**Theorem (`spelling_round_trip`).** Literals that are spelled with trivia between them are read
back. And the text of every string that is read is the spelling of the string, but for its tabs,
which need no escape.

Spelled literals make a layout (`Entry.spelled`), and every layout is read back. For the other
direction a string is taken piece by piece: a piece stands for a character, and its text is how
this character is spelled, unless the piece is a plain tab (`escapeTab_written`).
-/

namespace LiteralPool

open Text

/-- The literal as it is displayed, but a string with the escapes of assembly text. -/
def Literal.spelling : Literal → String
  | .value (.string s) => "\"" ++ quoteBody s ++ "\""
  | l => l.display

/-! ## Spelled literals are read back -/

theorem Literal.toList_spelling_string (s : String) :
    (spelling (.value (.string s))).toList = '"' :: ((quoteBody s).toList ++ ['"']) := by
  simp [spelling]

theorem Literal.written_spelling (l : Literal) : l.Written l.spelling.toList := by
  match l with
  | .value (.bool true) => exact .wordTrue
  | .value (.bool false) => exact .wordFalse
  | .value (.int n) => exact written_int n
  | .value (.string s) =>
    rw [toList_spelling_string]
    exact written_string s
  | .nothing => exact .wordNone

/-- A spelled literal with trivia in front of it. -/
def Entry.spelled (lead : List Char) (l : Literal) (h : Trivia false lead) : Entry :=
  ⟨lead, l.spelling.toList, l, h, l.written_spelling⟩

/-- The characters of spelled literals, each behind its own trivia. -/
def spelledChars (parts : List (List Char × Literal)) : List Char :=
  parts.flatMap fun part => part.1 ++ part.2.spelling.toList

/-- Spelled literals that are set apart make a layout. -/
theorem exists_layout_of_spelled {parts : List (List Char × Literal)} {tail : List Char}
    (hparts : ∀ part ∈ parts, Trivia false part.1) (hsep : ∀ part ∈ parts.tail, part.1 ≠ [])
    (htail : Trivia true tail) :
    ∃ l : Layout, l.text = spelledChars parts ++ tail ∧ l.literals = parts.map Prod.snd := by
  suffices h : ∃ es : List Entry, es.map Entry.lead = parts.map Prod.fst ∧
      es.flatMap Entry.chars = spelledChars parts ∧
      es.map Entry.literal = parts.map Prod.snd by
    obtain ⟨es, hleads, hchars, hliterals⟩ := h
    refine ⟨⟨es, tail, fun e he => ?_, htail⟩, congrArg (· ++ tail) hchars, hliterals⟩
    have hlead : e.lead ∈ parts.tail.map Prod.fst := by
      rw [List.map_tail, ← hleads, ← List.map_tail]
      exact List.mem_map_of_mem he
    obtain ⟨part, hpart, hfst⟩ := List.mem_map.mp hlead
    rw [← hfst]
    exact hsep part hpart
  clear hsep
  induction parts with
  | nil => exact ⟨[], rfl, rfl, rfl⟩
  | cons part parts ih =>
    obtain ⟨hpart, hparts⟩ := List.forall_mem_cons.mp hparts
    obtain ⟨es, hleads, hchars, hliterals⟩ := ih hparts
    refine ⟨Entry.spelled part.1 part.2 hpart :: es, ?_, ?_, ?_⟩
    · rw [List.map_cons, hleads]
      rfl
    · rw [List.flatMap_cons, hchars]
      rfl
    · rw [List.map_cons, hliterals]
      rfl

/-! ## What is read is spelled, but for its tabs -/

/-- A tab as its escape, and any other character as itself. -/
def Text.escapeTab (c : Char) : List Char := if c = '\t' then ['\\', 't'] else [c]

/-- The text with every tab as its escape. -/
def Text.escapeTabs (text : String) : String := String.ofList (text.toList.flatMap escapeTab)

/-- A plain character other than a tab has no escape. -/
theorem Text.Piece.ofChar_of_isPlain {c : Char} (hplain : isPlain c = true) (htab : c ≠ '\t') :
    ofChar c = plain c := by
  obtain ⟨hquote, hbackslash, hlineFeed⟩ := isPlain_iff.mp hplain
  have hnone : Escape.ofValue? c = none := by
    simp only [Escape.ofValue?, if_neg hlineFeed, if_neg htab, if_neg hquote, if_neg hbackslash]
  rw [ofChar, hnone]

/-- But for its tab, a piece is written as its character is spelled. -/
theorem Text.Piece.escapeTab_written {p : Piece} (h : p.Valid) :
    p.written.flatMap escapeTab = (ofChar p.value).written := by
  cases p with
  | plain c =>
    by_cases htab : c = '\t'
    · subst htab
      rfl
    · have hchar : ofChar (plain c).value = plain c := ofChar_of_isPlain h htab
      rw [hchar]
      show escapeTab c ++ [] = [c]
      rw [escapeTab, if_neg htab, List.append_nil]
  | escape e =>
    rw [value, ofChar, Escape.ofValue?_value]
    cases e <;> rfl

theorem Text.Piece.escapeTab_flatMap_written {pieces : List Piece} (h : ∀ p ∈ pieces, p.Valid) :
    (pieces.flatMap written).flatMap escapeTab =
      (quoteBody (String.ofList (pieces.map value))).toList := by
  rw [quoteBody, String.toList_ofList, String.toList_ofList]
  induction pieces with
  | nil => rfl
  | cons p pieces ih =>
    obtain ⟨hp, hpieces⟩ := List.forall_mem_cons.mp h
    rw [List.flatMap_cons, List.flatMap_append, ih hpieces, escapeTab_written hp, List.map_cons,
      List.flatMap_cons]

/-- But for its tabs, a string is written as it is spelled. -/
theorem Literal.Written.escapeTabs_eq {s : String} {text : List Char}
    (h : (Literal.value (.string s)).Written text) :
    escapeTabs (String.ofList text) = Literal.spelling (.value (.string s)) := by
  generalize hl : Literal.value (.string s) = l at h
  cases h with
  | wordTrue => cases hl
  | wordFalse => cases hl
  | wordNone => cases hl
  | integer => cases hl
  | @string pieces hpieces =>
    cases hl
    apply String.toList_injective
    have hquote : escapeTab '"' = ['"'] := rfl
    rw [Literal.toList_spelling_string, escapeTabs, String.toList_ofList, String.toList_ofList,
      List.flatMap_cons, List.flatMap_append, Piece.escapeTab_flatMap_written hpieces, hquote,
      List.flatMap_singleton, hquote, List.singleton_append]

/-- A token is the text at its span. -/
theorem Cursor.StandsIn.token {c : Cursor} {cs : List Char} {t : Token} (hc : c.StandsIn cs)
    (h : c.step.answer = .ok (some t)) :
    ∃ before text rest, cs = before ++ text ++ rest ∧ t.text = String.ofList text ∧
      t.span = ⟨utf8Length before, utf8Length text⟩ ∧ t.literal.Written text := by
  obtain ⟨front, rfl, hoffset⟩ := hc
  obtain ⟨e, hrest, -, rfl⟩ := exists_entry_eq_of_step h
  refine ⟨front ++ e.lead, e.text, c.step.next.rest, ?_, rfl, ?_, e.written⟩
  · rw [hrest, Entry.chars]
    simp
  · rw [Entry.token, hoffset, utf8Length_append]

/-- **Spelling and reading are inverse.** Take any literals, each but the first behind trivia that
is not empty, and any trivia at both ends: a source that spells them has exactly these literals.
Whatever a source holds, and however many faults came before: a token that is a string has the text
at its span, and with every tab escaped this is the spelling of the string. -/
theorem spelling_round_trip :
    (∀ (file : Option String) (parts : List (List Char × Literal)) (tail : List Char),
      (∀ part ∈ parts, Trivia false part.1) → (∀ part ∈ parts.tail, part.1 ≠ []) →
      Trivia true tail →
      Source.literals ⟨file, String.ofList (spelledChars parts ++ tail)⟩ =
        .ok (parts.map Prod.snd)) ∧
    ∀ (s : Source) (n : Nat) (t : Token) (v : String), .ok (some t) ∈ s.start.answers n →
      t.literal = .value (.string v) →
      (∃ before rest, s.text.toList = before ++ t.text.toList ++ rest ∧
        t.span = ⟨utf8Length before, utf8Length t.text.toList⟩) ∧
      escapeTabs t.text = "\"" ++ quoteBody v ++ "\"" := by
  constructor
  · intro file parts tail hparts hsep htail
    obtain ⟨l, htext, hliterals⟩ := exists_layout_of_spelled hparts hsep htail
    have hstart : (Source.mk file (String.ofList (spelledChars parts ++ tail))).start.rest =
        l.text := by
      rw [htext, Source.start, String.toList_ofList]
    obtain ⟨hfault, htokens⟩ := Cursor.read_of_layout l hstart
    rw [Source.literals_eq_ok_iff, Source.read_eq, htokens, l.map_literal_tokens]
    exact ⟨hfault, hliterals⟩
  · intro s n t v ht hv
    obtain ⟨c, hc, hanswer⟩ := Cursor.mem_answers (Cursor.standsIn_start s) ht
    obtain ⟨before, text, rest, hs, htext, hspan, hwritten⟩ := hc.token hanswer
    have hchars : t.text.toList = text := by rw [htext, String.toList_ofList]
    rw [hv] at hwritten
    refine ⟨⟨before, rest, ?_, ?_⟩, ?_⟩
    · rw [hchars]
      exact hs
    · rw [hchars]
      exact hspan
    · rw [htext, hwritten.escapeTabs_eq]
      rfl

/-- A comment, an integer, and a string with a tab, which is spelled with an escape and may be
written without. -/
theorem spelling_round_trip_of_tab :
    Source.literals ⟨none, String.ofList (spelledChars [("#a\n".toList, .value (.int (-7))),
        ([' '], .value (.string "\t"))] ++ ['#'])⟩ =
      .ok [.value (.int (-7)), .value (.string "\t")] ∧
    (∃ before rest, " \"\t\"".toList = before ++ "\"\t\"".toList ++ rest ∧
      Span.mk 1 3 = ⟨utf8Length before, utf8Length "\"\t\"".toList⟩) ∧
    escapeTabs "\"\t\"" = "\"" ++ quoteBody "\t" ++ "\"" := by
  have hcomment : Trivia false "#a\n".toList :=
    @Trivia.comment _ ['a'] [] (by decide) .nil
  have hgap : Trivia false [' '] := .blank (by decide) .nil
  have hstring : (Literal.value (.string "\t")).Written "\"\t\"".toList :=
    @Literal.Written.string [.plain '\t'] (by simp [Piece.Valid, isPlain])
  have hstep : (Source.start ⟨none, " \"\t\""⟩).step =
      ⟨.ok (some ⟨.value (.string "\t"), ⟨1, 3⟩, "\"\t\""⟩), ⟨4, []⟩⟩ :=
    Cursor.step_entry (e := ⟨[' '], _, _, hgap, hstring⟩) rfl .nil
  have htoken : .ok (some ⟨.value (.string "\t"), ⟨1, 3⟩, "\"\t\""⟩) ∈
      (Source.start ⟨none, " \"\t\""⟩).answers 1 :=
    List.mem_cons.mpr (.inl (congrArg Step.answer hstep).symm)
  exact ⟨spelling_round_trip.1 none _ ['#']
      (List.forall_mem_cons.mpr ⟨hcomment, List.forall_mem_singleton.mpr hgap⟩) (by simp)
      (.openComment List.not_mem_nil),
    spelling_round_trip.2 ⟨none, " \"\t\""⟩ 1 _ "\t" htoken rfl⟩

end LiteralPool
