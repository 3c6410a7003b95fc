import LiteralPool.Proofs.Reading
import LiteralPool.Proofs.Written

/-!
# The grammar of literal files

A *layout* takes a text apart: each literal as it is written with the trivia in front of it, and
the trivia behind the last one. Between two literals there must be some trivia.

**Theorem (`literals_iff_layout`).** A source has literals exactly if its text has a layout; it has
one layout at most; and the tokens that the source's stream yields are those of the layout, in
order and with their offsets.

One step of a cursor takes off one entry. From a layout, a step finds the token of its first entry
and leaves the rest (`step_entry`), or finds the end (`step_tail`); from a step, what it took is an
entry (`exists_entry_of_step`). What makes a text fit together again is that a literal is followed
by a delimiter or by nothing: so the next trivia is not empty, and the last literal is complete.
-/

namespace LiteralPool

open Text

/-- One literal as it is written, with the trivia in front of it. -/
structure Entry where
  lead : List Char
  text : List Char
  literal : Literal
  trivia : Trivia false lead
  written : literal.Written text

/-- A text taken apart: literals with trivia in front of each, and the trivia behind them all. -/
structure Layout where
  entries : List Entry
  tail : List Char
  separated : ∀ e ∈ entries.tail, e.lead ≠ []
  trivia : Trivia true tail

namespace Entry

/-- All characters of an entry. -/
def chars (e : Entry) : List Char := e.lead ++ e.text

/-- The token of an entry that begins at `offset`. -/
def token (e : Entry) (offset : Nat) : Token :=
  ⟨e.literal, ⟨offset + utf8Length e.lead, utf8Length e.text⟩, String.ofList e.text⟩

/-- The tokens of entries that follow each other from `offset` on. -/
def tokens (offset : Nat) : List Entry → List Token
  | [] => []
  | e :: es => e.token offset :: tokens (offset + utf8Length e.chars) es

end Entry

namespace Layout

/-- The text that was taken apart. -/
def text (l : Layout) : List Char := l.entries.flatMap Entry.chars ++ l.tail

/-- The literals in their order. -/
def literals (l : Layout) : List Literal := l.entries.map Entry.literal

/-- The tokens in their order, in a text that begins at `offset`. -/
def tokens (l : Layout) (offset : Nat) : List Token := Entry.tokens offset l.entries

end Layout

/-! ## From a layout to the steps -/

/-- Behind a literal of a layout the text is delimited. -/
theorem delimited_flatMap {es : List Entry} {tail : List Char} (h : ∀ e ∈ es, e.lead ≠ [])
    (htail : Trivia true tail) : Delimited (es.flatMap Entry.chars ++ tail) := by
  cases es with
  | nil => exact htail.delimited
  | cons e es =>
    have hdelim := e.trivia.delimited
    cases hlead : e.lead with
    | nil => exact absurd hlead (h e (by simp))
    | cons c cs =>
      rw [hlead] at hdelim
      rw [List.flatMap_cons, Entry.chars, hlead]
      exact delimited_cons.mpr (delimited_cons.mp hdelim)

namespace Cursor

/-- Trivia in front of a literal is skipped, and no more. -/
theorem skipTrivia_entry {c : Cursor} {e : Entry} {more : List Char}
    (hc : c.rest = e.chars ++ more) :
    c.skipTrivia = ⟨c.offset + utf8Length e.lead, e.text ++ more⟩ := by
  obtain ⟨d, ds, htext, hd⟩ := e.written.head
  rw [Entry.chars, List.append_assoc] at hc
  refine skipTrivia_lead hc e.trivia (by simp [htext]) fun d' hd' => ?_
  rw [htext] at hd'
  obtain rfl : d = d' := Option.some.inj hd'
  exact hd

/-- A step in front of an entry finds its token. -/
theorem step_entry {c : Cursor} {e : Entry} {more : List Char} (hc : c.rest = e.chars ++ more)
    (hmore : Delimited more) :
    c.step = ⟨.ok (some (e.token c.offset)), ⟨c.offset + utf8Length e.chars, more⟩⟩ := by
  rw [step, skipTrivia_entry hc, Scan.ofText_of_written e.written hmore, Entry.chars,
    utf8Length_append, ← Nat.add_assoc]
  rfl

/-- A step in front of a written literal, behind trivia, finds its token. -/
theorem step_of_written {c : Cursor} {lead text rest : List Char} {l : Literal}
    (hc : c.rest = lead ++ (text ++ rest)) (hlead : Trivia false lead) (h : l.Written text)
    (hrest : Delimited rest) :
    c.step = ⟨.ok (some ⟨l, ⟨c.offset + utf8Length lead, utf8Length text⟩, String.ofList text⟩),
      ⟨c.offset + utf8Length lead + utf8Length text, rest⟩⟩ := by
  let entry : Entry := ⟨lead, text, l, hlead, h⟩
  have hentry : c.rest = entry.chars ++ rest := by
    rw [hc, Entry.chars, List.append_assoc]
  rw [step_entry hentry hrest, Entry.chars, utf8Length_append, ← Nat.add_assoc]
  rfl

/-- A step in front of nothing but trivia finds the end. -/
theorem step_tail {c : Cursor} (hc : Trivia true c.rest) :
    c.step = ⟨.ok none, ⟨c.offset + utf8Length c.rest, []⟩⟩ := by
  have hskip : c.skipTrivia = ⟨c.offset + utf8Length c.rest, []⟩ := by
    have h := skipFrom_append hc (fun _ => rfl) c.offset
    rwa [List.append_nil] at h
  rw [step, hskip]
  rfl

theorem read_of_layout {c : Cursor} (l : Layout) (hc : c.rest = l.text) :
    c.read.fault = none ∧ c.read.tokens = l.tokens c.offset := by
  obtain ⟨es, tail, hsep, htail⟩ := l
  induction es generalizing c with
  | nil =>
    have hstep := step_tail (c := c) (hc ▸ htail)
    rw [read_of_end (congrArg Step.answer hstep)]
    exact ⟨rfl, rfl⟩
  | cons e es ih =>
    have hmore : Delimited (es.flatMap Entry.chars ++ tail) := delimited_flatMap hsep htail
    have hrest : c.rest = e.chars ++ (es.flatMap Entry.chars ++ tail) := by
      rw [hc, Layout.text, List.flatMap_cons, List.append_assoc]
    have hstep := step_entry hrest hmore
    obtain ⟨hfault, htokens⟩ := ih (c := c.step.next)
      (fun e' he' => hsep e' (List.mem_of_mem_tail he')) (by rw [hstep]; rfl)
    rw [read_of_token (congrArg Step.answer hstep)]
    refine ⟨hfault, ?_⟩
    show _ :: c.step.next.read.tokens = _
    rw [htokens, hstep]
    rfl

/-! ## From the steps to a layout -/

theorem skipTrivia_spec (c : Cursor) :
    ∃ lead, c.rest = lead ++ c.skipTrivia.rest ∧
      c.skipTrivia.offset = c.offset + utf8Length lead ∧
      Trivia c.skipTrivia.rest.isEmpty lead :=
  skipFrom_spec false c.offset c.rest

/-- What a step takes to yield a token is an entry. -/
theorem exists_entry_of_step {c : Cursor} {t : Token} (h : c.step.answer = .ok (some t)) :
    ∃ e : Entry, c.rest = e.chars ++ c.step.next.rest ∧ Delimited c.step.next.rest := by
  obtain ⟨lead, hrest, -, htrivia⟩ := c.skipTrivia_spec
  obtain ⟨l, hl⟩ : ∃ l, (Scan.ofText c.skipTrivia.rest).answer = .ok (some l) := by
    simp only [step] at h
    split at h
    · cases h
    · exact ⟨_, ‹_›⟩
    · cases h
  have hwritten := Scan.written_of_ofText hl
  have happend := Scan.taken_append_rest c.skipTrivia.rest
  have hopen : c.skipTrivia.rest.isEmpty = false := by
    obtain ⟨d, ds, htaken, -⟩ := hwritten.head
    rw [← happend, htaken]
    rfl
  rw [hopen] at htrivia
  refine ⟨⟨lead, _, l, htrivia, hwritten⟩, ?_, Scan.delimited_of_ofText hl⟩
  rw [hrest, Entry.chars, List.append_assoc]
  exact congrArg (lead ++ ·) happend.symm

/-- In front of the end there is nothing but trivia. -/
theorem trivia_of_step {c : Cursor} (h : c.step.answer = .ok none) : Trivia true c.rest := by
  obtain ⟨lead, hrest, -, htrivia⟩ := c.skipTrivia_spec
  have hend : c.skipTrivia.rest = [] := by
    refine Scan.eq_nil_of_ofText ?_
    simp only [step] at h
    split at h
    · assumption
    · cases h
    · cases h
  rw [hend] at htrivia hrest
  rwa [hrest, List.append_nil]

/-- If the text in front of a layout is delimited, all its literals are set apart. -/
theorem lead_ne_nil_of_delimited {l : Layout} (h : Delimited l.text) :
    ∀ e ∈ l.entries, e.lead ≠ [] := by
  cases hentries : l.entries with
  | nil => simp
  | cons first es =>
    intro e he
    rcases List.mem_cons.mp he with rfl | he
    · intro hlead
      obtain ⟨c, cs, htext, hc⟩ := e.written.head
      rw [Layout.text, hentries, List.flatMap_cons, Entry.chars, hlead, htext] at h
      rw [delimited_cons.mp h] at hc
      cases hc
    · refine l.separated e ?_
      rw [hentries]
      exact he

theorem exists_layout {c : Cursor} (h : c.read.fault = none) : ∃ l : Layout, l.text = c.rest := by
  induction c using stepwise with
  | token c t hstep ih =>
    rw [read_of_token hstep] at h
    obtain ⟨e, hrest, hdelim⟩ := exists_entry_of_step hstep
    obtain ⟨l, hl⟩ := ih h
    rw [← hl] at hrest hdelim
    refine ⟨⟨e :: l.entries, l.tail, lead_ne_nil_of_delimited hdelim, l.trivia⟩, ?_⟩
    rw [hrest, Layout.text, Layout.text, List.flatMap_cons, List.append_assoc]
  | done c hstep => exact ⟨⟨[], c.rest, by simp, trivia_of_step hstep⟩, rfl⟩
  | fault c f hstep =>
    rw [read_of_fault hstep] at h
    cases h

end Cursor

/-! ## Only one layout -/

theorem Entry.eq_of_chars_append {e e' : Entry} {more more' : List Char} (hmore : Delimited more)
    (hmore' : Delimited more') (h : e.chars ++ more = e'.chars ++ more') :
    e = e' ∧ more = more' := by
  have hskip := Cursor.skipTrivia_entry (c := ⟨0, e.chars ++ more⟩) rfl
  have hskip' := Cursor.skipTrivia_entry (c := ⟨0, e.chars ++ more⟩) h
  -- Skipping finds both texts in one place, and the scan there finds both literals.
  have hrest : e.text ++ more = e'.text ++ more' :=
    congrArg Cursor.rest (hskip.symm.trans hskip')
  have hscan := Scan.ofText_of_written e.written hmore
  rw [hrest, Scan.ofText_of_written e'.written hmore'] at hscan
  injection hscan with hanswer htext hmoreEq
  have hliteral : e'.literal = e.literal := Option.some.inj (Except.ok.inj hanswer)
  have hlead : e.lead = e'.lead := by
    rw [chars, chars, List.append_assoc, List.append_assoc, hrest] at h
    exact List.append_cancel_right h
  refine ⟨?_, hmoreEq.symm⟩
  cases e
  cases e'
  cases hliteral
  cases htext
  cases hlead
  rfl

theorem Layout.eq_of_text_eq {l l' : Layout} (h : l.text = l'.text) : l = l' := by
  obtain ⟨es, tail, hsep, htail⟩ := l
  obtain ⟨es', tail', hsep', htail'⟩ := l'
  simp only [text] at h
  suffices hparts : es = es' ∧ tail = tail' by
    cases hparts.1
    cases hparts.2
    rfl
  -- A step in front of an entry finds a token, and a step in front of trivia finds the end.
  have hends : ∀ (e : Entry) (es : List Entry) (tail end' : List Char), (∀ e ∈ es, e.lead ≠ []) →
      Trivia true tail → Trivia true end' → e.chars ++ (es.flatMap Entry.chars ++ tail) ≠ end' := by
    intro e es tail end' hsep htail hend heq
    have hstep := Cursor.step_entry (c := ⟨0, end'⟩) heq.symm (delimited_flatMap hsep htail)
    rw [Cursor.step_tail hend] at hstep
    injection hstep with hanswer
    cases hanswer
  induction es generalizing es' with
  | nil =>
    cases es' with
    | nil => exact ⟨rfl, h⟩
    | cons e' es' =>
      rw [List.flatMap_cons, List.append_assoc] at h
      exact absurd h.symm (hends e' es' tail' _ hsep' htail' htail)
  | cons e es ih =>
    cases es' with
    | nil =>
      rw [List.flatMap_cons, List.append_assoc] at h
      exact absurd h (hends e es tail _ hsep htail htail')
    | cons e' es' =>
      rw [List.flatMap_cons, List.flatMap_cons, List.append_assoc, List.append_assoc] at h
      obtain ⟨rfl, hmore⟩ := Entry.eq_of_chars_append (delimited_flatMap hsep htail)
        (delimited_flatMap hsep' htail') h
      obtain ⟨rfl, rfl⟩ := ih (fun e he => hsep e (List.mem_of_mem_tail he)) es'
        (fun e he => hsep' e (List.mem_of_mem_tail he)) hmore
      exact ⟨rfl, rfl⟩

/-! ## The grammar -/

theorem Source.literals_eq_ok_iff {s : Source} {L : List Literal} :
    s.literals = .ok L ↔ s.read.fault = none ∧ s.read.tokens.map Token.literal = L := by
  unfold literals
  cases h : s.read.fault with
  | none => simp [h]
  | some f => simp [h]

theorem Source.literals_eq_error_iff {s : Source} {d : Diagnostic} :
    s.literals = .error d ↔ ∃ f, s.read.fault = some f ∧ s.diagnose f = d := by
  unfold literals
  cases h : s.read.fault with
  | none => simp [h]
  | some f => simp [h]

theorem Layout.map_literal_tokens (l : Layout) (offset : Nat) :
    (l.tokens offset).map Token.literal = l.literals := by
  obtain ⟨es, tail, hsep, htail⟩ := l
  show (Entry.tokens offset es).map Token.literal = es.map Entry.literal
  clear hsep htail
  induction es generalizing offset with
  | nil => rfl
  | cons e es ih => exact congrArg (e.literal :: ·) (ih _)

/-- **Reading accepts exactly the grammar.** A source has literals if and only if its text has a
layout, and they are the layout's. A text has one layout at most. From a source with a layout, the
stream yields the layout's tokens one by one, and nothing behind them. -/
theorem literals_iff_layout (s : Source) :
    (∀ L, s.literals = .ok L ↔ ∃ l : Layout, l.text = s.text.toList ∧ l.literals = L) ∧
    (∀ l l' : Layout, l.text = s.text.toList → l'.text = s.text.toList → l = l') ∧
    (∀ l : Layout, l.text = s.text.toList → s.read.tokens = l.tokens 0 ∧
      ∀ n, ((⟨s.start, false⟩ : TokenStream).after n).next.1 = (l.tokens 0)[n]?.map .ok) := by
  have hread : ∀ l : Layout, l.text = s.text.toList →
      s.read.fault = none ∧ s.read.tokens = l.tokens 0 :=
    fun l hl => Cursor.read_of_layout (c := s.start) l hl.symm
  refine ⟨?_, ?_, ?_⟩
  · intro L
    rw [Source.literals_eq_ok_iff]
    constructor
    · intro ⟨hfault, hliterals⟩
      obtain ⟨l, hl⟩ := Cursor.exists_layout (c := s.start) hfault
      refine ⟨l, hl, ?_⟩
      rw [← hliterals, (hread l hl).2, Layout.map_literal_tokens]
    · intro ⟨l, hl, hliterals⟩
      obtain ⟨hfault, htokens⟩ := hread l hl
      exact ⟨hfault, by rw [htokens, Layout.map_literal_tokens, hliterals]⟩
  · intro l l' hl hl'
    exact Layout.eq_of_text_eq (hl.trans hl'.symm)
  · intro l hl
    obtain ⟨hfault, htokens⟩ := hread l hl
    refine ⟨htokens, ?_⟩
    intro n
    rw [TokenStream.next_after, ← Source.read_eq, Reading.answers, hfault, htokens]
    simp

/-- A comment, an integer, a string with an escape, and a comment that the text ends in. -/
theorem literals_between_comments :
    Source.literals ⟨none, "# a\n-07 \"b\\n\"#c"⟩ =
      .ok [.value (.int (-7)), .value (.string "b\n")] := by
  have hlead : Trivia false "# a\n".toList :=
    @Trivia.comment _ [' ', 'a'] [] (by decide) .nil
  have hint : (Literal.value (.int (-7))).Written "-07".toList :=
    @Literal.Written.integer true ['0', '7'] (-7) (by decide) (List.all_eq_true.mp rfl) (by decide)
  have hpieces : ∀ p ∈ [Piece.plain 'b', .escape .lineFeed], p.Valid := by
    simp [Piece.Valid, isPlain]
  have hstring : (Literal.value (.string "b\n")).Written "\"b\\n\"".toList := .string hpieces
  have hgap : Trivia false " ".toList := .blank (by decide) .nil
  have htail : Trivia true "#c".toList := @Trivia.openComment ['c'] (by decide)
  refine ((literals_iff_layout _).1 _).mpr ⟨⟨[⟨_, _, _, hlead, hint⟩, ⟨_, _, _, hgap, hstring⟩],
    _, fun e he => ?_, htail⟩, rfl, rfl⟩
  obtain rfl := List.mem_singleton.mp he
  exact List.cons_ne_nil _ _

end LiteralPool
