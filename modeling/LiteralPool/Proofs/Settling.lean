import LiteralPool.Proofs.Places

/-!
# Reading on behind faults

A cursor can be driven on behind faults. A step passes trivia, and then it takes characters, or it
takes none and the cursor has *settled* (`exists_taken`): it stands at the end of the text or in
front of a character that begins nothing, and every further step finds the same
(`Settled.step_eq`).

**Theorem (`reading_settles`).** After as many steps as a source has characters the cursor has
settled. A token stream yields the answers of the first steps, up to the first fault or to the end,
and nothing after that.

A step that does not settle takes a character, so there are not more of these than there are
characters (`settled_after`).
-/

namespace LiteralPool

open Text

/-- A character that begins neither a literal nor a word nor trivia. -/
structure Text.Stray (c : Char) : Prop where
  not_delimiter : isDelimiter c = false
  not_wordStart : isWordStart c = false
  ne_quote : c ≠ '"'
  ne_sign : c ≠ '-'
  not_digit : c.isDigit = false

/-- No way to write a literal begins with a stray character. -/
theorem Text.Stray.head?_ne {c : Char} (h : Stray c) {l : Literal} {text : List Char}
    (hl : l.Written text) : text.head? ≠ some c := by
  intro hc
  cases hl with
  | wordTrue =>
    obtain rfl := Option.some.inj hc
    cases h.not_wordStart
  | wordFalse =>
    obtain rfl := Option.some.inj hc
    cases h.not_wordStart
  | wordNone =>
    obtain rfl := Option.some.inj hc
    cases h.not_wordStart
  | @integer negative digits _ _ hdigits =>
    cases negative with
    | true => exact h.ne_sign (Option.some.inj hc).symm
    | false =>
      have hdigit := hdigits c (List.mem_of_head? hc)
      rw [h.not_digit] at hdigit
      cases hdigit
  | string => exact h.ne_quote (Option.some.inj hc).symm

/-- A complaint about a text of which nothing was read is about a stray character. -/
theorem Complaint.About.stray {e : Complaint} {rest : List Char} (h : e.About [] rest) :
    ∃ c more, rest = c :: more ∧ e = ⟨.unexpectedChar c, [], []⟩ ∧ Stray c := by
  generalize htaken : [] = taken at h
  cases h with
  | character hdelim hw hq hm hd => exact ⟨_, _, rfl, rfl, hdelim, hw, hq, hm, hd⟩
  | @range negative digits _ hne =>
    cases negative with
    | true => cases htaken
    | false => exact absurd htaken.symm hne
  | delimiter hwritten =>
    obtain ⟨c, cs, htext, -⟩ := hwritten.head
    rw [htext] at htaken
    cases htaken
  | _ => cases htaken

namespace Cursor

/-- The cursor after `n` steps, whether they fail or not. -/
def after (c : Cursor) : Nat → Cursor
  | 0 => c
  | n + 1 => c.step.next.after n

theorem after_succ (c : Cursor) (n : Nat) : c.after (n + 1) = (c.after n).step.next := by
  induction n generalizing c with
  | zero => rfl
  | succ n ih => exact ih c.step.next

/-- The cursor stands where no step takes a character, and finds this answer. -/
inductive Settled : Cursor → Except Fault (Option Token) → Prop
  /-- At the end of the text there is nothing. -/
  | atEnd {offset : Nat} : Settled ⟨offset, []⟩ (.ok none)
  /-- A stray character is in the way. -/
  | stray {offset : Nat} {d : Char} {more : List Char} :
      Stray d → Settled ⟨offset, d :: more⟩ (.error ⟨.unexpectedChar d, offset, []⟩)

variable {c : Cursor} {answer : Except Fault (Option Token)}

/-- A settled cursor stays where it is. -/
theorem Settled.step_eq (h : c.Settled answer) : c.step = ⟨answer, c⟩ := by
  cases h with
  | atEnd => exact step_tail .nil
  | @stray offset d more hd =>
    have hcomplaint : Complaint.About ⟨.unexpectedChar d, [], []⟩ [] (d :: more) :=
      .character hd.not_delimiter hd.not_wordStart hd.ne_quote hd.ne_sign hd.not_digit
    have hrest : d :: more = [] ++ ([] ++ d :: more) := rfl
    exact step_of_about hrest .nil hcomplaint

theorem Settled.after_eq (h : c.Settled answer) (n : Nat) : c.after n = c := by
  induction n with
  | zero => rfl
  | succ n ih =>
    rw [after, h.step_eq]
    exact ih

theorem Settled.answers_eq (h : c.Settled answer) (n : Nat) :
    c.answers n = List.replicate n answer := by
  induction n with
  | zero => rfl
  | succ n ih =>
    rw [answers, h.step_eq, List.replicate_succ]
    exact congrArg (answer :: ·) ih

/-! ## One step -/

/-- A step that takes nothing behind the trivia settles the cursor there. -/
theorem settled_skipTrivia (h : (Scan.ofText c.skipTrivia.rest).taken = []) :
    c.step.next = c.skipTrivia ∧ c.skipTrivia.Settled c.step.answer := by
  have hhead : ∀ d ∈ c.skipTrivia.rest.head?, isDelimiter d = false :=
    isDelimiter_of_skipFrom false c.offset c.rest
  have hrest : (Scan.ofText c.skipTrivia.rest).rest = c.skipTrivia.rest := by
    simpa [h] using Scan.taken_append_rest c.skipTrivia.rest
  refine ⟨by rw [next_eq, h, hrest]; rfl, ?_⟩
  cases hskip : c.skipTrivia with | mk offset rest
  simp only [step, hskip] at h hrest hhead ⊢
  cases hanswer : (Scan.ofText rest).answer with
  | ok found =>
    cases found with
    | some l => exact absurd h (Scan.taken_ne_nil_of_answer hanswer)
    | none =>
      obtain rfl := Scan.eq_nil_of_ofText hanswer
      exact .atEnd
  | error e =>
    have habout := Scan.about_of_ofText hhead hanswer
    rw [h, hrest] at habout
    obtain ⟨d, more, rfl, rfl, hd⟩ := habout.stray
    exact .stray hd

/-- A step passes trivia and then takes some characters, unless it settles the cursor. -/
theorem exists_taken (c : Cursor) :
    ∃ lead taken, c.rest = lead ++ (taken ++ c.step.next.rest) ∧
      Trivia (taken ++ c.step.next.rest).isEmpty lead ∧
      (taken ≠ [] ∨ taken = [] ∧ c.step.next.Settled c.step.answer) := by
  obtain ⟨lead, hrest, -, htrivia⟩ := c.skipTrivia_spec
  have htaken : (Scan.ofText c.skipTrivia.rest).taken ++ c.step.next.rest = c.skipTrivia.rest :=
    Scan.taken_append_rest c.skipTrivia.rest
  refine ⟨lead, (Scan.ofText c.skipTrivia.rest).taken, ?_, ?_, ?_⟩
  · rw [htaken]
    exact hrest
  · rw [htaken]
    exact htrivia
  · by_cases hnil : (Scan.ofText c.skipTrivia.rest).taken = []
    · obtain ⟨hnext, hsettled⟩ := settled_skipTrivia hnil
      exact .inr ⟨hnil, hnext ▸ hsettled⟩
    · exact .inl hnil

/-- A step takes a character, or it settles the cursor. -/
theorem length_lt_or_settled (c : Cursor) :
    c.step.next.rest.length < c.rest.length ∨ c.step.next.Settled c.step.answer := by
  obtain ⟨lead, taken, hrest, -, hne | ⟨-, hsettled⟩⟩ := c.exists_taken
  · have hlength := congrArg List.length hrest
    have hpos := List.length_pos_iff.mpr hne
    rw [List.length_append, List.length_append] at hlength
    exact .inl (by omega)
  · exact .inr hsettled

/-! ## Many steps -/

/-- As many steps as there are characters settle the cursor. -/
theorem settled_after {n : Nat} (h : c.rest.length ≤ n) : ∃ answer, (c.after n).Settled answer := by
  induction n generalizing c with
  | zero =>
    obtain ⟨offset, rest⟩ := c
    obtain rfl : rest = [] := List.length_eq_zero_iff.mp (Nat.le_zero.mp h)
    exact ⟨_, .atEnd⟩
  | succ n ih =>
    -- A step that does not settle the cursor leaves a shorter rest, for which `n` steps are enough.
    obtain hlt | hsettled := c.length_lt_or_settled
    · exact ih (by omega)
    · refine ⟨c.step.answer, ?_⟩
      rw [after, hsettled.after_eq]
      exact hsettled

theorem answers_add (c : Cursor) (m n : Nat) :
    c.answers (m + n) = c.answers m ++ (c.after m).answers n := by
  induction m generalizing c with
  | zero => rw [Nat.zero_add]; rfl
  | succ m ih =>
    rw [Nat.succ_add, answers, answers, ih]
    rfl

theorem StandsIn.after {cs : List Char} (h : c.StandsIn cs) (n : Nat) : (c.after n).StandsIn cs := by
  induction n generalizing c with
  | zero => exact h
  | succ n ih => exact ih h.next

/-! ## The stream -/

/-- What a stream yields if its steps have these answers: tokens up to the first fault, or up to the
first time that nothing is found. -/
def yielded : List (Except Fault (Option Token)) → List (Except Fault Token)
  | .ok (some t) :: answers => .ok t :: yielded answers
  | .error f :: _ => [.error f]
  | _ => []

/-- A reading is what the first steps yield, one more than there are characters. -/
theorem answers_read {n : Nat} (h : c.rest.length ≤ n) :
    c.read.answers = yielded (c.answers (n + 1)) := by
  induction c using stepwise generalizing n with
  | token c t hanswer ih =>
    have hlt := length_rest_lt_of_token hanswer
    obtain ⟨n, rfl⟩ : ∃ m, n = m + 1 := Nat.exists_eq_succ_of_ne_zero (by omega)
    rw [read_of_token hanswer, answers, hanswer, yielded, ← ih (n := n) (by omega)]
    rfl
  | done c hanswer =>
    rw [read_of_end hanswer, answers, hanswer]
    rfl
  | fault c f hanswer =>
    rw [read_of_fault hanswer, answers, hanswer]
    rfl

end Cursor

open Cursor

/-- **Reading on settles, and the stream is its front part.** Take any source, and any number of
steps. Every step passes trivia and then takes some characters, or it takes none and settles the
cursor: at the end, where it finds nothing, or in front of a stray character, with which no literal
begins. As many steps as there are characters have settled the cursor at a place of the text, and
all further ones have one answer. The stream yields the answers of the first steps, up to the first
fault or the end, and then nothing however often it is called. -/
theorem reading_settles (s : Source) :
    (∀ n, ∃ lead taken,
      (s.start.after n).rest = lead ++ (taken ++ (s.start.after (n + 1)).rest) ∧
      Trivia (taken ++ (s.start.after (n + 1)).rest).isEmpty lead ∧
      (taken ≠ [] ∨
        taken = [] ∧ (s.start.after (n + 1)).Settled (s.start.after n).step.answer)) ∧
    (∃ answer, (s.start.after s.text.length).Settled answer ∧
      (s.start.after s.text.length).StandsIn s.text.toList ∧
      ∀ k, s.start.answers (s.text.length + k) =
        s.start.answers s.text.length ++ List.replicate k answer) ∧
    (∀ d, Stray d → ∀ (l : Literal) (text : List Char), l.Written text → text.head? ≠ some d) ∧
    ∀ n, ((⟨s.start, false⟩ : TokenStream).after n).next.1 =
      (yielded (s.start.answers (s.text.length + 1)))[n]? := by
  have hlength : s.start.rest.length = s.text.length := String.length_toList
  refine ⟨?_, ?_, fun d hd l text hl => hd.head?_ne hl, ?_⟩
  · intro n
    rw [after_succ]
    exact (s.start.after n).exists_taken
  · obtain ⟨answer, hsettled⟩ := settled_after hlength.le
    refine ⟨answer, hsettled, (standsIn_start s).after s.text.length, fun k => ?_⟩
    rw [answers_add, hsettled.answers_eq]
  · intro n
    rw [TokenStream.next_after, answers_read hlength.le]

/-- Behind a word that is no keyword, a question mark is found again and again. -/
theorem reading_settles_at_question_mark :
    (∀ k, (Source.start ⟨none, "x ?"⟩).answers (3 + k) =
      (Source.start ⟨none, "x ?"⟩).answers 3 ++
        List.replicate k (.error ⟨.unexpectedChar '?', 2, []⟩)) ∧
      (Literal.value (.int 7)).Written ['7'] ∧ Stray '?' ∧ ['7'].head? ≠ some '?' := by
  obtain ⟨-, ⟨answer, hsettled, -, hanswers⟩, hstray, -⟩ := reading_settles ⟨none, "x ?"⟩
  have hfound : ((Source.start ⟨none, "x ?"⟩).after 3).step.answer =
      .error ⟨.unexpectedChar '?', 2, []⟩ := rfl
  obtain rfl : _ = answer := hfound.symm.trans (congrArg Step.answer hsettled.step_eq)
  have hmark : Stray '?' := ⟨by decide, by decide, by decide, by decide, by decide⟩
  have hseven : (Literal.value (.int 7)).Written ['7'] :=
    @Literal.Written.integer false ['7'] 7 (by decide) (List.all_eq_true.mp rfl) (by decide)
  exact ⟨hanswers, hseven, hmark, hstray '?' hmark _ _ hseven⟩

end LiteralPool
