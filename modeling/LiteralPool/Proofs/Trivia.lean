import LiteralPool.Cursor

/-!
# What stands between literals

*Trivia* is white space and comments. A comment runs up to a line feed; one that runs up to the end
of the text instead is trivia only where nothing follows it.

**Skipping is exact.** What `Cursor.skipFrom` takes off the front of a text is trivia
(`skipFrom_spec`), and it takes all of it: behind trivia it goes on as if nothing had stood there
(`skipFrom_append`), and it stops only in front of another character (`isDelimiter_of_skipFrom`).

The induction runs along the text with the flag `inComment`. Inside a comment the text that was
taken is no trivia by itself; it becomes some behind any number sign and body, and that is what the
invariant says there.
-/

namespace LiteralPool

open Text

/-- White space and comments. If nothing follows (`last`), a comment may run up to the end. -/
inductive Trivia : (last : Bool) → List Char → Prop
  | nil {last : Bool} : Trivia last []
  | blank {last : Bool} {c : Char} {cs : List Char} :
      isBlank c = true → Trivia last cs → Trivia last (c :: cs)
  | comment {last : Bool} {body cs : List Char} :
      '\n' ∉ body → Trivia last cs → Trivia last ('#' :: (body ++ '\n' :: cs))
  | openComment {body : List Char} : '\n' ∉ body → Trivia true ('#' :: body)

/-- The text is empty, or begins with a character that can stand behind a literal. -/
def Delimited (cs : List Char) : Prop := ∀ c ∈ cs.head?, isDelimiter c = true

theorem Delimited.nil : Delimited [] := by
  intro c hc
  cases hc

theorem delimited_cons {c : Char} {cs : List Char} :
    Delimited (c :: cs) ↔ isDelimiter c = true := by
  constructor
  · intro h
    exact h c rfl
  · intro h d hd
    obtain rfl : c = d := Option.some.inj hd
    exact h

theorem isCommentStart_of_isBlank {c : Char} (h : isBlank c = true) :
    isCommentStart c = false := by
  by_cases hc : c = '#'
  · subst hc
    exact absurd h (by decide)
  · exact beq_false_of_ne hc

/-- Trivia begins with a delimiter, unless there is none. -/
theorem Trivia.delimited {last : Bool} {cs : List Char} (h : Trivia last cs) : Delimited cs := by
  cases h with
  | nil => exact .nil
  | blank hc _ => exact delimited_cons.mpr (by simp [isDelimiter, hc])
  | comment _ _ => exact delimited_cons.mpr rfl
  | openComment _ => exact delimited_cons.mpr rfl

/-! ## One character at a time -/

namespace Cursor

theorem skipFrom_comment {body : List Char} (h : '\n' ∉ body) (offset : Nat) (cs : List Char) :
    skipFrom true offset (body ++ cs) = skipFrom true (offset + utf8Length body) cs := by
  induction body generalizing offset with
  | nil => rfl
  | cons c body ih =>
    obtain ⟨hc, hbody⟩ : '\n' ≠ c ∧ '\n' ∉ body := by simpa using h
    have hstay : (c != '\n') = true := by simpa using hc.symm
    rw [List.cons_append, skipFrom, if_pos rfl, hstay, ih hbody, utf8Length_cons, Nat.add_assoc]

theorem skipFrom_lineFeed (offset : Nat) (cs : List Char) :
    skipFrom true offset ('\n' :: cs) = skipFrom false (offset + 1) cs := rfl

theorem skipFrom_numberSign (offset : Nat) (cs : List Char) :
    skipFrom false offset ('#' :: cs) = skipFrom true (offset + 1) cs := rfl

theorem skipFrom_blank {c : Char} (hc : isBlank c = true) (offset : Nat) (cs : List Char) :
    skipFrom false offset (c :: cs) = skipFrom false (offset + c.utf8Size) cs := by
  rw [skipFrom, if_neg (by simp), isCommentStart_of_isBlank hc, if_neg (by simp), if_pos hc]

theorem skipFrom_of_not_isDelimiter {c : Char} (hc : isDelimiter c = false) (offset : Nat)
    (cs : List Char) : skipFrom false offset (c :: cs) = ⟨offset, c :: cs⟩ := by
  obtain ⟨hblank, hstart⟩ : isBlank c = false ∧ isCommentStart c = false := by
    simpa [isDelimiter] using hc
  simp [skipFrom, hblank, hstart]

/-! ## Behind trivia -/

/-- Trivia is skipped, and skipping goes on behind it. Only at the end of the text may a comment be
left open. -/
theorem skipFrom_append {last : Bool} {lead cs : List Char} (h : Trivia last lead)
    (hcs : last = true → cs = []) (offset : Nat) :
    skipFrom false offset (lead ++ cs) = skipFrom false (offset + utf8Length lead) cs := by
  induction h generalizing offset with
  | nil => rfl
  | blank hc _ ih =>
    rw [List.cons_append, skipFrom_blank hc, ih hcs, utf8Length_cons, Nat.add_assoc]
  | @comment _ body lead hbody _ ih =>
    have hsize : utf8Length ('#' :: (body ++ '\n' :: lead)) =
        1 + (utf8Length body + (1 + utf8Length lead)) := by
      rw [utf8Length_cons, utf8Length_append, utf8Length_cons]
      rfl
    rw [List.cons_append, List.append_assoc, List.cons_append, skipFrom_numberSign,
      skipFrom_comment hbody, skipFrom_lineFeed, ih hcs, hsize]
    congr 1
    omega
  | @openComment body hbody =>
    rw [hcs rfl, List.cons_append, skipFrom_numberSign, skipFrom_comment hbody, utf8Length_cons,
      Nat.add_assoc]
    rfl

/-- Trivia with all its comments ended is skipped, whatever is behind it. -/
theorem skipFrom_closed {lead : List Char} (h : Trivia false lead) (offset : Nat)
    (cs : List Char) :
    skipFrom false offset (lead ++ cs) = skipFrom false (offset + utf8Length lead) cs :=
  skipFrom_append h (fun hopen => absurd hopen Bool.false_ne_true) offset

/-- Trivia is skipped, and no more than that. -/
theorem skipTrivia_lead {c : Cursor} {lead cs : List Char} (hc : c.rest = lead ++ cs)
    (hlead : Trivia false lead) (hne : cs ≠ []) (hhead : ∀ d ∈ cs.head?, isDelimiter d = false) :
    c.skipTrivia = ⟨c.offset + utf8Length lead, cs⟩ := by
  obtain ⟨d, ds, rfl⟩ := List.exists_cons_of_ne_nil hne
  rw [skipTrivia, hc, skipFrom_closed hlead]
  exact skipFrom_of_not_isDelimiter (hhead d rfl) _ _

/-! ## What is skipped is trivia -/

/-- Text that was skipped: trivia by itself, or, inside a comment, trivia behind the comment's
front. -/
def Skipped (inComment last : Bool) (lead : List Char) : Prop :=
  if inComment then ∀ body, '\n' ∉ body → Trivia last ('#' :: (body ++ lead))
  else Trivia last lead

theorem Skipped.nil {inComment : Bool} {cs : List Char} (h : inComment = true → cs = []) :
    Skipped inComment cs.isEmpty [] := by
  cases inComment with
  | false => exact Trivia.nil
  | true =>
    intro body hbody
    rw [h rfl, List.append_nil]
    exact .openComment hbody

/-- What `skipFrom` takes off the front of a text was to be skipped. -/
theorem skipFrom_spec (inComment : Bool) (offset : Nat) (cs : List Char) :
    ∃ lead, cs = lead ++ (skipFrom inComment offset cs).rest ∧
      (skipFrom inComment offset cs).offset = offset + utf8Length lead ∧
      Skipped inComment (skipFrom inComment offset cs).rest.isEmpty lead := by
  induction cs generalizing inComment offset with
  | nil => exact ⟨[], rfl, rfl, .nil fun _ => rfl⟩
  | cons c cs ih =>
    -- In each case but the last the character joins what the rest of the text lets skip.
    cases inComment with
    | true =>
      by_cases hc : c = '\n'
      · subst hc
        obtain ⟨lead, hcs, hoffset, hskip⟩ := ih false (offset + 1)
        refine ⟨'\n' :: lead, congrArg _ hcs, ?_, fun body hbody => .comment hbody hskip⟩
        rw [skipFrom_lineFeed, hoffset, utf8Length_cons, Nat.add_assoc]
        rfl
      · have hstep : skipFrom true offset (c :: cs) = skipFrom true (offset + c.utf8Size) cs := by
          have hone : '\n' ∉ [c] := by simpa using Ne.symm hc
          simpa using skipFrom_comment hone offset cs
        obtain ⟨lead, hcs, hoffset, hskip⟩ := ih true (offset + c.utf8Size)
        refine ⟨c :: lead, ?_, ?_, fun body hbody => ?_⟩
        · rw [hstep]
          exact congrArg _ hcs
        · rw [hstep, hoffset, utf8Length_cons, Nat.add_assoc]
        · have hmore : '\n' ∉ body ++ [c] := by simpa [hbody] using Ne.symm hc
          rw [hstep]
          simpa using hskip (body ++ [c]) hmore
    | false =>
      by_cases hd : isDelimiter c = true
      · by_cases hc : c = '#'
        · subst hc
          obtain ⟨lead, hcs, hoffset, hskip⟩ := ih true (offset + 1)
          refine ⟨'#' :: lead, congrArg _ hcs, ?_, hskip [] (by simp)⟩
          rw [skipFrom_numberSign, hoffset, utf8Length_cons, Nat.add_assoc]
          rfl
        · have hblank : isBlank c = true := by simpa [isDelimiter, isCommentStart, hc] using hd
          obtain ⟨lead, hcs, hoffset, hskip⟩ := ih false (offset + c.utf8Size)
          rw [skipFrom_blank hblank]
          refine ⟨c :: lead, congrArg _ hcs, ?_, .blank hblank hskip⟩
          rw [hoffset, utf8Length_cons, Nat.add_assoc]
      · rw [skipFrom_of_not_isDelimiter (by simpa using hd)]
        exact ⟨[], rfl, rfl, Trivia.nil⟩

/-- Skipping ends in front of a character that begins no trivia. -/
theorem isDelimiter_of_skipFrom (inComment : Bool) (offset : Nat) (cs : List Char) :
    ∀ c ∈ (skipFrom inComment offset cs).rest.head?, isDelimiter c = false := by
  induction cs generalizing inComment offset with
  | nil => intro c hc; cases hc
  | cons d cs ih =>
    cases inComment with
    | true => exact ih _ _
    | false =>
      by_cases hd : isDelimiter d = true
      · by_cases hsharp : d = '#'
        · subst hsharp
          exact ih true _
        · have hblank : isBlank d = true := by
            simpa [isDelimiter, isCommentStart, hsharp] using hd
          rw [skipFrom_blank hblank]
          exact ih false _
      · rw [skipFrom_of_not_isDelimiter (by simpa using hd)]
        intro c hc
        obtain rfl : d = c := Option.some.inj hc
        simpa using hd

end Cursor

end LiteralPool
