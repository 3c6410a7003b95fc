import LiteralPool.Scan
import LiteralPool.Source

/-!
# Reading tokens one by one

A cursor is a place in a source: the offset that was reached, and the text from there on. A step
skips white space and comments, scans a literal, and leaves the cursor behind whatever the scan
took, also when it failed; so reading can go on behind a fault.

A step that yields a token leaves less text than it found (`length_rest_lt_of_token`).
-/

namespace LiteralPool

/-- A literal, the bytes it was read from, and their text. -/
structure Token where
  literal : Literal
  span : Span
  text : String
deriving DecidableEq

/-- What is wrong at one offset of a source, and what was being read there. -/
structure Fault where
  cause : Cause
  offset : Nat
  notes : List String
deriving DecidableEq

/-- A place in a source: its offset, and the text from there on. -/
structure Cursor where
  offset : Nat
  rest : List Char
deriving DecidableEq

/-- What came of one step, and where the next one begins. -/
structure Step where
  answer : Except Fault (Option Token)
  next : Cursor

namespace Cursor

open Text

/-- Skips white space and comments, beginning inside a comment if `inComment`. A comment ends in
front of a line feed. -/
def skipFrom (inComment : Bool) (offset : Nat) : List Char → Cursor
  | [] => ⟨offset, []⟩
  | c :: rest =>
    if inComment then skipFrom (c != '\n') (offset + c.utf8Size) rest
    else if isCommentStart c then skipFrom true (offset + c.utf8Size) rest
    else if isBlank c then skipFrom false (offset + c.utf8Size) rest
    else ⟨offset, c :: rest⟩

/-- Skips white space and comments. -/
def skipTrivia (c : Cursor) : Cursor := skipFrom false c.offset c.rest

/-- Reads the next token, or nothing at the end of the source. -/
def step (c : Cursor) : Step :=
  let start := c.skipTrivia
  let scan := Scan.ofText start.rest
  let size := utf8Length scan.taken
  { answer := match scan.answer with
      | .ok none => .ok none
      | .ok (some literal) =>
        .ok (some ⟨literal, ⟨start.offset, size⟩, String.ofList scan.taken⟩)
      | .error complaint =>
        .error ⟨complaint.cause, start.offset + utf8Length complaint.lead, complaint.notes⟩
    next := ⟨start.offset + size, scan.rest⟩ }

/-- What `n` steps yield, one after the other, whether they fail or not. -/
def answers (c : Cursor) : Nat → List (Except Fault (Option Token))
  | 0 => []
  | n + 1 =>
    let step := c.step
    step.answer :: step.next.answers n

theorem length_rest_skipFrom_le (inComment : Bool) (offset : Nat) (cs : List Char) :
    (skipFrom inComment offset cs).rest.length ≤ cs.length := by
  induction cs generalizing inComment offset with
  | nil => exact Nat.le_refl _
  | cons c cs ih =>
    have h b := Nat.le_succ_of_le (ih b (offset + c.utf8Size))
    unfold skipFrom
    split
    · exact h _
    · split
      · exact h _
      · split
        · exact h _
        · exact Nat.le_refl _

/-- A step that yields a token leaves less text than it found. -/
theorem length_rest_lt_of_token {c : Cursor} {t : Token} (h : c.step.answer = .ok (some t)) :
    c.step.next.rest.length < c.rest.length := by
  have hskip : c.skipTrivia.rest.length ≤ c.rest.length := length_rest_skipFrom_le ..
  have happend := congrArg List.length (Scan.taken_append_rest c.skipTrivia.rest)
  rw [List.length_append] at happend
  have htaken : (Scan.ofText c.skipTrivia.rest).taken ≠ [] := by
    simp only [step] at h
    split at h
    · simp at h
    · exact Scan.taken_ne_nil_of_answer ‹_›
    · simp at h
  have := List.length_pos_iff.mpr htaken
  simp only [step]
  omega

end Cursor

end LiteralPool
