import LiteralPool.Cause
import LiteralPool.Literal
import LiteralPool.Text.Blank
import LiteralPool.Text.Quoted

/-!
# Scanning one literal

A literal is a keyword, an integer in decimal digits, or a string between quotes; white space, a
comment or the end of the text must follow it. `Scan.ofText` scans the literal at the front of a
text that begins with neither white space nor a comment.

Whatever comes of it, a scan says which characters it took and which it left, and nothing is lost
(`taken_append_rest`). A scan that yields a literal takes at least one character
(`taken_ne_nil_of_answer`).
-/

namespace LiteralPool

namespace Text

/-- Can `c` begin a word? -/
def isWordStart (c : Char) : Bool := c.isAlpha || c == '_'

/-- Can `c` stand in a word? -/
def isWordChar (c : Char) : Bool := c.isAlphanum || c == '_'

/-- Does `c` begin a comment? -/
def isCommentStart (c : Char) : Bool := c == '#'

/-- Can `c` stand behind a literal? -/
def isDelimiter (c : Char) : Bool := isBlank c || isCommentStart c

end Text

/-- What is wrong with a text that should begin with a literal. -/
structure Complaint where
  cause : Cause
  /-- What stands between the front of the text and the evidence. -/
  lead : List Char
  /-- What was being read. -/
  notes : List String
deriving DecidableEq

/-- What came of one scan. -/
structure Scan where
  /-- The literal, or nothing at the end of the text. -/
  answer : Except Complaint (Option Literal)
  taken : List Char
  rest : List Char

namespace Scan

open Text

/-- The end of the text. -/
def atEnd : Scan := ⟨.ok none, [], []⟩

/-- A word is the longest run of letters, digits and underscores. -/
def word (cs : List Char) : Scan :=
  let taken := cs.takeWhile isWordChar
  let word := String.ofList taken
  { answer := match Literal.ofKeyword? word with
      | some literal => .ok (some literal)
      | none => .error ⟨.unknownKeyword word, [], []⟩
    taken
    rest := cs.dropWhile isWordChar }

/-- The body of a string and its closing quote, behind an opening one. -/
def string (cs : List Char) : Scan :=
  let (pieces, rest) := Piece.split cs
  let body := '"' :: pieces.flatMap Piece.written
  let fault (cause : Cause) (lead : List Char) : Except Complaint (Option Literal) :=
    .error ⟨cause, lead, ["string"]⟩
  match rest with
  | '"' :: rest =>
    ⟨.ok (some (.value (.string (String.ofList (pieces.map Piece.value))))), body ++ ['"'], rest⟩
  | '\\' :: c :: rest => ⟨fault (.unknownEscape c) body, body ++ ['\\', c], rest⟩
  | c :: rest => ⟨fault .unterminatedString [], body ++ [c], rest⟩
  | [] => ⟨fault .unterminatedString [], body, []⟩

/-- The integer of a sign and digits, if it fits. -/
def integer? (negative : Bool) (digits : List Char) : Option Int32 :=
  let magnitude : Int := Nat.ofDigitChars 10 digits 0
  let value := if negative then -magnitude else magnitude
  if Int32.minValue.toInt ≤ value ∧ value ≤ Int32.maxValue.toInt then some (Int32.ofInt value)
  else none

/-- A sign that was read and the digits at the front of `cs`. -/
def integer (negative : Bool) (cs : List Char) : Scan :=
  let digits := cs.takeWhile Char.isDigit
  let taken := if negative then '-' :: digits else digits
  { answer := match integer? negative digits with
      | some n => .ok (some (.value (.int n)))
      | none => .error ⟨.integerOutOfRange (String.ofList taken), [], ["integer"]⟩
    taken
    rest := cs.dropWhile Char.isDigit }

/-- What follows a minus sign: digits, or else the sign was wrong. -/
def negative : List Char → Scan
  | [] => ⟨.error ⟨.unexpectedChar '-', [], ["integer"]⟩, ['-'], []⟩
  | c :: rest =>
    if c.isDigit then integer true (c :: rest)
    else ⟨.error ⟨.expectedDigit c, ['-'], ["integer"]⟩, ['-'], c :: rest⟩

/-- The literal at the front of a text, whatever follows it. -/
def literal : List Char → Scan
  | [] => atEnd
  | c :: rest =>
    if isWordStart c then word (c :: rest)
    else if c = '"' then string rest
    else if c = '-' then negative rest
    else if c.isDigit then integer false (c :: rest)
    else ⟨.error ⟨.unexpectedChar c, [], []⟩, [], c :: rest⟩

/-- Refuses a literal that runs into the next character. -/
def delimited (scan : Scan) : Scan :=
  match scan.answer, scan.rest with
  | .ok (some _), c :: _ =>
    if isDelimiter c then scan
    else { scan with answer := .error ⟨.expectedDelimiter c, scan.taken, []⟩ }
  | _, _ => scan

/-- The literal at the front of a text. -/
def ofText (cs : List Char) : Scan := (literal cs).delimited

/-! ## Nothing is lost -/

theorem string_append (cs : List Char) : (string cs).taken ++ (string cs).rest = '"' :: cs := by
  have h := Piece.written_split cs
  unfold string
  split
  rename_i pieces rest hsplit
  rw [hsplit] at h
  simp only at h
  split <;> simp_all

theorem integer_append (b : Bool) (cs : List Char) :
    (integer b cs).taken ++ (integer b cs).rest = if b then '-' :: cs else cs := by
  cases b <;> simp [integer]

theorem negative_append (cs : List Char) :
    (negative cs).taken ++ (negative cs).rest = '-' :: cs := by
  unfold negative
  split
  · rfl
  · split
    · exact integer_append true _
    · rfl

theorem literal_append (cs : List Char) : (literal cs).taken ++ (literal cs).rest = cs := by
  unfold literal
  split
  · rfl
  · split
    · simp [word]
    · split
      · simp_all [string_append]
      · split
        · simp_all [negative_append]
        · split
          · exact integer_append false _
          · rfl

@[simp] theorem taken_delimited (scan : Scan) : scan.delimited.taken = scan.taken := by
  unfold delimited
  split
  · split <;> rfl
  · rfl

@[simp] theorem rest_delimited (scan : Scan) : scan.delimited.rest = scan.rest := by
  unfold delimited
  split
  · split <;> rfl
  · rfl

/-- A scan takes a front part of the text and leaves the rest. -/
theorem taken_append_rest (cs : List Char) : (ofText cs).taken ++ (ofText cs).rest = cs := by
  simp [ofText, literal_append]

theorem answer_of_delimited {scan : Scan} {answer : Option Literal}
    (h : scan.delimited.answer = .ok answer) : scan.answer = .ok answer := by
  unfold delimited at h
  split at h
  · split at h
    · exact h
    · simp at h
  · exact h

theorem taken_word_ne_nil {c : Char} {cs : List Char} (h : isWordStart c = true) :
    (word (c :: cs)).taken ≠ [] := by
  have : isWordChar c = true := by
    simp only [isWordStart, isWordChar, Char.isAlphanum, Bool.or_eq_true] at *
    exact h.imp_left .inl
  simp [word, this]

theorem taken_string_ne_nil (cs : List Char) : (string cs).taken ≠ [] := by
  unfold string
  split
  split <;> simp

theorem taken_integer_ne_nil {b : Bool} {c : Char} {cs : List Char} (h : c.isDigit = true) :
    (integer b (c :: cs)).taken ≠ [] := by
  cases b <;> simp [integer, h]

theorem taken_negative_ne_nil (cs : List Char) : (negative cs).taken ≠ [] := by
  unfold negative
  split
  · simp
  · split
    · exact taken_integer_ne_nil ‹_›
    · simp

theorem taken_literal_ne_nil {cs : List Char} {l : Literal}
    (h : (literal cs).answer = .ok (some l)) : (literal cs).taken ≠ [] := by
  match cs with
  | [] => simp [literal, atEnd] at h
  | c :: rest =>
    rw [literal] at h ⊢
    by_cases hw : isWordStart c
    · rw [if_pos hw]
      exact taken_word_ne_nil hw
    rw [if_neg hw] at h ⊢
    by_cases hq : c = '"'
    · rw [if_pos hq]
      exact taken_string_ne_nil rest
    rw [if_neg hq] at h ⊢
    by_cases hm : c = '-'
    · rw [if_pos hm]
      exact taken_negative_ne_nil rest
    rw [if_neg hm] at h ⊢
    by_cases hd : c.isDigit
    · rw [if_pos hd]
      exact taken_integer_ne_nil hd
    · simp [hd] at h

/-- A scan that yields a literal takes at least one character. -/
theorem taken_ne_nil_of_answer {cs : List Char} {l : Literal}
    (h : (ofText cs).answer = .ok (some l)) : (ofText cs).taken ≠ [] := by
  rw [ofText, taken_delimited]
  exact taken_literal_ne_nil (answer_of_delimited h)

end Scan

end LiteralPool
