/-!
# The body of a quoted string

Between its quotes a string is written in *pieces*, one a character: most characters stand for
themselves, and four have an escape, a backslash and a letter. Any character but the quote, the
backslash and the line feed may stand for itself; `Piece.ofChar` escapes a character whenever it
has an escape.

`split` takes the longest run of pieces off the front of a text. What it leaves begins with none
(`next?_split`), and nothing is lost (`written_split`).
-/

namespace LiteralPool.Text

/-- The characters that have an escape. -/
inductive Escape
  | lineFeed
  | tab
  | quote
  | backslash
deriving DecidableEq

namespace Escape

/-- The letter behind the backslash. -/
def letter : Escape → Char
  | lineFeed => 'n'
  | tab => 't'
  | quote => '"'
  | backslash => '\\'

/-- The character that is meant. -/
def value : Escape → Char
  | lineFeed => '\n'
  | tab => '\t'
  | quote => '"'
  | backslash => '\\'

/-- The escape with this letter. -/
def ofLetter? (c : Char) : Option Escape :=
  if c = 'n' then some lineFeed
  else if c = 't' then some tab
  else if c = '"' then some quote
  else if c = '\\' then some backslash
  else none

/-- The escape that means this character. -/
def ofValue? (c : Char) : Option Escape :=
  if c = '\n' then some lineFeed
  else if c = '\t' then some tab
  else if c = '"' then some quote
  else if c = '\\' then some backslash
  else none

@[simp] theorem ofLetter?_letter (e : Escape) : ofLetter? e.letter = some e := by
  cases e <;> rfl

@[simp] theorem ofValue?_value (e : Escape) : ofValue? e.value = some e := by
  cases e <;> rfl

theorem letter_of_ofLetter? {c : Char} {e : Escape} (h : ofLetter? c = some e) :
    e.letter = c := by
  unfold ofLetter? at h
  grind [letter]

theorem value_of_ofValue? {c : Char} {e : Escape} (h : ofValue? c = some e) : e.value = c := by
  unfold ofValue? at h
  grind [value]

end Escape

/-- May `c` stand for itself in the body of a string? -/
def isPlain (c : Char) : Bool := c != '"' && c != '\\' && c != '\n'

/-- One character of a string as it is written: itself, or an escape. -/
inductive Piece
  | plain (c : Char)
  | escape (e : Escape)
deriving DecidableEq

namespace Piece

/-- The characters that are written. -/
def written : Piece → List Char
  | plain c => [c]
  | escape e => ['\\', e.letter]

/-- The character that is meant. -/
def value : Piece → Char
  | plain c => c
  | escape e => e.value

/-- How a character is written if it is escaped whenever that is possible. -/
def ofChar (c : Char) : Piece :=
  match Escape.ofValue? c with
  | some e => escape e
  | none => plain c

@[simp] theorem value_ofChar (c : Char) : (ofChar c).value = c := by
  unfold ofChar
  split
  · exact Escape.value_of_ofValue? ‹_›
  · rfl

/-- The piece at the front of a text, and what follows it. -/
def next? : List Char → Option (Piece × List Char)
  | [] => none
  | c :: rest =>
    if isPlain c then some (plain c, rest)
    else match c, rest with
      | '\\', d :: rest => (Escape.ofLetter? d).map fun e => (escape e, rest)
      | _, _ => none

theorem written_next? {cs rest : List Char} {p : Piece} (h : next? cs = some (p, rest)) :
    p.written ++ rest = cs := by
  unfold next? at h
  split at h
  · simp at h
  · split at h
    · simp only [Option.some.injEq, Prod.mk.injEq] at h
      obtain ⟨rfl, rfl⟩ := h
      rfl
    · split at h
      · obtain ⟨e, he, h⟩ := Option.map_eq_some_iff.mp h
        simp only [Prod.mk.injEq] at h
        obtain ⟨rfl, rfl⟩ := h
        simp [written, Escape.letter_of_ofLetter? he]
      · simp at h

theorem length_lt_of_next? {cs rest : List Char} {p : Piece} (h : next? cs = some (p, rest)) :
    rest.length < cs.length := by
  have hlen := congrArg List.length (written_next? h)
  have hpos : 0 < p.written.length := by cases p <;> exact Nat.succ_pos _
  rw [List.length_append] at hlen
  omega

/-- The pieces at the front of a text, behind those that `before` holds in reverse, and what is
left of the text. -/
def splitAfter (before : List Piece) (cs : List Char) : List Piece × List Char :=
  match _ : next? cs with
  | some (p, rest) => splitAfter (p :: before) rest
  | none => (before.reverse, cs)
termination_by cs.length
decreasing_by exact length_lt_of_next? ‹_›

/-- The longest run of pieces at the front of a text, and what is left of the text. -/
def split (cs : List Char) : List Piece × List Char := splitAfter [] cs

theorem splitAfter_eq (before : List Piece) (cs : List Char) :
    splitAfter before cs = (before.reverse ++ (split cs).1, (split cs).2) := by
  rw [split]
  induction hn : cs.length using Nat.strongRecOn generalizing before cs with
  | ind n ih =>
    rw [splitAfter, splitAfter.eq_def []]
    split
    · rename_i p rest h
      have hlt := hn ▸ length_lt_of_next? h
      rw [ih _ hlt (p :: before) rest rfl, ih _ hlt [p] rest rfl]
      simp
    · simp

theorem split_of_next? {cs rest : List Char} {p : Piece} (h : next? cs = some (p, rest)) :
    split cs = (p :: (split rest).1, (split rest).2) := by
  rw [split, splitAfter]
  split
  · rename_i h'
    obtain ⟨rfl, rfl⟩ : p = _ ∧ rest = _ := by simpa [h] using h'
    rw [splitAfter_eq]
    rfl
  · simp_all

theorem split_of_next?_eq_none {cs : List Char} (h : next? cs = none) : split cs = ([], cs) := by
  rw [split, splitAfter]
  split
  · simp_all
  · rfl

/-- The pieces and what is left are the whole text. -/
theorem written_split (cs : List Char) :
    (split cs).1.flatMap written ++ (split cs).2 = cs := by
  induction hn : cs.length using Nat.strongRecOn generalizing cs with
  | ind n ih =>
    cases h : next? cs with
    | none => simp [split_of_next?_eq_none h]
    | some r =>
      have hlt := hn ▸ length_lt_of_next? h
      rw [split_of_next? h, List.flatMap_cons, List.append_assoc, ih _ hlt r.2 rfl,
        written_next? h]

/-- What is left begins with no further piece. -/
theorem next?_split (cs : List Char) : next? (split cs).2 = none := by
  induction hn : cs.length using Nat.strongRecOn generalizing cs with
  | ind n ih =>
    cases h : next? cs with
    | none => simpa [split_of_next?_eq_none h] using h
    | some r =>
      rw [split_of_next? h]
      exact ih _ (hn ▸ length_lt_of_next? h) r.2 rfl

end Piece

/-- The body of a string as it is written with every possible escape. -/
def quoteBody (s : String) : String :=
  String.ofList (s.toList.flatMap fun c => (Piece.ofChar c).written)

end LiteralPool.Text
