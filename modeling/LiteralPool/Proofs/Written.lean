import Mathlib
import LiteralPool.Proofs.Trivia

/-!
# Written literals

`Literal.Written l text` says that `text` is a way to write the literal `l`: its keyword, decimal
digits behind a minus sign or none, or quotes around a body of valid pieces.

**Scanning one literal is exact.** In front of a delimiter or the end, a written literal is what
`Scan.ofText` finds (`ofText_of_written`); and what it finds is a written literal in front of a
delimiter or the end (`written_of_ofText`, `delimited_of_ofText`). Both directions follow the cases
of the scanner. A keyword and a run of digits are cut off by the delimiter, a string by its
closing quote.
-/

namespace LiteralPool

open Text

/-- Is the piece one that reading can yield? Only a plain character may stand for itself. -/
def Text.Piece.Valid : Piece → Prop
  | .plain c => isPlain c = true
  | .escape _ => True

/-- A minus sign, if there is one, and digits. -/
def signedText (negative : Bool) (digits : List Char) : List Char :=
  if negative then '-' :: digits else digits

/-- The number that a sign and decimal digits mean. -/
def signedValue (negative : Bool) (digits : List Char) : Int :=
  if negative then -(Nat.ofDigitChars 10 digits 0 : Int) else Nat.ofDigitChars 10 digits 0

/-- The ways to write a literal. -/
inductive Literal.Written : Literal → List Char → Prop
  | wordTrue : Written (.value (.bool true)) ['T', 'r', 'u', 'e']
  | wordFalse : Written (.value (.bool false)) ['F', 'a', 'l', 's', 'e']
  | wordNone : Written .nothing ['N', 'o', 'n', 'e']
  | integer {negative : Bool} {digits : List Char} {n : Int32} :
      digits ≠ [] → (∀ c ∈ digits, c.isDigit = true) → n.toInt = signedValue negative digits →
      Written (.value (.int n)) (signedText negative digits)
  | string {pieces : List Piece} : (∀ p ∈ pieces, p.Valid) →
      Written (.value (.string (String.ofList (pieces.map Piece.value))))
        ('"' :: (pieces.flatMap Piece.written ++ ['"']))

/-! ## Character classes -/

theorem Text.isPlain_iff {c : Char} : isPlain c = true ↔ c ≠ '"' ∧ c ≠ '\\' ∧ c ≠ '\n' := by
  simp [isPlain, and_assoc]

theorem isWordChar_of_isDelimiter {c : Char} (h : isDelimiter c = true) :
    isWordChar c = false := by
  have hc : c.toNat = c.val.toNat := rfl
  simp only [isDelimiter, isCommentStart, isBlank, Bool.or_eq_true, Bool.and_eq_true,
    decide_eq_true_eq, beq_iff_eq] at h
  simp only [isWordChar, Char.isAlphanum, Char.isAlpha, Char.isUpper, Char.isLower, Char.isDigit,
    Bool.or_eq_false_iff, Bool.and_eq_false_iff, decide_eq_false_iff_not, beq_eq_false_iff_ne,
    ge_iff_le, UInt32.le_iff_toNat_le]
  rcases h with h | rfl
  · refine ⟨⟨⟨?_, ?_⟩, ?_⟩, ?_⟩
    · simp
      omega
    · simp
      omega
    · simp
      omega
    · rintro rfl
      revert h
      decide
  · decide

theorem isDigit_of_isDelimiter {c : Char} (h : isDelimiter c = true) : c.isDigit = false := by
  have hword := isWordChar_of_isDelimiter h
  simp only [isWordChar, Char.isAlphanum, Bool.or_eq_false_iff] at hword
  exact hword.1.2

/-- A run of elements of one class is cut off where the class ends. -/
theorem run_append {α : Type} {p : α → Bool} {cs rest : List α} (hcs : ∀ c ∈ cs, p c = true)
    (hrest : ∀ c ∈ rest.head?, p c = false) :
    (cs ++ rest).takeWhile p = cs ∧ (cs ++ rest).dropWhile p = rest := by
  rw [List.takeWhile_append_of_pos hcs, List.dropWhile_append_of_pos hcs]
  cases rest with
  | nil => simp
  | cons c rest =>
    have hc : p c = false := hrest c rfl
    simp [hc]

/-- Does a written literal not go on with `c`? A string has its closing quote. -/
def Literal.EndsBefore (c : Char) : Literal → Prop
  | .value (.int _) => c.isDigit = false
  | .value (.string _) => True
  | .value (.bool _) => isWordChar c = false
  | .nothing => isWordChar c = false

/-- No literal goes on with a delimiter. -/
theorem Literal.endsBefore_of_isDelimiter {c : Char} (h : isDelimiter c = true) (l : Literal) :
    l.EndsBefore c := by
  match l with
  | .value (.int _) => exact isDigit_of_isDelimiter h
  | .value (.string _) => trivial
  | .value (.bool _) => exact isWordChar_of_isDelimiter h
  | .nothing => exact isWordChar_of_isDelimiter h

/-! ## Pieces -/

namespace Text.Piece

theorem next?_written {p : Piece} (h : p.Valid) (cs : List Char) :
    next? (p.written ++ cs) = some (p, cs) := by
  cases p with
  | plain c =>
    have hc : isPlain c = true := h
    simp [written, next?, hc]
  | escape e =>
    have hback : isPlain '\\' = false := rfl
    simp [written, next?, hback]

theorem valid_of_next? {cs rest : List Char} {p : Piece} (h : next? cs = some (p, rest)) :
    p.Valid := by
  unfold next? at h
  split at h
  · cases h
  · split at h
    · next hc =>
      obtain ⟨rfl, -⟩ := Prod.mk.inj (Option.some.inj h)
      exact hc
    · split at h
      · obtain ⟨e, -, he⟩ := Option.map_eq_some_iff.mp h
        obtain ⟨rfl, -⟩ := Prod.mk.inj he
        trivial
      · cases h

theorem next?_quote (cs : List Char) : next? ('"' :: cs) = none := rfl

/-- Valid pieces at the front of a text are split off. -/
theorem split_written_append {pieces : List Piece} (h : ∀ p ∈ pieces, p.Valid) (cs : List Char) :
    split (pieces.flatMap written ++ cs) = (pieces ++ (split cs).1, (split cs).2) := by
  induction pieces with
  | nil => rfl
  | cons p pieces ih =>
    have hp : next? (p.written ++ (pieces.flatMap written ++ cs)) =
        some (p, pieces.flatMap written ++ cs) := next?_written (h p (by simp)) _
    rw [List.flatMap_cons, List.append_assoc, split_of_next? hp,
      ih fun q hq => h q (List.mem_cons_of_mem p hq)]
    rfl

/-- Valid pieces in front of a text that begins with none are split off, and no more. -/
theorem split_append {pieces : List Piece} (h : ∀ p ∈ pieces, p.Valid) {cs : List Char}
    (hcs : next? cs = none) : split (pieces.flatMap written ++ cs) = (pieces, cs) := by
  rw [split_written_append h, split_of_next?_eq_none hcs, List.append_nil]

/-- Splitting yields valid pieces. -/
theorem valid_of_mem_split {cs : List Char} {p : Piece} (h : p ∈ (split cs).1) : p.Valid := by
  induction hn : cs.length using Nat.strongRecOn generalizing cs with
  | ind n ih =>
    cases hnext : next? cs with
    | none =>
      rw [split_of_next?_eq_none hnext] at h
      cases h
    | some r =>
      obtain ⟨q, rest⟩ := r
      rw [split_of_next? hnext] at h
      rcases List.mem_cons.mp h with rfl | h
      · exact valid_of_next? hnext
      · exact ih _ (hn ▸ length_lt_of_next? hnext) h rfl

/-- A piece that reading can yield holds no line feed. -/
theorem lineFeed_notMem_written {p : Piece} (h : p.Valid) : '\n' ∉ p.written := by
  cases p with
  | plain c =>
    intro hc
    obtain rfl : '\n' = c := List.mem_singleton.mp hc
    cases (h : isPlain '\n' = true)
  | escape e =>
    cases e <;> simp [written, Escape.letter]

theorem lineFeed_notMem_flatMap_written {pieces : List Piece} (h : ∀ p ∈ pieces, p.Valid) :
    '\n' ∉ pieces.flatMap written := by
  rw [List.mem_flatMap]
  rintro ⟨p, hp, hc⟩
  exact lineFeed_notMem_written (h p hp) hc

end Text.Piece

/-! ## Integers -/

namespace Scan

/-- The signed 32-bit number that this number is, if it is one. -/
def fit? (number : Int) : Option Int32 :=
  if Int32.minValue.toInt ≤ number ∧ number ≤ Int32.maxValue.toInt then some (Int32.ofInt number)
  else none

theorem fit?_eq_some_iff {number : Int} {n : Int32} : fit? number = some n ↔ n.toInt = number := by
  rw [fit?]
  split_ifs with hfit
  · have hback : (Int32.ofInt number).toInt = number :=
      Int32.toInt_ofInt_of_le hfit.1 (Int.lt_add_one_of_le hfit.2)
    rw [Option.some.injEq, ← Int32.toInt_inj, hback]
    exact eq_comm
  · refine ⟨fun h => absurd h (by simp), fun h => absurd ?_ hfit⟩
    rw [← h]
    exact ⟨n.minValue_le_toInt, n.toInt_le⟩

theorem integer?_eq_fit? (negative : Bool) (digits : List Char) :
    integer? negative digits = fit? (signedValue negative digits) := rfl

theorem integer?_eq_some_iff {negative : Bool} {digits : List Char} {n : Int32} :
    integer? negative digits = some n ↔ n.toInt = signedValue negative digits := by
  rw [integer?_eq_fit?, fit?_eq_some_iff]

end Scan

namespace Scan

/-! ## The cases of a scan -/

/-- The first character says what is scanned. -/
theorem literal_cases (c : Char) (rest : List Char) :
    (isWordStart c = true ∧ literal (c :: rest) = word (c :: rest)) ∨
    (c = '"' ∧ literal (c :: rest) = string rest) ∨
    (c = '-' ∧ literal (c :: rest) = negative rest) ∨
    (c.isDigit = true ∧ literal (c :: rest) = integer false (c :: rest)) ∨
    ((isWordStart c = false ∧ c ≠ '"' ∧ c ≠ '-' ∧ c.isDigit = false) ∧
      literal (c :: rest) = ⟨.error ⟨.unexpectedChar c, [], []⟩, [], c :: rest⟩) := by
  rw [literal]
  split_ifs with hw hq hm hd
  · exact .inl ⟨hw, rfl⟩
  · exact .inr (.inl ⟨hq, rfl⟩)
  · exact .inr (.inr (.inl ⟨hm, rfl⟩))
  · exact .inr (.inr (.inr (.inl ⟨hd, rfl⟩)))
  · refine .inr (.inr (.inr (.inr ⟨⟨?_, hq, hm, ?_⟩, rfl⟩)))
    · exact Bool.not_eq_true _ ▸ hw
    · exact Bool.not_eq_true _ ▸ hd

/-! ## What a scan finds is written -/

/-- The scan yields a literal and took what is written for it, or it yields a complaint. -/
def Decided (scan : Scan) : Prop :=
  (∃ l, scan.answer = .ok (some l) ∧ l.Written scan.taken) ∨ ∃ e, scan.answer = .error e

theorem decided_word (cs : List Char) : (word cs).Decided := by
  have htext : (String.ofList (cs.takeWhile isWordChar)).toList = cs.takeWhile isWordChar :=
    String.toList_ofList
  cases h : Literal.ofKeyword? (String.ofList (cs.takeWhile isWordChar)) with
  | none => exact .inr ⟨_, by simp only [word, h]; rfl⟩
  | some l =>
    refine .inl ⟨l, by simp only [word, h], ?_⟩
    show l.Written (cs.takeWhile isWordChar)
    rw [← htext]
    unfold Literal.ofKeyword? at h
    split_ifs at h with htrue hfalse hnone
    · rw [htrue, ← Option.some.inj h]
      exact .wordTrue
    · rw [hfalse, ← Option.some.inj h]
      exact .wordFalse
    · rw [hnone, ← Option.some.inj h]
      exact .wordNone

theorem decided_string (cs : List Char) : (string cs).Decided := by
  have hvalid : ∀ p ∈ (Piece.split cs).1, p.Valid := fun p hp => Piece.valid_of_mem_split hp
  unfold string
  generalize Piece.split cs = parts at hvalid
  obtain ⟨pieces, rest⟩ := parts
  dsimp only
  split
  · exact .inl ⟨_, rfl, .string hvalid⟩
  · exact .inr ⟨_, rfl⟩
  · exact .inr ⟨_, rfl⟩
  · exact .inr ⟨_, rfl⟩

theorem decided_integer (negative : Bool) {c : Char} (hc : c.isDigit = true) (cs : List Char) :
    (integer negative (c :: cs)).Decided := by
  cases h : integer? negative ((c :: cs).takeWhile Char.isDigit) with
  | none =>
    exact .inr ⟨_, by simp only [integer, h]; rfl⟩
  | some n =>
    have hne : (c :: cs).takeWhile Char.isDigit ≠ [] := by simp [hc]
    have hall : ∀ d ∈ (c :: cs).takeWhile Char.isDigit, d.isDigit = true :=
      List.all_eq_true.mp List.all_takeWhile
    refine .inl ⟨.value (.int n), by simp only [integer, h], ?_⟩
    exact .integer hne hall (integer?_eq_some_iff.mp h)

theorem decided_negative (cs : List Char) : (negative cs).Decided := by
  cases cs with
  | nil => exact .inr ⟨_, rfl⟩
  | cons c rest =>
    rw [negative]
    split_ifs with hc
    · exact decided_integer true hc rest
    · exact .inr ⟨_, rfl⟩

theorem decided_literal (c : Char) (rest : List Char) : (literal (c :: rest)).Decided := by
  obtain ⟨-, h⟩ | ⟨-, h⟩ | ⟨-, h⟩ | ⟨hd, h⟩ | ⟨-, h⟩ := literal_cases c rest
  · exact h ▸ decided_word _
  · exact h ▸ decided_string _
  · exact h ▸ decided_negative _
  · exact h ▸ decided_integer false hd rest
  · exact h ▸ .inr ⟨_, rfl⟩

theorem decided_delimited {scan : Scan} (h : scan.Decided) : scan.delimited.Decided := by
  obtain ⟨l, hl, hwritten⟩ | ⟨e, he⟩ := h
  · cases hrest : scan.rest with
    | nil =>
      refine .inl ⟨l, ?_, by rwa [taken_delimited]⟩
      simp only [delimited, hl, hrest]
    | cons c rest =>
      by_cases hc : isDelimiter c = true
      · refine .inl ⟨l, ?_, by rwa [taken_delimited]⟩
        simp only [delimited, hl, hrest, if_pos hc]
      · refine .inr ⟨⟨.expectedDelimiter c, scan.taken, []⟩, ?_⟩
        simp only [delimited, hl, hrest, if_neg hc]
  · refine .inr ⟨e, ?_⟩
    simp only [delimited, he]

/-- Away from the end of the text a scan finds something, if only a fault. -/
theorem decided_ofText {cs : List Char} (h : cs ≠ []) : (ofText cs).Decided := by
  cases cs with
  | nil => exact absurd rfl h
  | cons c rest => exact decided_delimited (decided_literal c rest)

/-- What a scan takes, if it yields a literal, is that literal written. -/
theorem written_of_ofText {cs : List Char} {l : Literal}
    (h : (ofText cs).answer = .ok (some l)) : l.Written (ofText cs).taken := by
  by_cases hcs : cs = []
  · subst hcs
    cases h
  · obtain ⟨l', hl', hwritten⟩ | ⟨e, he⟩ := decided_ofText hcs
    · obtain rfl : l' = l := Option.some.inj (Except.ok.inj (hl'.symm.trans h))
      exact hwritten
    · cases he.symm.trans h

/-- Only at the end of the text is there nothing to find. -/
theorem eq_nil_of_ofText {cs : List Char} (h : (ofText cs).answer = .ok none) : cs = [] := by
  by_contra hcs
  obtain ⟨l, hl, -⟩ | ⟨e, he⟩ := decided_ofText hcs
  · cases hl.symm.trans h
  · cases he.symm.trans h

/-- A literal is found only in front of a delimiter or the end. -/
theorem delimited_of_ofText {cs : List Char} {l : Literal}
    (h : (ofText cs).answer = .ok (some l)) : Delimited (ofText cs).rest := by
  have hl : (literal cs).answer = .ok (some l) := answer_of_delimited h
  rw [ofText, rest_delimited]
  cases hrest : (literal cs).rest with
  | nil => exact .nil
  | cons c rest =>
    simp only [ofText, delimited, hl, hrest] at h
    split_ifs at h with hc
    exact delimited_cons.mpr hc

/-! ## What is written is found -/

theorem word_append {text rest : List Char} {l : Literal}
    (htext : ∀ c ∈ text, isWordChar c = true)
    (hl : Literal.ofKeyword? (String.ofList text) = some l)
    (hrest : ∀ c ∈ rest.head?, isWordChar c = false) :
    word (text ++ rest) = ⟨.ok (some l), text, rest⟩ := by
  obtain ⟨htake, hdrop⟩ := run_append htext hrest
  simp only [word, htake, hdrop, hl]

theorem integer_digits {negative : Bool} {digits rest : List Char} {n : Int32}
    (hdigits : ∀ c ∈ digits, c.isDigit = true) (hn : n.toInt = signedValue negative digits)
    (hrest : ∀ c ∈ rest.head?, c.isDigit = false) :
    integer negative (digits ++ rest) =
      ⟨.ok (some (.value (.int n))), signedText negative digits, rest⟩ := by
  obtain ⟨htake, hdrop⟩ := run_append hdigits hrest
  simp only [integer, htake, hdrop, integer?_eq_some_iff.mpr hn]
  rfl

theorem string_body {pieces : List Piece} (h : ∀ p ∈ pieces, p.Valid) (rest : List Char) :
    string (pieces.flatMap Piece.written ++ '"' :: rest) =
      ⟨.ok (some (.value (.string (String.ofList (pieces.map Piece.value))))),
        '"' :: (pieces.flatMap Piece.written ++ ['"']), rest⟩ := by
  simp only [string, Piece.split_append h (Piece.next?_quote rest)]
  rfl

theorem literal_digit {c : Char} (hc : c.isDigit = true) (rest : List Char) :
    literal (c :: rest) = integer false (c :: rest) := by
  obtain ⟨hw, -⟩ | ⟨rfl, -⟩ | ⟨rfl, -⟩ | ⟨-, h⟩ | ⟨⟨-, -, -, hd⟩, -⟩ := literal_cases c rest
  · -- No digit begins a word.
    have hc' : c.toNat = c.val.toNat := rfl
    simp only [isWordStart, Char.isAlpha, Char.isUpper, Char.isLower, Char.isDigit,
      Bool.or_eq_true, Bool.and_eq_true, decide_eq_true_eq, beq_iff_eq, ge_iff_le,
      UInt32.le_iff_toNat_le] at hw hc
    rcases hw with (hw | hw) | rfl
    · simp at hw hc
      omega
    · simp at hw hc
      omega
    · simp at hc
  · cases hc
  · cases hc
  · exact h
  · rw [hc] at hd
    cases hd

/-- Digits are scanned as an integer, also behind a minus sign. -/
theorem literal_signedText {negative : Bool} {digits : List Char} (hne : digits ≠ [])
    (hdigits : ∀ c ∈ digits, c.isDigit = true) (rest : List Char) :
    literal (signedText negative digits ++ rest) = integer negative (digits ++ rest) := by
  obtain ⟨d, digits, rfl⟩ := List.exists_cons_of_ne_nil hne
  have hd : d.isDigit = true := hdigits d (by simp)
  cases negative with
  | false => exact literal_digit hd _
  | true =>
    show Scan.negative (d :: (digits ++ rest)) = _
    rw [Scan.negative, if_pos hd]
    rfl

/-- A written literal that does not go on is what a scan finds. -/
theorem literal_of_written {l : Literal} {text rest : List Char} (h : l.Written text)
    (hrest : ∀ c ∈ rest.head?, l.EndsBefore c) :
    literal (text ++ rest) = ⟨.ok (some l), text, rest⟩ := by
  cases h with
  | wordTrue =>
    exact @word_append ['T', 'r', 'u', 'e'] rest _ (List.all_eq_true.mp rfl) rfl hrest
  | wordFalse =>
    exact @word_append ['F', 'a', 'l', 's', 'e'] rest _ (List.all_eq_true.mp rfl) rfl hrest
  | wordNone =>
    exact @word_append ['N', 'o', 'n', 'e'] rest _ (List.all_eq_true.mp rfl) rfl hrest
  | @integer negative digits n hne hdigits hn =>
    rw [literal_signedText hne hdigits]
    exact integer_digits hdigits hn hrest
  | @string pieces hpieces =>
    have hsplit : ('"' :: (pieces.flatMap Piece.written ++ ['"'])) ++ rest =
        '"' :: (pieces.flatMap Piece.written ++ '"' :: rest) := by simp
    rw [hsplit]
    exact string_body hpieces rest

/-- A written literal in front of a delimiter or the end is what a scan finds. -/
theorem ofText_of_written {l : Literal} {text rest : List Char} (h : l.Written text)
    (hrest : Delimited rest) : ofText (text ++ rest) = ⟨.ok (some l), text, rest⟩ := by
  rw [ofText, literal_of_written h fun c hc => l.endsBefore_of_isDelimiter (hrest c hc)]
  cases rest with
  | nil => rfl
  | cons c rest => simp only [delimited, if_pos (delimited_cons.mp hrest)]

end Scan

/-- Digits, with a minus sign or without, begin with a character that stands in no trivia. -/
theorem signedText_head (negative : Bool) {digits : List Char} (hne : digits ≠ [])
    (hdigits : ∀ c ∈ digits, c.isDigit = true) :
    ∃ c cs, signedText negative digits = c :: cs ∧ isDelimiter c = false := by
  cases digits with
  | nil => exact absurd rfl hne
  | cons d digits =>
    cases negative with
    | false =>
      refine ⟨d, digits, rfl, ?_⟩
      by_contra hd
      have hdigit := hdigits d (by simp)
      rw [isDigit_of_isDelimiter (by simpa using hd)] at hdigit
      cases hdigit
    | true => exact ⟨_, _, rfl, by decide⟩

/-- A written literal begins with a character that stands in no trivia. -/
theorem Literal.Written.head {l : Literal} {text : List Char} (h : l.Written text) :
    ∃ c cs, text = c :: cs ∧ isDelimiter c = false := by
  cases h with
  | wordTrue => exact ⟨_, _, rfl, by decide⟩
  | wordFalse => exact ⟨_, _, rfl, by decide⟩
  | wordNone => exact ⟨_, _, rfl, by decide⟩
  | integer hne hdigits _ => exact signedText_head _ hne hdigits
  | string _ => exact ⟨_, _, rfl, by decide⟩

/-! ## Canonical forms -/

namespace Text.Piece

theorem valid_ofChar (c : Char) : (ofChar c).Valid := by
  unfold ofChar
  split
  · trivial
  · next h =>
    show isPlain c = true
    rw [isPlain_iff]
    refine ⟨?_, ?_, ?_⟩ <;> rintro rfl <;> cases h

/-- Every line feed is escaped. -/
theorem lineFeed_notMem_written_ofChar (c : Char) : '\n' ∉ (ofChar c).written :=
  lineFeed_notMem_written (valid_ofChar c)

end Text.Piece

/-- An integer may be written as it is displayed. -/
theorem Literal.written_int (n : Int32) :
    (Literal.value (.int n)).Written n.toInt.repr.toList := by
  have hdigit : ∀ m : Nat, ∀ c ∈ Nat.toDigits 10 m, c.isDigit = true := fun m c hc =>
    Nat.isDigit_of_mem_toDigits (by decide) (by decide) hc
  cases h : n.toInt with
  | ofNat m =>
    have htext : (Int.ofNat m).repr.toList = signedText false (Nat.toDigits 10 m) := Nat.toList_repr
    rw [htext]
    refine .integer Nat.toDigits_ne_nil (hdigit m) ?_
    rw [h, signedValue, Nat.ofDigitChars_ten_toDigits]
    rfl
  | negSucc m =>
    have htext : (Int.negSucc m).repr.toList = signedText true (Nat.toDigits 10 (m + 1)) := by
      show ("-" ++ (m + 1).repr).toList = _
      rw [String.toList_append, Nat.toList_repr]
      rfl
    rw [htext]
    refine .integer Nat.toDigits_ne_nil (hdigit (m + 1)) ?_
    rw [h, signedValue, Nat.ofDigitChars_ten_toDigits]
    rfl

/-- A string may be written with every possible escape. -/
theorem Literal.written_string (s : String) :
    (Literal.value (.string s)).Written ('"' :: ((quoteBody s).toList ++ ['"'])) := by
  have hvalid : ∀ p ∈ s.toList.map Piece.ofChar, p.Valid := by
    intro p hp
    obtain ⟨c, -, rfl⟩ := List.mem_map.mp hp
    exact Piece.valid_ofChar c
  have hvalue : String.ofList ((s.toList.map Piece.ofChar).map Piece.value) = s := by
    have hid : Piece.value ∘ Piece.ofChar = id := funext Piece.value_ofChar
    rw [List.map_map, hid, List.map_id, String.ofList_toList]
  have hbody : (quoteBody s).toList = (s.toList.map Piece.ofChar).flatMap Piece.written := by
    rw [quoteBody, String.toList_ofList, List.flatMap_map]
  have hwritten := Written.string hvalid
  rwa [hvalue, ← hbody] at hwritten

end LiteralPool
