import LiteralPool.Proofs.Written

/-!
# What scans complain about

`Complaint.About e taken rest` says that `e` is the complaint about a text of which `taken` was
read and `rest` was left: one case for each way in which a literal can be malformed.

**Complaining is exact.** What a scan complains about is malformed in that way
(`about_of_ofText`), and a text that is malformed in one of these ways gets the complaint, and is
read up to the same place (`ofText_of_about`). The first character decides which scanner runs, so
the proofs have one lemma for each scanner. A literal that ran into the next character is the case
that no scanner sees: it is a written literal in front of a character that neither continues it
nor may follow it.
-/

namespace LiteralPool

open Text

/-- The complaint about a text of which `taken` was read and `rest` was left. -/
inductive Complaint.About : Complaint → (taken rest : List Char) → Prop
  /-- No literal begins with this character, and nothing is read. -/
  | character {c : Char} {rest : List Char} :
      isDelimiter c = false → isWordStart c = false → c ≠ '"' → c ≠ '-' → c.isDigit = false →
      About ⟨.unexpectedChar c, [], []⟩ [] (c :: rest)
  /-- The text ends behind a minus sign. -/
  | sign : About ⟨.unexpectedChar '-', [], ["integer"]⟩ ['-'] []
  /-- No digit follows a minus sign. -/
  | digit {c : Char} {rest : List Char} :
      c.isDigit = false → About ⟨.expectedDigit c, ['-'], ["integer"]⟩ ['-'] (c :: rest)
  /-- The digits that are there mean no signed 32-bit number. -/
  | range {negative : Bool} {digits rest : List Char} :
      digits ≠ [] → (∀ c ∈ digits, c.isDigit = true) → (∀ c ∈ rest.head?, c.isDigit = false) →
      (∀ n : Int32, n.toInt ≠ signedValue negative digits) →
      About ⟨.integerOutOfRange (String.ofList (signedText negative digits)), [], ["integer"]⟩
        (signedText negative digits) rest
  /-- The word is no keyword. -/
  | word {c : Char} {cs rest : List Char} :
      isWordStart c = true → (∀ d ∈ cs, isWordChar d = true) →
      (∀ d ∈ rest.head?, isWordChar d = false) →
      Literal.ofKeyword? (String.ofList (c :: cs)) = none →
      About ⟨.unknownKeyword (String.ofList (c :: cs)), [], []⟩ (c :: cs) rest
  /-- The character behind a backslash makes no escape. -/
  | escape {pieces : List Piece} {c : Char} {rest : List Char} :
      (∀ p ∈ pieces, p.Valid) → Escape.ofLetter? c = none →
      About ⟨.unknownEscape c, '"' :: pieces.flatMap Piece.written, ["string"]⟩
        ('"' :: (pieces.flatMap Piece.written ++ ['\\', c])) rest
  /-- The text ends inside a string, perhaps behind a backslash. -/
  | openString {pieces : List Piece} {cut : List Char} :
      (∀ p ∈ pieces, p.Valid) → cut = [] ∨ cut = ['\\'] →
      About ⟨.unterminatedString, [], ["string"]⟩ ('"' :: (pieces.flatMap Piece.written ++ cut)) []
  /-- The line ends inside a string, and its line feed is read. -/
  | lineFeed {pieces : List Piece} {rest : List Char} :
      (∀ p ∈ pieces, p.Valid) →
      About ⟨.unterminatedString, [], ["string"]⟩
        ('"' :: (pieces.flatMap Piece.written ++ ['\n'])) rest
  /-- A whole literal is there, and no delimiter behind it. -/
  | delimiter {l : Literal} {text rest : List Char} {c : Char} :
      l.Written text → l.EndsBefore c → isDelimiter c = false →
      About ⟨.expectedDelimiter c, text, []⟩ text (c :: rest)

/-! ## What is left behind a run -/

theorem head_dropWhile {p : Char → Bool} (cs : List Char) :
    ∀ c ∈ (cs.dropWhile p).head?, p c = false := by
  intro c hc
  cases h : cs.dropWhile p with
  | nil => simp [h] at hc
  | cons d ds =>
    obtain rfl : d = c := by simpa [h] using hc
    have hne : cs.dropWhile p ≠ [] := by simp [h]
    simpa [h] using List.head_dropWhile_not p hne

theorem isWordChar_of_isWordStart {c : Char} (h : isWordStart c = true) : isWordChar c = true := by
  simp only [isWordStart, isWordChar, Char.isAlphanum, Bool.or_eq_true] at *
  exact h.imp_left .inl

/-- A malformed text begins with a character that stands in no trivia. -/
theorem Complaint.About.head {e : Complaint} {taken rest : List Char} (h : e.About taken rest) :
    ∃ c cs, taken ++ rest = c :: cs ∧ isDelimiter c = false := by
  cases h with
  | character hdelim _ _ _ _ => exact ⟨_, _, rfl, hdelim⟩
  | sign => exact ⟨_, _, rfl, by decide⟩
  | digit _ => exact ⟨_, _, rfl, by decide⟩
  | @range negative digits rest hne hdigits _ _ =>
    obtain ⟨c, cs, htext, hc⟩ := signedText_head negative hne hdigits
    exact ⟨c, cs ++ rest, by rw [htext, List.cons_append], hc⟩
  | @word c cs rest hc _ _ _ =>
    refine ⟨c, cs ++ rest, rfl, ?_⟩
    by_contra hdelim
    have hword := isWordChar_of_isDelimiter (Bool.not_eq_false _ ▸ hdelim)
    rw [isWordChar_of_isWordStart hc] at hword
    cases hword
  | escape _ _ => exact ⟨_, _, rfl, by decide⟩
  | openString _ _ => exact ⟨_, _, rfl, by decide⟩
  | lineFeed _ => exact ⟨_, _, rfl, by decide⟩
  | @delimiter l text rest c hwritten _ _ =>
    obtain ⟨d, ds, htext, hd⟩ := hwritten.head
    exact ⟨d, ds ++ c :: rest, by rw [htext, List.cons_append], hd⟩

/-- What does not begin a piece of a string: the end, a quote, a line feed, or a backslash in
front of the end or of no letter of an escape. -/
theorem Text.Piece.next?_eq_none {cs : List Char} (h : next? cs = none) :
    cs = [] ∨ (∃ rest, cs = '"' :: rest) ∨ (∃ rest, cs = '\n' :: rest) ∨ cs = ['\\'] ∨
      ∃ c rest, cs = '\\' :: c :: rest ∧ Escape.ofLetter? c = none := by
  cases cs with
  | nil => exact .inl rfl
  | cons c rest =>
    have hplain : isPlain c = false := by
      by_contra hc
      rw [Bool.not_eq_false] at hc
      simp [next?, hc] at h
    have hcases : c = '"' ∨ c = '\\' ∨ c = '\n' := by
      by_contra hc
      simp only [not_or] at hc
      simp [isPlain, hc] at hplain
    obtain rfl | rfl | rfl := hcases
    · exact .inr (.inl ⟨rest, rfl⟩)
    · cases rest with
      | nil => exact .inr (.inr (.inr (.inl rfl)))
      | cons d rest =>
        refine .inr (.inr (.inr (.inr ⟨d, rest, rfl, ?_⟩)))
        simpa [next?, hplain] using h
    · exact .inr (.inr (.inl ⟨rest, rfl⟩))

theorem Text.Piece.next?_backslash {c : Char} (h : Escape.ofLetter? c = none) (rest : List Char) :
    next? ('\\' :: c :: rest) = none := by
  simp [next?, h, isPlain]

namespace Scan

/-! ## What a scan complains about -/

theorem about_word {c : Char} {cs : List Char} {e : Complaint} (hc : isWordStart c = true)
    (h : (word (c :: cs)).answer = .error e) :
    e.About (word (c :: cs)).taken (word (c :: cs)).rest := by
  have hrun : (c :: cs).takeWhile isWordChar = c :: cs.takeWhile isWordChar :=
    List.takeWhile_cons_of_pos (isWordChar_of_isWordStart hc)
  have hchars : ∀ d ∈ cs.takeWhile isWordChar, isWordChar d = true :=
    List.all_eq_true.mp List.all_takeWhile
  simp only [word, hrun] at h ⊢
  split at h
  · cases h
  · next hkeyword =>
    obtain rfl := Except.error.inj h
    exact .word hc hchars (head_dropWhile (c :: cs)) hkeyword

theorem about_integer {negative : Bool} {c : Char} {cs : List Char} {e : Complaint}
    (hc : c.isDigit = true) (h : (integer negative (c :: cs)).answer = .error e) :
    e.About (integer negative (c :: cs)).taken (integer negative (c :: cs)).rest := by
  have hne : (c :: cs).takeWhile Char.isDigit ≠ [] := by simp [hc]
  have hdigits : ∀ d ∈ (c :: cs).takeWhile Char.isDigit, d.isDigit = true :=
    List.all_eq_true.mp List.all_takeWhile
  simp only [integer] at h
  split at h
  · cases h
  · next hrange =>
    obtain rfl := Except.error.inj h
    refine .range hne hdigits (head_dropWhile (c :: cs)) ?_
    intro n hn
    rw [integer?_eq_some_iff.mpr hn] at hrange
    cases hrange

theorem about_negative {cs : List Char} {e : Complaint} (h : (negative cs).answer = .error e) :
    e.About (negative cs).taken (negative cs).rest := by
  cases cs with
  | nil =>
    obtain rfl := Except.error.inj h
    exact .sign
  | cons c rest =>
    rw [negative] at h ⊢
    split_ifs at h ⊢ with hc
    · exact about_integer hc h
    · obtain rfl := Except.error.inj h
      exact .digit (Bool.not_eq_true _ ▸ hc)

theorem about_string {cs : List Char} {e : Complaint} (h : (string cs).answer = .error e) :
    e.About (string cs).taken (string cs).rest := by
  have hvalid : ∀ p ∈ (Piece.split cs).1, p.Valid := fun p hp => Piece.valid_of_mem_split hp
  have hnext : Piece.next? (Piece.split cs).2 = none := Piece.next?_split cs
  unfold string at h ⊢
  generalize Piece.split cs = parts at h hvalid hnext ⊢
  obtain ⟨pieces, rest⟩ := parts
  obtain rfl | ⟨rest, rfl⟩ | ⟨rest, rfl⟩ | rfl | ⟨c, rest, rfl, hc⟩ := Piece.next?_eq_none hnext
  · obtain rfl := Except.error.inj h
    simpa using Complaint.About.openString hvalid (.inl rfl)
  · cases h
  · obtain rfl := Except.error.inj h
    exact .lineFeed hvalid
  · obtain rfl := Except.error.inj h
    exact .openString hvalid (.inr rfl)
  · obtain rfl := Except.error.inj h
    exact .escape hvalid hc

theorem about_literal {cs : List Char} {e : Complaint}
    (hcs : ∀ c ∈ cs.head?, isDelimiter c = false) (h : (literal cs).answer = .error e) :
    e.About (literal cs).taken (literal cs).rest := by
  cases cs with
  | nil => cases h
  | cons c rest =>
    obtain ⟨hc, hscan⟩ | ⟨-, hscan⟩ | ⟨-, hscan⟩ | ⟨hc, hscan⟩ | ⟨⟨hw, hq, hm, hd⟩, hscan⟩ :=
      literal_cases c rest
    · rw [hscan] at h ⊢
      exact about_word hc h
    · rw [hscan] at h ⊢
      exact about_string h
    · rw [hscan] at h ⊢
      exact about_negative h
    · rw [hscan] at h ⊢
      exact about_integer hc h
    · rw [hscan] at h ⊢
      obtain rfl := Except.error.inj h
      exact .character (hcs c rfl) hw hq hm hd

/-! ## What a literal stops at -/

theorem endsBefore_word {cs : List Char} {l : Literal} (h : (word cs).answer = .ok (some l)) :
    ∀ c ∈ (word cs).rest.head?, l.EndsBefore c := by
  intro c hc
  have hend : isWordChar c = false := head_dropWhile cs c hc
  simp only [word] at h
  split at h
  · next l' hl' =>
    obtain rfl : l' = l := Option.some.inj (Except.ok.inj h)
    unfold Literal.ofKeyword? at hl'
    split_ifs at hl'
    · obtain rfl := Option.some.inj hl'
      exact hend
    · obtain rfl := Option.some.inj hl'
      exact hend
    · obtain rfl := Option.some.inj hl'
      exact hend
  · cases h

theorem endsBefore_integer {negative : Bool} {cs : List Char} {l : Literal}
    (h : (integer negative cs).answer = .ok (some l)) :
    ∀ c ∈ (integer negative cs).rest.head?, l.EndsBefore c := by
  intro c hc
  have hend : c.isDigit = false := head_dropWhile cs c hc
  simp only [integer] at h
  split at h
  · obtain rfl := Option.some.inj (Except.ok.inj h)
    exact hend
  · cases h

theorem endsBefore_string {cs : List Char} {l : Literal} (h : (string cs).answer = .ok (some l)) :
    ∀ c ∈ (string cs).rest.head?, l.EndsBefore c := by
  intro c _
  unfold string at h
  dsimp only at h
  split at h
  · obtain rfl := Option.some.inj (Except.ok.inj h)
    trivial
  · cases h
  · cases h
  · cases h

/-- A literal that was read does not go on. -/
theorem endsBefore_literal {cs : List Char} {l : Literal}
    (h : (literal cs).answer = .ok (some l)) :
    ∀ c ∈ (literal cs).rest.head?, l.EndsBefore c := by
  cases cs with
  | nil => cases h
  | cons c rest =>
    obtain ⟨-, hscan⟩ | ⟨-, hscan⟩ | ⟨-, hscan⟩ | ⟨-, hscan⟩ | ⟨-, hscan⟩ := literal_cases c rest
    · rw [hscan] at h ⊢
      exact endsBefore_word h
    · rw [hscan] at h ⊢
      exact endsBefore_string h
    · rw [hscan] at h ⊢
      cases rest with
      | nil => cases h
      | cons d rest =>
        rw [negative] at h ⊢
        split_ifs at h ⊢
        exact endsBefore_integer h
    · rw [hscan] at h ⊢
      exact endsBefore_integer h
    · rw [hscan] at h
      cases h

/-- What a scan complains about is malformed in the way that the complaint says. -/
theorem about_of_ofText {cs : List Char} {e : Complaint}
    (hcs : ∀ c ∈ cs.head?, isDelimiter c = false) (h : (ofText cs).answer = .error e) :
    e.About (ofText cs).taken (ofText cs).rest := by
  rw [ofText, taken_delimited, rest_delimited]
  cases hanswer : (literal cs).answer with
  | error e' =>
    simp only [ofText, delimited, hanswer] at h
    obtain rfl := Except.error.inj h
    exact about_literal hcs hanswer
  | ok answer =>
    cases answer with
    | none =>
      simp only [ofText, delimited, hanswer] at h
      cases h
    | some l =>
      -- A literal was read, so the complaint can only be about the character behind it.
      have hne : cs ≠ [] := by
        rintro rfl
        cases hanswer
      have hwritten : l.Written (literal cs).taken := by
        obtain ⟨c, rest, rfl⟩ := List.exists_cons_of_ne_nil hne
        obtain ⟨l', hl', hwritten⟩ | ⟨e', he'⟩ := decided_literal c rest
        · obtain rfl : l' = l := Option.some.inj (Except.ok.inj (hl'.symm.trans hanswer))
          exact hwritten
        · cases he'.symm.trans hanswer
      have hends := endsBefore_literal hanswer
      cases hrest : (literal cs).rest with
      | nil =>
        simp only [ofText, delimited, hanswer, hrest] at h
        cases h
      | cons c rest =>
        simp only [ofText, delimited, hanswer, hrest] at h
        split_ifs at h with hc
        · cases hanswer.symm.trans h
        · obtain rfl := Except.error.inj h
          exact .delimiter hwritten (hends c (by simp [hrest])) (Bool.not_eq_true _ ▸ hc)

/-! ## What is malformed is complained about -/

theorem integer_of_range {negative : Bool} {digits rest : List Char}
    (hdigits : ∀ c ∈ digits, c.isDigit = true) (hrest : ∀ c ∈ rest.head?, c.isDigit = false)
    (hrange : ∀ n : Int32, n.toInt ≠ signedValue negative digits) :
    integer negative (digits ++ rest) =
      ⟨.error ⟨.integerOutOfRange (String.ofList (signedText negative digits)), [], ["integer"]⟩,
        signedText negative digits, rest⟩ := by
  obtain ⟨htake, hdrop⟩ := run_append hdigits hrest
  have hnone : integer? negative digits = none := by
    rw [Option.eq_none_iff_forall_ne_some]
    intro n hn
    exact hrange n (integer?_eq_some_iff.mp hn)
  simp only [integer, htake, hdrop, hnone]
  rfl

theorem literal_quote (cs : List Char) : literal ('"' :: cs) = string cs := rfl

/-- A malformed text gets its complaint, if its first character lets a literal begin at all. -/
theorem ofText_of_about {e : Complaint} {taken rest : List Char} (h : e.About taken rest) :
    ofText (taken ++ rest) = ⟨.error e, taken, rest⟩ := by
  cases h with
  | @character c rest _ hw hq hm hd =>
    simp [ofText, literal, delimited, hw, hq, hm, hd]
  | sign => rfl
  | @digit c rest hc =>
    have hscan : literal ('-' :: c :: rest) = negative (c :: rest) := rfl
    rw [ofText, List.singleton_append, hscan, negative, if_neg (by simp [hc])]
    rfl
  | @range negative digits rest hne hdigits hrest hrange =>
    rw [ofText, literal_signedText hne hdigits, integer_of_range hdigits hrest hrange]
    rfl
  | @word c cs rest hc hcs hrest hkeyword =>
    have hchars : ∀ d ∈ c :: cs, isWordChar d = true :=
      List.forall_mem_cons.mpr ⟨isWordChar_of_isWordStart hc, hcs⟩
    obtain ⟨htake, hdrop⟩ := run_append hchars hrest
    have hscan : literal (c :: cs ++ rest) = word (c :: cs ++ rest) := if_pos hc
    rw [ofText, hscan]
    simp only [word, htake, hdrop, hkeyword]
    rfl
  | @escape pieces c rest hvalid hc =>
    have hnext : Piece.next? (['\\', c] ++ rest) = none := Piece.next?_backslash hc rest
    rw [ofText, List.cons_append, List.append_assoc, literal_quote]
    simp only [string, Piece.split_append hvalid hnext]
    rfl
  | @openString pieces cut hvalid hcut =>
    have hnext : Piece.next? cut = none := by
      obtain rfl | rfl := hcut
      · rfl
      · rfl
    rw [ofText, List.append_nil, literal_quote]
    simp only [string, Piece.split_append hvalid hnext]
    obtain rfl | rfl := hcut
    · simp only [List.append_nil]
      rfl
    · rfl
  | @lineFeed pieces rest hvalid =>
    have hnext : Piece.next? (['\n'] ++ rest) = none := rfl
    rw [ofText, List.cons_append, List.append_assoc, literal_quote]
    simp only [string, Piece.split_append hvalid hnext]
    rfl
  | @delimiter l text rest c hwritten hends hc =>
    have hhead : ∀ d ∈ (c :: rest).head?, l.EndsBefore d := by
      intro d hd
      obtain rfl : c = d := Option.some.inj hd
      exact hends
    rw [ofText, literal_of_written hwritten hhead]
    simp only [delimited, hc]
    rfl

end Scan

end LiteralPool
