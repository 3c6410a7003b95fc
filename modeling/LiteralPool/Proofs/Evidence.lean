import LiteralPool.Proofs.Places

/-!
# Faults point at their evidence

`Cause.Evidence cause before rest` says, for each cause of a fault, what is to be seen at a place of
a text that has `before` in front of it and `rest` from there on.

**Theorem (`faults_point_at_evidence`).** Read a source step by step, also behind faults. The
diagnostic of every fault has a position, that of a place inside the text, and at this place
stands the evidence for its cause.

A malformed text holds the evidence behind the lead that its complaint names (`About.evidence`):
one case for each way in which a literal can be malformed. That the evidence lies inside the text,
so that the place has a position, comes out of each case too.
-/

namespace LiteralPool

open Text

namespace Text

/-- Is there a quote that no backslash escapes? A backslash escapes the character behind it. -/
def hasBareQuote : List Char → Bool
  | [] => false
  | '\\' :: _ :: cs => hasBareQuote cs
  | c :: cs => c == '"' || hasBareQuote cs

/-- Valid pieces hold no bare quote. -/
theorem hasBareQuote_append {pieces : List Piece} (h : ∀ p ∈ pieces, p.Valid) (cs : List Char) :
    hasBareQuote (pieces.flatMap Piece.written ++ cs) = hasBareQuote cs := by
  induction pieces with
  | nil => rfl
  | cons p pieces ih =>
    have hpieces := ih fun q hq => h q (List.mem_cons_of_mem p hq)
    rw [List.flatMap_cons, List.append_assoc, ← hpieces]
    cases p with
    | escape e => rfl
    | plain c =>
      have hc : isPlain c = true := h (.plain c) (by simp)
      obtain ⟨hquote, hback, -⟩ := isPlain_iff.mp hc
      show hasBareQuote (c :: (pieces.flatMap Piece.written ++ cs)) = _
      rw [hasBareQuote]
      · simp [hquote]
      · intro _ _ heq
        exact absurd heq hback

end Text

/-- What is to be seen at a place with `before` in front of it and `rest` from there on. -/
inductive Cause.Evidence : Cause → (before rest : List Char) → Prop
  /-- A minus sign that ends the text. -/
  | lastSign {before : List Char} : Evidence (.unexpectedChar '-') before ['-']
  /-- A character that neither begins a literal nor stands between literals. -/
  | noLiteral {before after : List Char} {c : Char} :
      isBlank c = false → c ≠ '#' → c.isAlpha = false → c ≠ '_' → c ≠ '"' → c ≠ '-' →
      c.isDigit = false → Evidence (.unexpectedChar c) before (c :: after)
  /-- A character behind a minus sign that is no digit. -/
  | noDigit {before after : List Char} {c : Char} :
      c.isDigit = false → Evidence (.expectedDigit c) (before ++ ['-']) (c :: after)
  /-- A character behind a whole literal that is neither white space nor a number sign. -/
  | noDelimiter {before text after : List Char} {l : Literal} {c : Char} :
      l.Written text → isBlank c = false → c ≠ '#' →
      Evidence (.expectedDelimiter c) (before ++ text) (c :: after)
  /-- A backslash in front of a character that makes no escape. -/
  | noEscape {before after : List Char} {c : Char} :
      c ≠ 'n' → c ≠ 't' → c ≠ '"' → c ≠ '\\' →
      Evidence (.unknownEscape c) before ('\\' :: c :: after)
  /-- A quote with no bare quote behind it in its line. -/
  | noClosingQuote {before after : List Char} :
      hasBareQuote (firstLine after) = false → Evidence .unterminatedString before ('"' :: after)
  /-- An integer with all its digits, which is no signed 32-bit number. -/
  | noInteger {before digits after : List Char} {negative : Bool} :
      digits ≠ [] → (∀ c ∈ digits, c.isDigit = true) → (∀ c ∈ after.head?, c.isDigit = false) →
      (∀ n : Int32, n.toInt ≠ signedValue negative digits) →
      Evidence (.integerOutOfRange (String.ofList (signedText negative digits))) before
        (signedText negative digits ++ after)
  /-- A whole word that is no keyword. -/
  | noKeyword {before cs after : List Char} {c : Char} :
      isWordStart c = true → (∀ d ∈ cs, isWordChar d = true) →
      (∀ d ∈ after.head?, isWordChar d = false) →
      String.ofList (c :: cs) ∉ ["True", "False", "None"] →
      Evidence (.unknownKeyword (String.ofList (c :: cs))) before (c :: cs ++ after)

theorem isBlank_of_isDelimiter_eq_false {c : Char} (h : isDelimiter c = false) :
    isBlank c = false ∧ c ≠ '#' := by
  simpa [isDelimiter, isCommentStart] using h

/-- A malformed text holds the evidence behind the lead of its complaint. -/
theorem Complaint.About.evidence {e : Complaint} {taken rest : List Char}
    (h : e.About taken rest) (before : List Char) :
    ∃ evidence, taken ++ rest = e.lead ++ evidence ∧ evidence ≠ [] ∧
      e.cause.Evidence (before ++ e.lead) evidence := by
  cases h with
  | @character c rest hdelim hw hq hm hd =>
    obtain ⟨hblank, hsharp⟩ := isBlank_of_isDelimiter_eq_false hdelim
    obtain ⟨halpha, hline⟩ : c.isAlpha = false ∧ c ≠ '_' := by simpa [isWordStart] using hw
    exact ⟨c :: rest, rfl, by simp, .noLiteral hblank hsharp halpha hline hq hm hd⟩
  | sign => exact ⟨['-'], rfl, by simp, .lastSign⟩
  | @digit c rest hc => exact ⟨c :: rest, rfl, by simp, .noDigit hc⟩
  | @range negative digits rest hne hdigits hrest hrange =>
    refine ⟨signedText negative digits ++ rest, rfl, ?_, .noInteger hne hdigits hrest hrange⟩
    cases negative <;> simp [signedText, hne]
  | @word c cs rest hc hcs hrest hkeyword =>
    refine ⟨c :: cs ++ rest, rfl, by simp, .noKeyword hc hcs hrest ?_⟩
    intro hmem
    unfold Literal.ofKeyword? at hkeyword
    split_ifs at hkeyword with htrue hfalse hnone
    simp only [List.mem_cons, List.not_mem_nil, or_false] at hmem
    obtain h | h | h := hmem
    · exact htrue h
    · exact hfalse h
    · exact hnone h
  | @escape pieces c rest hvalid hc =>
    refine ⟨'\\' :: c :: rest, by simp, by simp, ?_⟩
    have hletters : c ≠ 'n' ∧ c ≠ 't' ∧ c ≠ '"' ∧ c ≠ '\\' := by
      refine ⟨?_, ?_, ?_, ?_⟩ <;> rintro rfl <;> cases hc
    exact .noEscape hletters.1 hletters.2.1 hletters.2.2.1 hletters.2.2.2
  | @openString pieces cut hvalid hcut =>
    refine ⟨'"' :: (pieces.flatMap Piece.written ++ cut), by simp, by simp, .noClosingQuote ?_⟩
    rw [firstLine_append (Piece.lineFeed_notMem_flatMap_written hvalid), hasBareQuote_append hvalid]
    obtain rfl | rfl := hcut
    · rfl
    · rfl
  | @lineFeed pieces rest hvalid =>
    refine ⟨'"' :: (pieces.flatMap Piece.written ++ '\n' :: rest), by simp, by simp,
      .noClosingQuote ?_⟩
    rw [firstLine_append (Piece.lineFeed_notMem_flatMap_written hvalid), hasBareQuote_append hvalid]
    rfl
  | @delimiter l text rest c hwritten _ hc =>
    obtain ⟨hblank, hsharp⟩ := isBlank_of_isDelimiter_eq_false hc
    exact ⟨c :: rest, rfl, by simp, .noDelimiter hwritten hblank hsharp⟩

/-- A step that fails at a place of a text points at a place of the text, with the evidence for its
fault. -/
theorem Cursor.StandsIn.evidence {c : Cursor} {cs : List Char} {f : Fault} (hc : c.StandsIn cs)
    (h : c.step.answer = .error f) :
    ∃ before rest, cs = before ++ rest ∧ rest ≠ [] ∧ f.offset = utf8Length before ∧
      f.cause.Evidence before rest := by
  obtain ⟨front, rfl, hoffset⟩ := hc
  obtain ⟨lead, taken, rest, e, hrest, -, habout, rfl⟩ := exists_about_of_step h
  obtain ⟨evidence, hevidence, hne, hcause⟩ := habout.evidence (front ++ lead)
  refine ⟨front ++ lead ++ e.lead, evidence, ?_, hne, ?_, hcause⟩
  · rw [hrest, hevidence]
    simp
  · rw [hoffset, utf8Length_append, utf8Length_append]

/-- **Every fault points at its evidence.** Whatever a source holds, and however many faults came
before: the offset of a fault is that of a place inside the text, its diagnostic has the position
of this place, and the evidence for its cause stands there. -/
theorem faults_point_at_evidence (s : Source) (n : Nat) (f : Fault)
    (h : .error f ∈ s.start.answers n) :
    ∃ before rest, s.text.toList = before ++ rest ∧ f.offset = utf8Length before ∧
      f.offset < s.text.utf8ByteSize ∧ (s.diagnose f).cause = f.cause ∧
      (s.diagnose f).position? = some ⟨before.count '\n', (lastLine before).length⟩ ∧
      f.cause.Evidence before rest := by
  obtain ⟨c, hc, hanswer⟩ := Cursor.mem_answers (Cursor.standsIn_start s) h
  obtain ⟨before, rest, hs, hne, hoffset, hcause⟩ := hc.evidence hanswer
  have hinside : utf8Length before < s.text.utf8ByteSize := by
    have hsize := utf8ByteSize_ofList_eq s.text.toList
    obtain ⟨d, ds, rfl⟩ := List.exists_cons_of_ne_nil hne
    have hd := d.utf8Size_pos
    rw [String.ofList_toList, hs, utf8Length_append, utf8Length_cons] at hsize
    omega
  refine ⟨before, rest, hs, hoffset, hoffset ▸ hinside, ?_, ?_, hcause⟩
  · rw [Source.diagnose_eq]
  · exact Source.position?_diagnose hs (by simp [hne]) hoffset

/-- A minus sign that ends the text, behind a word that is no keyword. -/
theorem lone_sign_points_at_itself :
    .error ⟨.unexpectedChar '-', 3, ["integer"]⟩ ∈ (Source.start ⟨none, "x\n -"⟩).answers 2 ∧
      ∃ before rest, "x\n -".toList = before ++ rest ∧ 3 = utf8Length before ∧
        3 < "x\n -".utf8ByteSize ∧
        (Source.diagnose ⟨none, "x\n -"⟩ ⟨.unexpectedChar '-', 3, ["integer"]⟩).cause =
          .unexpectedChar '-' ∧
        (Source.diagnose ⟨none, "x\n -"⟩ ⟨.unexpectedChar '-', 3, ["integer"]⟩).position? =
          some ⟨before.count '\n', (lastLine before).length⟩ ∧
        Cause.Evidence (.unexpectedChar '-') before rest := by
  have hmem : .error ⟨.unexpectedChar '-', 3, ["integer"]⟩ ∈
      (Source.start ⟨none, "x\n -"⟩).answers 2 := .tail _ (.head _)
  exact ⟨hmem, faults_point_at_evidence ⟨none, "x\n -"⟩ 2 _ hmem⟩

end LiteralPool
