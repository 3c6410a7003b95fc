import LiteralPool.Proofs.Settling

/-!
# Spans of tokens

A span cuts its text out of a source only if both its ends are boundaries between characters of the
source (`Source.slice?`). So a span says what is found at it (`slice?_eq_some_iff`).

**Theorem (`spans_are_sound`).** However many faults came before: a token has the text at its span,
is followed by a delimiter or the end, is all that its own text reads as, and lies behind the
tokens found before it. What a step takes can be cut out of the source, also when it fails. And in
front of the first fault there are only the tokens that were found, with trivia between them.

One token is an entry of the text at its place (`StandsIn.exists_entry`); along a run offsets only
grow (`offset_le_next`, `le_offset_of_mem_tokens`).
-/

namespace LiteralPool

open Text

/-! ## Slices -/

namespace Text

/-- The first `bytes` bytes of a text and what follows them, if these bytes end between two
characters. -/
def cutAt? : Nat → List Char → Option (List Char × List Char)
  | 0, cs => some ([], cs)
  | _ + 1, [] => none
  | bytes + 1, c :: cs =>
    if c.utf8Size ≤ bytes + 1 then
      (cutAt? (bytes + 1 - c.utf8Size) cs).map fun parts => (c :: parts.1, parts.2)
    else none

theorem cutAt?_append (cs rest : List Char) :
    cutAt? (utf8Length cs) (cs ++ rest) = some (cs, rest) := by
  induction cs with
  | nil =>
    rw [utf8Length_nil, cutAt?]
    rfl
  | cons c cs ih =>
    -- The number of bytes is written as a successor, so that the cut goes past the character.
    obtain ⟨size, hsize, hlength⟩ := exists_utf8Length_cons c cs
    have hleft : (size + utf8Length cs) + 1 - c.utf8Size = utf8Length cs := by omega
    rw [hlength, List.cons_append, cutAt?, if_pos (by omega), hleft, ih]
    rfl

theorem append_of_cutAt? {bytes : Nat} {cs front rest : List Char}
    (h : cutAt? bytes cs = some (front, rest)) : front ++ rest = cs ∧ utf8Length front = bytes := by
  induction cs generalizing bytes front with
  | nil =>
    cases bytes with
    | zero =>
      cases h
      exact ⟨rfl, rfl⟩
    | succ bytes => cases h
  | cons c cs ih =>
    cases bytes with
    | zero =>
      cases h
      exact ⟨rfl, rfl⟩
    | succ bytes =>
      rw [cutAt?] at h
      split_ifs at h with hfits
      obtain ⟨⟨front, rest⟩, hparts, heq⟩ := Option.map_eq_some_iff.mp h
      cases heq
      obtain ⟨happend, hlength⟩ := ih hparts
      refine ⟨congrArg (c :: ·) happend, ?_⟩
      rw [utf8Length_cons, hlength]
      omega

end Text

/-- The text at a span, if both its ends are boundaries between characters of the source. -/
def Source.slice? (s : Source) (span : Span) : Option String := do
  let (_, behind) ← cutAt? span.offset s.text.toList
  let (text, _) ← cutAt? span.length behind
  return String.ofList text

theorem Source.slice?_eq_some_iff {s : Source} {span : Span} {text : String} :
    s.slice? span = some text ↔
      ∃ before rest, s.text.toList = before ++ (text.toList ++ rest) ∧
        span = ⟨utf8Length before, utf8Length text.toList⟩ := by
  constructor
  · intro h
    obtain ⟨⟨before, behind⟩, hbefore, h⟩ := Option.bind_eq_some_iff.mp h
    obtain ⟨⟨cs, rest⟩, hcs, h⟩ := Option.bind_eq_some_iff.mp h
    obtain rfl : String.ofList cs = text := Option.some.inj h
    obtain ⟨hsource, hoffset⟩ := append_of_cutAt? hbefore
    obtain ⟨hbehind, hlength⟩ := append_of_cutAt? hcs
    refine ⟨before, rest, ?_, ?_⟩
    · rw [String.toList_ofList, hbehind, hsource]
    · rw [String.toList_ofList, hoffset, hlength]
  · rintro ⟨before, rest, hs, rfl⟩
    rw [slice?, hs, cutAt?_append]
    show (cutAt? (utf8Length text.toList) (text.toList ++ rest)).bind _ = _
    rw [cutAt?_append]
    exact congrArg some String.ofList_toList

/-- A span that ends inside a character cuts nothing out. -/
example : (Source.mk none "é1").slice? ⟨0, 1⟩ = none ∧
    (Source.mk none "é1").slice? ⟨2, 1⟩ = some "1" := by
  decide

/-! ## One token -/

theorem Entry.utf8Length_text_pos (e : Entry) : 0 < utf8Length e.text := by
  obtain ⟨d, ds, htext, -⟩ := e.written.head
  rw [htext]
  exact utf8Length_pos (List.cons_ne_nil d ds)

/-- A written literal alone reads as one token. -/
theorem Entry.read_alone (e : Entry) (file : Option String) :
    (Source.mk file (String.ofList e.text)).read.tokens =
        [⟨e.literal, ⟨0, utf8Length e.text⟩, String.ofList e.text⟩] ∧
      (Source.mk file (String.ofList e.text)).read.fault = none := by
  let layout : Layout := ⟨[⟨[], e.text, e.literal, .nil, e.written⟩], [], by simp, .nil⟩
  have htext : (Source.mk file (String.ofList e.text)).start.rest = layout.text := by
    show (String.ofList e.text).toList = _
    simp [layout, Layout.text, Entry.chars]
  obtain ⟨hfault, htokens⟩ := Cursor.read_of_layout layout htext
  exact ⟨htokens, hfault⟩

namespace Cursor

variable {s : Source} {c : Cursor}

/-- The bytes that a step takes behind the trivia. -/
def takenSpan (c : Cursor) : Span :=
  ⟨c.skipTrivia.offset, c.step.next.offset - c.skipTrivia.offset⟩

/-- What a step takes can be cut out of the source, whatever comes of the step. -/
theorem StandsIn.slice?_takenSpan (h : c.StandsIn s.text.toList) :
    s.slice? c.takenSpan = some (String.ofList (Scan.ofText c.skipTrivia.rest).taken) := by
  obtain ⟨before, hs, hoffset⟩ := h
  obtain ⟨lead, hrest, hskip, -⟩ := c.skipTrivia_spec
  have htaken := Scan.taken_append_rest c.skipTrivia.rest
  refine Source.slice?_eq_some_iff.mpr
    ⟨before ++ lead, (Scan.ofText c.skipTrivia.rest).rest, ?_, ?_⟩
  · rw [String.toList_ofList, htaken, List.append_assoc, ← hrest]
    exact hs
  · rw [takenSpan, next_eq, String.toList_ofList, utf8Length_append, hskip, hoffset,
      Nat.add_sub_cancel_left]

/-- A token is an entry of the text at a place in front of a delimiter or the end. -/
theorem StandsIn.exists_entry {cs : List Char} {t : Token} (hc : c.StandsIn cs)
    (h : c.step.answer = .ok (some t)) :
    ∃ (e : Entry) (before rest : List Char), cs = before ++ (e.text ++ rest) ∧ Delimited rest ∧
      t = ⟨e.literal, ⟨utf8Length before, utf8Length e.text⟩, String.ofList e.text⟩ := by
  obtain ⟨front, rfl, hoffset⟩ := hc
  obtain ⟨e, hrest, hdelim, rfl⟩ := exists_entry_eq_of_step h
  refine ⟨e, front ++ e.lead, c.step.next.rest, ?_, hdelim, ?_⟩
  · rw [hrest, Entry.chars]
    simp
  · rw [Entry.token, hoffset, utf8Length_append]

/-! ## The tokens of a run -/

/-- The tokens that `n` steps yield. -/
def tokens (c : Cursor) (n : Nat) : List Token :=
  (c.answers n).filterMap fun
    | .ok found => found
    | .error _ => none

theorem mem_tokens {t : Token} {n : Nat} : t ∈ c.tokens n ↔ .ok (some t) ∈ c.answers n := by
  rw [tokens, List.mem_filterMap]
  constructor
  · rintro ⟨answer, hanswer, ht⟩
    match answer with
    | .ok found =>
      obtain rfl : found = some t := ht
      exact hanswer
    | .error f => cases ht
  · intro h
    exact ⟨_, h, rfl⟩

/-- The first of several steps yields a token, or it yields none. -/
theorem tokens_succ (c : Cursor) (n : Nat) :
    c.tokens (n + 1) = c.step.next.tokens n ∨
      ∃ t, c.step.answer = .ok (some t) ∧ c.tokens (n + 1) = t :: c.step.next.tokens n := by
  match h : c.step.answer with
  | .ok (some t) =>
    refine .inr ⟨t, rfl, ?_⟩
    rw [tokens, answers, h]
    rfl
  | .ok none =>
    refine .inl ?_
    rw [tokens, answers, h]
    rfl
  | .error f =>
    refine .inl ?_
    rw [tokens, answers, h]
    rfl

theorem offset_le_next (c : Cursor) : c.offset ≤ c.step.next.offset := by
  obtain ⟨lead, -, hskip, -⟩ := c.skipTrivia_spec
  rw [next_eq, hskip, Nat.add_assoc]
  exact Nat.le_add_right _ _

/-- A token begins where the cursor stands or later, and the next step begins where it ends. -/
theorem span_of_token {t : Token} (h : c.step.answer = .ok (some t)) :
    c.offset ≤ t.span.offset ∧ t.span.offset < t.span.stop ∧
      t.span.stop = c.step.next.offset := by
  obtain ⟨e, hrest, hdelim, rfl⟩ := exists_entry_eq_of_step h
  refine ⟨Nat.le_add_right _ _, Nat.lt_add_of_pos_right e.utf8Length_text_pos, ?_⟩
  rw [step_entry hrest hdelim, Entry.chars, utf8Length_append, ← Nat.add_assoc]
  rfl

theorem le_offset_of_mem_tokens {t : Token} {n : Nat} (h : t ∈ c.tokens n) :
    c.offset ≤ t.span.offset := by
  induction n generalizing c with
  | zero => cases h
  | succ n ih =>
    obtain heq | ⟨t', hanswer, heq⟩ := c.tokens_succ n
    · rw [heq] at h
      exact c.offset_le_next.trans (ih h)
    · rw [heq] at h
      rcases List.mem_cons.mp h with rfl | h
      · exact (span_of_token hanswer).1
      · exact c.offset_le_next.trans (ih h)

/-- Every token begins and ends before the next one begins. -/
theorem pairwise_tokens (c : Cursor) (n : Nat) :
    (c.tokens n).Pairwise fun t t' =>
      t.span.offset < t'.span.offset ∧ t.span.stop ≤ t'.span.offset := by
  induction n generalizing c with
  | zero => exact .nil
  | succ n ih =>
    obtain heq | ⟨t, hanswer, heq⟩ := c.tokens_succ n
    · rw [heq]
      exact ih _
    · rw [heq]
      obtain ⟨-, hlt, hstop⟩ := span_of_token hanswer
      refine .cons (fun t' ht' => ?_) (ih _)
      have hle : t.span.stop ≤ t'.span.offset := hstop ▸ le_offset_of_mem_tokens ht'
      exact ⟨hlt.trans_le hle, hle⟩

/-! ## In front of the first fault -/

/-- In front of a fault that ends a reading there are entries, whose tokens were found, and trivia. -/
theorem exists_entries_of_fault {f : Fault} (h : c.read.fault = some f) :
    ∃ (es : List Entry) (lead taken rest : List Char) (e : Complaint),
      c.rest = es.flatMap Entry.chars ++ (lead ++ (taken ++ rest)) ∧
      c.read.tokens = Entry.tokens c.offset es ∧ Trivia false lead ∧ e.About taken rest ∧
      f = ⟨e.cause, c.offset + utf8Length (es.flatMap Entry.chars ++ lead ++ e.lead), e.notes⟩ := by
  induction c using stepwise with
  | token c t hanswer ih =>
    rw [read_of_token hanswer] at h ⊢
    obtain ⟨es, lead, taken, rest, e, hrest, htokens, hlead, habout, rfl⟩ := ih h
    obtain ⟨first, hfirst, hdelim, rfl⟩ := exists_entry_eq_of_step hanswer
    have hnext : c.step.next.offset = c.offset + utf8Length first.chars :=
      congrArg (fun step => step.next.offset) (step_entry hfirst hdelim)
    refine ⟨first :: es, lead, taken, rest, e, ?_, ?_, hlead, habout, ?_⟩
    · rw [hfirst, hrest, List.flatMap_cons, List.append_assoc]
    · show _ :: c.step.next.read.tokens = _
      rw [htokens, hnext]
      rfl
    · simp only [hnext, List.flatMap_cons, utf8Length_append, Nat.add_assoc]
  | done c hanswer =>
    rw [read_of_end hanswer] at h
    cases h
  | fault c g hanswer =>
    rw [read_of_fault hanswer] at h ⊢
    obtain rfl : g = f := Option.some.inj h
    obtain ⟨lead, taken, rest, e, hrest, hlead, habout, rfl⟩ := exists_about_of_step hanswer
    refine ⟨[], lead, taken, rest, e, hrest, rfl, hlead, habout, ?_⟩
    rw [List.flatMap_nil, List.nil_append, utf8Length_append, ← Nat.add_assoc]

end Cursor

/-- **Spans are sound, also behind faults.** Read any source with any number of steps. A token that
is found has a span that is not empty and lies inside the source, and its text is what is cut out
there; a delimiter or the end follows it; and its text alone reads as the one token of the same
literal, with a span that covers it. Every token begins and ends before the next one begins. What a
step takes can be cut out of the source, also if the step fails. And if a reading ends with a fault,
then what is in front of the malformed text is made of entries, whose tokens were found, and of
trivia. -/
theorem spans_are_sound (s : Source) (n : Nat) :
    (∀ t ∈ s.start.tokens n,
      0 < t.span.length ∧ t.span.stop ≤ s.text.utf8ByteSize ∧ s.slice? t.span = some t.text ∧
      (∃ before rest, s.text.toList = before ++ (t.text.toList ++ rest) ∧
        t.span.offset = utf8Length before ∧ Delimited rest) ∧
      ∀ file, (Source.mk file t.text).read.tokens =
          [⟨t.literal, ⟨0, t.span.length⟩, t.text⟩] ∧
        (Source.mk file t.text).read.fault = none) ∧
    ((s.start.tokens n).Pairwise fun t t' =>
      t.span.offset < t'.span.offset ∧ t.span.stop ≤ t'.span.offset) ∧
    (s.slice? (s.start.after n).takenSpan).isSome ∧
    ∀ f, s.read.fault = some f →
      ∃ (es : List Entry) (lead taken rest : List Char) (e : Complaint),
        s.text.toList = es.flatMap Entry.chars ++ (lead ++ (taken ++ rest)) ∧
        s.read.tokens = Entry.tokens 0 es ∧ Trivia false lead ∧ e.About taken rest ∧
        f = ⟨e.cause, utf8Length (es.flatMap Entry.chars ++ lead ++ e.lead), e.notes⟩ := by
  have hstart := Cursor.standsIn_start s
  refine ⟨fun t ht => ?_, s.start.pairwise_tokens n, ?_, fun f hf => ?_⟩
  · obtain ⟨c, hc, hanswer⟩ := Cursor.mem_answers hstart (Cursor.mem_tokens.mp ht)
    obtain ⟨e, before, rest, hs, hdelim, rfl⟩ := hc.exists_entry hanswer
    have hsize : s.text.utf8ByteSize = utf8Length before + (utf8Length e.text + utf8Length rest) := by
      rw [← utf8Length_append, ← utf8Length_append, ← hs, ← utf8ByteSize_ofList_eq,
        String.ofList_toList]
    refine ⟨e.utf8Length_text_pos, ?_, Source.slice?_eq_some_iff.mpr ⟨before, rest, ?_, ?_⟩,
      ⟨before, rest, ?_, rfl, hdelim⟩, e.read_alone⟩
    · show utf8Length before + utf8Length e.text ≤ s.text.utf8ByteSize
      omega
    · rw [String.toList_ofList]
      exact hs
    · rw [String.toList_ofList]
    · rw [String.toList_ofList]
      exact hs
  · rw [(hstart.after n).slice?_takenSpan]
    rfl
  · obtain ⟨es, lead, taken, rest, e, hrest, htokens, hlead, habout, rfl⟩ :=
      Cursor.exists_entries_of_fault (c := s.start) hf
    refine ⟨es, lead, taken, rest, e, hrest, htokens, hlead, habout, ?_⟩
    rw [Source.start, Nat.zero_add]

/-- Two tokens, with a word between them that is no keyword. -/
theorem spans_around_unknown_word :
    let s : Source := ⟨none, "1 x 2"⟩
    let two : Token := ⟨.value (.int 2), ⟨4, 1⟩, "2"⟩
    (two ∈ s.start.tokens 3 ∧ s.slice? ⟨4, 1⟩ = some "2" ∧
      (Source.mk none "2").read.tokens = [⟨.value (.int 2), ⟨0, 1⟩, "2"⟩]) ∧
    s.read.fault = some ⟨.unknownKeyword "x", 2, []⟩ ∧
    ∃ (es : List Entry) (lead taken rest : List Char) (e : Complaint),
      s.text.toList = es.flatMap Entry.chars ++ (lead ++ (taken ++ rest)) ∧
      s.read.tokens = Entry.tokens 0 es ∧ Trivia false lead ∧ e.About taken rest ∧
      ⟨.unknownKeyword "x", 2, []⟩ =
        Fault.mk e.cause (utf8Length (es.flatMap Entry.chars ++ lead ++ e.lead)) e.notes := by
  intro s two
  obtain ⟨htoken, -, -, hfault⟩ := spans_are_sound s 3
  have hanswers : (Source.start ⟨none, "1 x 2"⟩).answers 3 =
      [.ok (some ⟨.value (.int 1), ⟨0, 1⟩, "1"⟩), .error ⟨.unknownKeyword "x", 2, []⟩,
        .ok (some ⟨.value (.int 2), ⟨4, 1⟩, "2"⟩)] := rfl
  have htwo : two ∈ s.start.tokens 3 := by
    rw [Cursor.mem_tokens, hanswers]
    exact .tail _ (.tail _ (.head _))
  obtain ⟨-, -, hslice, -, halone⟩ := htoken two htwo
  have hread : s.read.fault = some ⟨.unknownKeyword "x", 2, []⟩ := by
    obtain ⟨hone, hbehind⟩ := List.cons.inj hanswers
    obtain ⟨hx, -⟩ := List.cons.inj hbehind
    rw [Source.read_eq, Cursor.read_of_token hone, Cursor.read_of_fault hx]
  exact ⟨⟨htwo, hslice, (halone none).1⟩, hread, hfault _ hread⟩

end LiteralPool
