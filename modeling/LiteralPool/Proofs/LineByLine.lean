import LiteralPool.Proofs.Evidence

/-!
# Reading line by line

No literal reaches beyond its line, and a comment ends with its line. So a source can be read one
line at a time, each line as a source of its own (`Source.alone`).

**Theorem (`literals_line_by_line`).** A source has literals exactly if each of its lines has, and
they are those of the lines, one line after the other. Otherwise the first line without literals
decides: its tokens are the last ones, and its fault is the fault of the source, in that line. The
fault is the same in the same column, but for two kinds of lines that a line feed makes look
different (`Remark.Carried`): those that end in a minus sign, and those that end in a backslash
inside a string.

The proof compares the steps of two cursors with the same text up to the end of the line, where
one text ends and the other goes on behind a line feed. A token of one is a token of the other
(`step_followed_of_token`), at the end of the line the second cursor goes on with the next line
(`step_followed_of_end`), and a fault of one is a fault of the other (`step_followed_of_fault`),
which takes one case for each way in which a literal can be malformed (`About.followed`).
-/

namespace LiteralPool

open Text

/-! ## Offsets only add up -/

/-- The token, in a text that begins `n` bytes further on. -/
def Token.shift (n : Nat) (t : Token) : Token :=
  { t with span := ⟨n + t.span.offset, t.span.length⟩ }

/-- The fault, in a text that begins `n` bytes further on. -/
def Fault.shift (n : Nat) (f : Fault) : Fault := { f with offset := n + f.offset }

namespace Cursor

/-- The cursor, in a text that begins `n` bytes further on. -/
def shift (n : Nat) (c : Cursor) : Cursor := ⟨n + c.offset, c.rest⟩

theorem skipFrom_shift (n : Nat) (inComment : Bool) (offset : Nat) (cs : List Char) :
    skipFrom inComment (n + offset) cs = (skipFrom inComment offset cs).shift n := by
  induction cs generalizing inComment offset with
  | nil => rfl
  | cons c cs ih =>
    unfold skipFrom
    split_ifs
    · rw [Nat.add_assoc, ih]
    · rw [Nat.add_assoc, ih]
    · rw [Nat.add_assoc, ih]
    · rfl

@[simp] theorem offset_shift (n : Nat) (c : Cursor) : (c.shift n).offset = n + c.offset := rfl

@[simp] theorem rest_shift (n : Nat) (c : Cursor) : (c.shift n).rest = c.rest := rfl

theorem skipTrivia_shift (n : Nat) (c : Cursor) :
    (c.shift n).skipTrivia = c.skipTrivia.shift n := skipFrom_shift n false c.offset c.rest

theorem answer_shift (n : Nat) (c : Cursor) :
    (c.shift n).step.answer =
      match c.step.answer with
      | .ok none => .ok none
      | .ok (some t) => .ok (some (t.shift n))
      | .error f => .error (f.shift n) := by
  simp only [step, skipTrivia_shift, offset_shift, rest_shift]
  cases (Scan.ofText c.skipTrivia.rest).answer with
  | error e => simp only [Fault.shift, Nat.add_assoc]
  | ok answer => cases answer <;> rfl

theorem next_shift (n : Nat) (c : Cursor) : (c.shift n).step.next = c.step.next.shift n := by
  simp only [step, skipTrivia_shift, offset_shift, rest_shift, Nat.add_assoc]
  rfl

theorem read_shift (n : Nat) (c : Cursor) :
    (c.shift n).read.tokens = c.read.tokens.map (Token.shift n) ∧
      (c.shift n).read.fault = c.read.fault.map (Fault.shift n) := by
  induction c using stepwise with
  | token c t h ih =>
    obtain ⟨htokens, hfault⟩ := ih
    have hanswer := answer_shift n c
    rw [h] at hanswer
    rw [read_of_token h, read_of_token hanswer, next_shift]
    exact ⟨congrArg (t.shift n :: ·) htokens, hfault⟩
  | done c h =>
    have hanswer := answer_shift n c
    rw [h] at hanswer
    rw [read_of_end h, read_of_end hanswer]
    exact ⟨rfl, rfl⟩
  | fault c f h =>
    have hanswer := answer_shift n c
    rw [h] at hanswer
    rw [read_of_fault h, read_of_fault hanswer]
    exact ⟨rfl, rfl⟩

/-- What is read depends on the first step alone. -/
theorem read_congr {c c' : Cursor} (h : c.step = c'.step) : c.read = c'.read := by
  match hanswer : c'.step.answer with
  | .ok (some t) => rw [read_of_token hanswer, read_of_token (h ▸ hanswer), h]
  | .ok none => rw [read_of_end hanswer, read_of_end (h ▸ hanswer), h]
  | .error f => rw [read_of_fault hanswer, read_of_fault (h ▸ hanswer), h]

end Cursor

/-! ## What a line feed changes -/

/-- What a diagnostic says of its line. -/
structure Remark where
  cause : Cause
  col : Nat
  notes : List String

/-- The line ends in a minus sign, in this column. -/
def EndsInSign (line : List Char) (col : Nat) : Prop :=
  ∃ lead, line = lead ++ ['-'] ∧ col = lead.length

/-- The line ends in a backslash that begins an escape, inside a string that was opened in this
column. -/
def EndsInEscape (line : List Char) (col : Nat) : Prop :=
  ∃ (lead : List Char) (pieces : List Piece),
    line = lead ++ '"' :: (pieces.flatMap Piece.written ++ ['\\']) ∧
      (∀ p ∈ pieces, p.Valid) ∧ col = lead.length

/-- From what is said of a line alone to what is said of it in a source, where a line feed may
follow it. -/
inductive Remark.Carried (line : List Char) : (followed : Bool) → Remark → Remark → Prop
  /-- The line feed is not the digit that should follow the sign. -/
  | sign {col : Nat} {notes : List String} :
      EndsInSign line col →
      Carried line true ⟨.unexpectedChar '-', col, notes⟩ ⟨.expectedDigit '\n', col + 1, notes⟩
  /-- Behind the backslash the line feed makes no escape. -/
  | escape {col : Nat} {notes : List String} :
      EndsInEscape line col →
      Carried line true ⟨.unterminatedString, col, notes⟩
        ⟨.unknownEscape '\n', line.length - 1, notes⟩
  /-- Otherwise there is no difference. -/
  | same {followed : Bool} {r : Remark} :
      (followed = true → ¬ (r.cause = .unexpectedChar '-' ∧ EndsInSign line r.col) ∧
        ¬ (r.cause = .unterminatedString ∧ EndsInEscape line r.col)) →
      Carried line followed r r

/-- A remark with another cause than those two is carried over as it is. -/
theorem Remark.Carried.of_cause {line : List Char} {followed : Bool} {r : Remark}
    (hsign : r.cause ≠ .unexpectedChar '-') (hstring : r.cause ≠ .unterminatedString) :
    Carried line followed r r :=
  .same fun _ => ⟨fun h => hsign h.1, fun h => hstring h.1⟩

/-- A string that has only whole pieces does not end in a backslash. -/
theorem not_endsInEscape {front : List Char} {pieces : List Piece}
    (hvalid : ∀ p ∈ pieces, p.Valid) :
    ¬ EndsInEscape (front ++ '"' :: pieces.flatMap Piece.written) front.length := by
  intro ⟨lead, others, hline, hothers, hcol⟩
  obtain ⟨-, htext⟩ := List.append_inj hline hcol
  have hbodies : pieces.flatMap Piece.written ++ [] = others.flatMap Piece.written ++ ['\\'] := by
    rw [List.append_nil]
    exact (List.cons.inj htext).2
  have hsplit : Piece.split (pieces.flatMap Piece.written ++ []) = (pieces, []) :=
    Piece.split_append hvalid rfl
  have hsplit' : Piece.split (others.flatMap Piece.written ++ ['\\']) = (others, ['\\']) :=
    Piece.split_append hothers rfl
  rw [hbodies, hsplit'] at hsplit
  cases hsplit

theorem head_append_lineFeed {p : Char → Bool} {cs : List Char} (h : ∀ c ∈ cs.head?, p c = false)
    (hp : p '\n' = false) (more : List Char) : ∀ c ∈ (cs ++ '\n' :: more).head?, p c = false := by
  cases cs with
  | nil =>
    intro c hc
    obtain rfl : '\n' = c := Option.some.inj hc
    exact hp
  | cons d ds => exact h

/-- A malformed text without a line feed is malformed in front of one, too. -/
theorem Complaint.About.followed {e : Complaint} {taken rest : List Char} (h : e.About taken rest)
    (hline : '\n' ∉ taken ++ rest) (front more : List Char) :
    ∃ (e' : Complaint) (taken' rest' : List Char), e'.About taken' rest' ∧
      taken' ++ rest' = taken ++ rest ++ '\n' :: more ∧ e'.lead <+: taken ++ rest ∧
      Remark.Carried (front ++ (taken ++ rest)) true
        ⟨e.cause, (front ++ e.lead).length, e.notes⟩
        ⟨e'.cause, (front ++ e'.lead).length, e'.notes⟩ := by
  cases h with
  | @character c rest hdelim hw hq hm hd =>
    refine ⟨_, [], c :: (rest ++ '\n' :: more), .character hdelim hw hq hm hd, by simp,
      List.nil_prefix, .same fun _ => ⟨?_, ?_⟩⟩
    · rintro ⟨hcause, -⟩
      cases hcause
      exact hm rfl
    · rintro ⟨hcause, -⟩
      cases hcause
  | sign =>
    refine ⟨_, ['-'], '\n' :: more, .digit rfl, rfl, List.prefix_refl _, ?_⟩
    simp only [List.append_nil, List.length_append, List.length_singleton]
    exact .sign ⟨front, rfl, rfl⟩
  | @digit c rest hc =>
    exact ⟨_, ['-'], c :: (rest ++ '\n' :: more), .digit hc, by simp, List.prefix_append _ _,
      .of_cause Cause.noConfusion Cause.noConfusion⟩
  | @range negative digits rest hne hdigits hrest hrange =>
    exact ⟨_, _, _, .range hne hdigits (head_append_lineFeed hrest rfl more) hrange, by simp,
      List.nil_prefix, .of_cause (by simp) (by simp)⟩
  | @word c cs rest hc hcs hrest hkeyword =>
    exact ⟨_, _, _, .word hc hcs (head_append_lineFeed hrest rfl more) hkeyword, by simp,
      List.nil_prefix, .of_cause (by simp) (by simp)⟩
  | @escape pieces c rest hvalid hc =>
    refine ⟨_, _, rest ++ '\n' :: more, .escape hvalid hc, by simp, ?_,
      .of_cause (by simp) (by simp)⟩
    exact ⟨'\\' :: c :: rest, by simp⟩
  | @openString pieces cut hvalid hcut =>
    obtain rfl | rfl := hcut
    · refine ⟨_, _, more, .lineFeed hvalid, by simp, List.nil_prefix,
        .same fun _ => ⟨?_, ?_⟩⟩
      · rintro ⟨hcause, -⟩
        cases hcause
      · rintro ⟨-, hends⟩
        simp only [List.append_nil] at hends
        exact not_endsInEscape hvalid hends
    · have hnone : Escape.ofLetter? '\n' = none := rfl
      refine ⟨_, _, more, .escape hvalid hnone, by simp, ⟨['\\'], by simp⟩, ?_⟩
      have hcol : (front ++ '"' :: pieces.flatMap Piece.written).length =
          (front ++ ('"' :: (pieces.flatMap Piece.written ++ ['\\']) ++ [])).length - 1 := by
        simp
      rw [hcol]
      simp only [List.append_nil]
      exact .escape ⟨front, pieces, rfl, hvalid, rfl⟩
  | lineFeed _ => simp at hline
  | @delimiter l text rest c hwritten hends hc =>
    exact ⟨_, _, c :: (rest ++ '\n' :: more), .delimiter hwritten hends hc, by simp,
      List.prefix_append _ _, .of_cause Cause.noConfusion Cause.noConfusion⟩

/-! ## Two cursors in one line -/

/-- A fault that is found in a line alone, and the one that is found in its place in a text in which
the line begins at `offset`. -/
def Fault.Carried (offset : Nat) (line : List Char) (followed : Bool) (f f' : Fault) : Prop :=
  ∃ lead rest lead' rest' : List Char, line = lead ++ rest ∧ rest ≠ [] ∧ line = lead' ++ rest' ∧
    f.offset = utf8Length lead ∧ f'.offset = offset + utf8Length lead' ∧
    Remark.Carried line followed ⟨f.cause, lead.length, f.notes⟩
      ⟨f'.cause, lead'.length, f'.notes⟩

theorem Fault.Carried.shift {offset : Nat} {line : List Char} {followed : Bool} {f f' : Fault}
    (h : f.Carried offset line followed f') (n : Nat) :
    f.Carried (n + offset) line followed (f'.shift n) := by
  obtain ⟨lead, rest, lead', rest', hline, hne, hline', hf, hf', hremark⟩ := h
  refine ⟨lead, rest, lead', rest', hline, hne, hline', hf, ?_, hremark⟩
  rw [Nat.add_assoc, ← hf']
  rfl

/-- A text with a comment that runs up to its end is trivia, and the line feed ends the comment. -/
theorem Trivia.concat_lineFeed {cs : List Char} (h : Trivia true cs) (hline : '\n' ∉ cs) :
    Trivia false (cs ++ ['\n']) := by
  generalize hlast : true = last at h
  induction h with
  | nil => exact .blank (by decide) .nil
  | blank hc _ ih => exact .blank hc (ih (fun h => hline (List.mem_cons_of_mem _ h)) hlast)
  | comment => simp at hline
  | openComment hbody => exact .comment hbody .nil

namespace Cursor

variable {c : Cursor}

theorem step_followed_of_token {t : Token} (h : c.step.answer = .ok (some t)) (more : List Char) :
    (⟨c.offset, c.rest ++ '\n' :: more⟩ : Cursor).step =
      ⟨.ok (some t), ⟨c.step.next.offset, c.step.next.rest ++ '\n' :: more⟩⟩ := by
  obtain ⟨e, hrest, hdelim, ht⟩ := exists_entry_eq_of_step h
  have hnext : c.step.next = ⟨c.offset + utf8Length e.chars, c.step.next.rest⟩ :=
    congrArg Step.next (step_entry hrest hdelim)
  have hmore : Delimited (c.step.next.rest ++ '\n' :: more) := by
    cases hcase : c.step.next.rest with
    | nil => exact delimited_cons.mpr (by decide)
    | cons d ds =>
      rw [hcase] at hdelim
      exact delimited_cons.mpr (delimited_cons.mp hdelim)
  have hwhole : c.rest ++ '\n' :: more = e.chars ++ (c.step.next.rest ++ '\n' :: more) := by
    rw [← List.append_assoc, ← hrest]
  have hstep := step_entry (c := ⟨c.offset, c.rest ++ '\n' :: more⟩) hwhole hmore
  rw [hstep, hnext, ht]

theorem step_followed_of_end (h : c.step.answer = .ok none) (hline : '\n' ∉ c.rest)
    (more : List Char) :
    (⟨c.offset, c.rest ++ '\n' :: more⟩ : Cursor).step =
      (⟨c.offset + utf8Length c.rest + 1, more⟩ : Cursor).step := by
  have htrivia : Trivia false (c.rest ++ ['\n']) := (trivia_of_step h).concat_lineFeed hline
  have htext : c.rest ++ '\n' :: more = (c.rest ++ ['\n']) ++ more := by simp
  have hsize : utf8Length (c.rest ++ ['\n']) = utf8Length c.rest + 1 := by
    rw [utf8Length_append]
    rfl
  have hskip : (⟨c.offset, c.rest ++ '\n' :: more⟩ : Cursor).skipTrivia =
      (⟨c.offset + utf8Length c.rest + 1, more⟩ : Cursor).skipTrivia := by
    rw [skipTrivia, htext, skipFrom_closed htrivia, hsize, ← Nat.add_assoc]
    rfl
  rw [step, hskip]
  rfl

theorem step_followed_of_fault {line : List Char} {f : Fault} (hc : c.StandsIn line)
    (hline : '\n' ∉ line) (h : c.step.answer = .error f) (more : List Char) :
    ∃ f', (⟨c.offset, c.rest ++ '\n' :: more⟩ : Cursor).step.answer = .error f' ∧
      f.Carried 0 line true f' := by
  obtain ⟨front, rfl, hoffset⟩ := hc
  obtain ⟨lead, taken, rest, e, hrest, htrivia, habout, rfl⟩ := exists_about_of_step h
  obtain ⟨evidence, hevidence, hne, -⟩ := habout.evidence []
  have hfree : '\n' ∉ taken ++ rest := by
    rw [hrest] at hline
    exact fun hmem => hline (List.mem_append_right _ (List.mem_append_right _ hmem))
  obtain ⟨e', taken', rest', habout', htext, ⟨tail, htail⟩, hremark⟩ :=
    habout.followed hfree (front ++ lead) more
  have hwhole : c.rest ++ '\n' :: more = lead ++ (taken' ++ rest') := by
    rw [htext, hrest]
    simp
  have hstep := step_of_about (c := ⟨c.offset, c.rest ++ '\n' :: more⟩) hwhole htrivia habout'
  refine ⟨_, congrArg Step.answer hstep, front ++ lead ++ e.lead, evidence,
    front ++ lead ++ e'.lead, tail, ?_, hne, ?_, ?_, ?_, ?_⟩
  · rw [hrest, hevidence]
    simp
  · rw [hrest, ← htail]
    simp
  · show c.offset + utf8Length lead + utf8Length e.lead = _
    rw [hoffset, utf8Length_append, utf8Length_append]
  · show c.offset + utf8Length lead + utf8Length e'.lead = _
    rw [hoffset, Nat.zero_add, utf8Length_append, utf8Length_append]
  · rw [hrest, ← List.append_assoc]
    exact hremark

/-- What is read from a place of a line if a line feed and more text follow the line. -/
theorem read_followed {line : List Char} (hc : c.StandsIn line) (hline : '\n' ∉ line)
    (more : List Char) :
    (c.read.fault = none →
      (⟨c.offset, c.rest ++ '\n' :: more⟩ : Cursor).read.tokens =
        c.read.tokens ++ (⟨utf8Length line + 1, more⟩ : Cursor).read.tokens ∧
      (⟨c.offset, c.rest ++ '\n' :: more⟩ : Cursor).read.fault =
        (⟨utf8Length line + 1, more⟩ : Cursor).read.fault) ∧
    (∀ f, c.read.fault = some f →
      (⟨c.offset, c.rest ++ '\n' :: more⟩ : Cursor).read.tokens = c.read.tokens ∧
      ∃ f', (⟨c.offset, c.rest ++ '\n' :: more⟩ : Cursor).read.fault = some f' ∧
        f.Carried 0 line true f') := by
  induction c using stepwise with
  | token c t h ih =>
    have hstep := step_followed_of_token h more
    have hread := read_of_token (congrArg Step.answer hstep)
    rw [hstep] at hread
    obtain ⟨hok, hfault⟩ := ih hc.next
    rw [hread, read_of_token h]
    refine ⟨fun hnone => ?_, fun f hf => ?_⟩
    · obtain ⟨htokens, hrest⟩ := hok hnone
      exact ⟨congrArg (t :: ·) htokens, hrest⟩
    · obtain ⟨htokens, hrest⟩ := hfault f hf
      exact ⟨congrArg (t :: ·) htokens, hrest⟩
  | done c h =>
    -- The rest of the line is trivia, and the line feed ends it: the next step is in the next line.
    obtain ⟨front, rfl, hoffset⟩ := hc
    have hfree : '\n' ∉ c.rest := fun hmem => hline (List.mem_append_right _ hmem)
    have hstep := step_followed_of_end h hfree more
    rw [hoffset, ← utf8Length_append, ← hoffset] at hstep
    rw [read_congr hstep, read_of_end h]
    exact ⟨fun _ => ⟨rfl, rfl⟩, fun f hf => (nomatch hf)⟩
  | fault c f h =>
    obtain ⟨f', hf', hcarried⟩ := step_followed_of_fault hc hline h more
    rw [read_of_fault h, read_of_fault hf']
    refine ⟨fun hnone => (nomatch hnone), fun g hg => ⟨rfl, f', rfl, ?_⟩⟩
    obtain rfl : f = g := Option.some.inj hg
    exact hcarried

end Cursor

/-! ## One line after the other -/

namespace Text

/-- Lines, each ended by a line feed. -/
def joinLines (ls : List (List Char)) : List Char := ls.flatMap (· ++ ['\n'])

theorem joinLines_cons (l : List Char) (ls : List (List Char)) :
    joinLines (l :: ls) = l ++ '\n' :: joinLines ls := by
  simp [joinLines]

theorem splitOn_of_notMem {cs : List Char} (h : '\n' ∉ cs) : cs.splitOn '\n' = [cs] := by
  refine List.splitOnP_eq_singleton fun c hc => ?_
  rw [beq_eq_false_iff_ne]
  rintro rfl
  exact h hc

theorem splitOn_append_lineFeed (cs ds : List Char) :
    (cs ++ '\n' :: ds).splitOn '\n' = cs.splitOn '\n' ++ ds.splitOn '\n' := by
  induction cs using linewise with
  | last cs hcs =>
    rw [List.splitOn_append_cons_self_of_not_mem hcs, splitOn_of_notMem hcs]
    rfl
  | line l cs hl ih =>
    rw [List.append_assoc, List.cons_append, List.splitOn_append_cons_self_of_not_mem hl, ih,
      List.splitOn_append_cons_self_of_not_mem hl]
    rfl

/-- What a line of a text says of the text. -/
theorem splitOn_eq_append {cs line : List Char} {before after : List (List Char)}
    (h : cs.splitOn '\n' = before ++ line :: after) :
    '\n' ∉ line ∧ (∀ l ∈ before, '\n' ∉ l) ∧ ∃ tail, cs = joinLines before ++ (line ++ tail) := by
  induction cs using linewise generalizing before with
  | last cs hcs =>
    rw [splitOn_of_notMem hcs] at h
    cases before with
    | nil =>
      obtain ⟨rfl, -⟩ := List.cons.inj h
      exact ⟨hcs, by simp, [], by simp [joinLines]⟩
    | cons l before => simp at h
  | line l cs hl ih =>
    rw [List.splitOn_append_cons_self_of_not_mem hl] at h
    cases before with
    | nil =>
      obtain ⟨rfl, -⟩ := List.cons.inj h
      exact ⟨hl, by simp, '\n' :: cs, by simp [joinLines]⟩
    | cons l' before =>
      obtain ⟨rfl, hmore⟩ := List.cons.inj h
      obtain ⟨hline, hbefore, tail, rfl⟩ := ih hmore
      refine ⟨hline, List.forall_mem_cons.mpr ⟨hl, hbefore⟩, tail, ?_⟩
      rw [joinLines_cons, List.append_assoc, List.cons_append]

theorem count_joinLines {ls : List (List Char)} (h : ∀ l ∈ ls, '\n' ∉ l) :
    (joinLines ls).count '\n' = ls.length := by
  induction ls with
  | nil => rfl
  | cons l ls ih =>
    rw [joinLines_cons, count_line (h l (by simp)), ih fun m hm => h m (List.mem_cons_of_mem l hm),
      List.length_cons]

theorem lastLine_joinLines {cs : List Char} (h : '\n' ∉ cs) (ls : List (List Char)) :
    lastLine (joinLines ls ++ cs) = cs := by
  induction ls with
  | nil => exact lastLine_of_notMem h
  | cons l ls ih =>
    rw [joinLines_cons, List.append_assoc, List.cons_append, lastLine_append]
    exact ih

end Text

namespace Source

/-- The line, as a source of its own. -/
def alone (s : Source) (line : List Char) : Source := { s with text := String.ofList line }

/-- The tokens of lines that follow each other from `offset` on, each read as a source of its
own. -/
def lineTokens (s : Source) (offset : Nat) : List (List Char) → List Token
  | [] => []
  | l :: ls =>
    (s.alone l).read.tokens.map (Token.shift offset) ++ s.lineTokens (offset + utf8Length l + 1) ls

variable (s : Source)

theorem read_alone (line : List Char) : (s.alone line).read = (⟨0, line⟩ : Cursor).read := by
  rw [read_eq, start, alone, String.toList_ofList]

theorem read_at (offset : Nat) (line : List Char) :
    (⟨offset, line⟩ : Cursor).read.tokens =
        (s.alone line).read.tokens.map (Token.shift offset) ∧
      (⟨offset, line⟩ : Cursor).read.fault =
        (s.alone line).read.fault.map (Fault.shift offset) := by
  rw [read_alone]
  exact Cursor.read_shift offset ⟨0, line⟩

/-- A line without a fault is read, and then the text behind it. -/
theorem read_line_of_none {line : List Char} (hline : '\n' ∉ line)
    (h : (s.alone line).read.fault = none) (offset : Nat) (more : List Char) :
    (⟨offset, line ++ '\n' :: more⟩ : Cursor).read.tokens =
        (s.alone line).read.tokens.map (Token.shift offset) ++
          (⟨offset + utf8Length line + 1, more⟩ : Cursor).read.tokens ∧
      (⟨offset, line ++ '\n' :: more⟩ : Cursor).read.fault =
        (⟨offset + utf8Length line + 1, more⟩ : Cursor).read.fault := by
  rw [read_alone] at h ⊢
  have hplace : (⟨0, line⟩ : Cursor).StandsIn line := ⟨[], rfl, rfl⟩
  obtain ⟨htokens, hfault⟩ := (Cursor.read_followed hplace hline more).1 h
  obtain ⟨hwhole, hwhole'⟩ := Cursor.read_shift offset ⟨0, line ++ '\n' :: more⟩
  obtain ⟨hnext, hnext'⟩ := Cursor.read_shift offset ⟨utf8Length line + 1, more⟩
  have hsum : offset + (utf8Length line + 1) = offset + utf8Length line + 1 := by omega
  simp only [Cursor.shift, Nat.add_zero, hsum] at hwhole hwhole' hnext hnext'
  rw [hwhole, hwhole', htokens, hfault, List.map_append, ← hnext, ← hnext']
  exact ⟨rfl, rfl⟩

/-- A line with a fault is read up to the fault, which is carried over. -/
theorem read_line_of_some {line : List Char} (hline : '\n' ∉ line) {f : Fault}
    (h : (s.alone line).read.fault = some f) (offset : Nat) (more : List Char) :
    (⟨offset, line ++ '\n' :: more⟩ : Cursor).read.tokens =
        (s.alone line).read.tokens.map (Token.shift offset) ∧
      ∃ f', (⟨offset, line ++ '\n' :: more⟩ : Cursor).read.fault = some f' ∧
        f.Carried offset line true f' := by
  rw [read_alone] at h ⊢
  have hplace : (⟨0, line⟩ : Cursor).StandsIn line := ⟨[], rfl, rfl⟩
  obtain ⟨htokens, f', hf', hcarried⟩ := (Cursor.read_followed hplace hline more).2 f h
  obtain ⟨hwhole, hwhole'⟩ := Cursor.read_shift offset ⟨0, line ++ '\n' :: more⟩
  simp only [Cursor.shift, Nat.add_zero] at hwhole hwhole'
  rw [hwhole, hwhole', htokens, hf']
  exact ⟨rfl, f'.shift offset, rfl, hcarried.shift offset⟩

/-- The last line is read as it is read alone. -/
theorem read_lastLine_of_some {line : List Char} {f : Fault}
    (h : (s.alone line).read.fault = some f) (offset : Nat) :
    (⟨offset, line⟩ : Cursor).read.tokens =
        (s.alone line).read.tokens.map (Token.shift offset) ∧
      ∃ f', (⟨offset, line⟩ : Cursor).read.fault = some f' ∧ f.Carried offset line false f' := by
  obtain ⟨htokens, hfault⟩ := s.read_at offset line
  obtain ⟨c, hc, hanswer⟩ := Cursor.exists_step_of_fault (read_alone s line ▸ h) ⟨[], rfl, rfl⟩
  obtain ⟨lead, rest, hline, hne, hoffset, -⟩ := hc.evidence hanswer
  rw [hfault, h]
  refine ⟨htokens, _, rfl, lead, rest, lead, rest, hline, hne, hline, hoffset, ?_,
    .same fun hfollowed => (nomatch hfollowed)⟩
  rw [← hoffset]
  rfl

/-- Without a fault in any line the lines are read one after the other. -/
theorem read_lines (offset : Nat) (cs : List Char) :
    ((⟨offset, cs⟩ : Cursor).read.fault = none ↔
        ∀ l ∈ cs.splitOn '\n', (s.alone l).read.fault = none) ∧
      ((⟨offset, cs⟩ : Cursor).read.fault = none →
        (⟨offset, cs⟩ : Cursor).read.tokens = s.lineTokens offset (cs.splitOn '\n')) := by
  induction cs using linewise generalizing offset with
  | last cs hcs =>
    obtain ⟨htokens, hfault⟩ := s.read_at offset cs
    rw [splitOn_of_notMem hcs, htokens, hfault]
    simp [lineTokens]
  | line l cs hl ih =>
    rw [List.splitOn_append_cons_self_of_not_mem hl, List.forall_mem_cons]
    cases h : (s.alone l).read.fault with
    | none =>
      obtain ⟨htokens, hfault⟩ := s.read_line_of_none hl h offset cs
      obtain ⟨hiff, hmore⟩ := ih (offset + utf8Length l + 1)
      rw [htokens, hfault, hiff]
      refine ⟨by simp, fun hall => ?_⟩
      rw [lineTokens, hmore (hiff.mpr hall)]
    | some f =>
      obtain ⟨-, f', hf', -⟩ := s.read_line_of_some hl h offset cs
      simp [hf']

/-- The first line with a fault ends the reading. -/
theorem read_lines_of_some {line : List Char} {before after : List (List Char)} {f : Fault}
    (hbefore : ∀ l ∈ before, (s.alone l).read.fault = none)
    (hf : (s.alone line).read.fault = some f) (offset : Nat) {cs : List Char}
    (hcs : cs.splitOn '\n' = before ++ line :: after) :
    (⟨offset, cs⟩ : Cursor).read.tokens = s.lineTokens offset (before ++ [line]) ∧
      ∃ f', (⟨offset, cs⟩ : Cursor).read.fault = some f' ∧
        f.Carried (offset + utf8Length (joinLines before)) line (!after.isEmpty) f' := by
  induction cs using linewise generalizing offset before with
  | last cs hfree =>
    rw [splitOn_of_notMem hfree] at hcs
    cases before with
    | nil =>
      obtain ⟨rfl, rfl⟩ := List.cons.inj hcs
      simpa [lineTokens, joinLines] using s.read_lastLine_of_some hf offset
    | cons l before => simp at hcs
  | line l cs hl ih =>
    rw [List.splitOn_append_cons_self_of_not_mem hl] at hcs
    cases before with
    | nil =>
      obtain ⟨rfl, rfl⟩ := List.cons.inj hcs
      have hafter : (cs.splitOn '\n').isEmpty = false :=
        List.isEmpty_eq_false_iff.mpr (List.splitOn_ne_nil '\n' cs)
      rw [hafter]
      simpa [lineTokens, joinLines] using s.read_line_of_some hl hf offset cs
    | cons l' before =>
      obtain ⟨rfl, hmoreLines⟩ := List.cons.inj hcs
      obtain ⟨hnone, hbefore⟩ := List.forall_mem_cons.mp hbefore
      obtain ⟨htokens, hfault⟩ := s.read_line_of_none hl hnone offset cs
      obtain ⟨hmore, f', hf', hcarried⟩ := ih hbefore (offset + utf8Length l + 1) hmoreLines
      have hsize : offset + utf8Length (joinLines (l :: before)) =
          offset + utf8Length l + 1 + utf8Length (joinLines before) := by
        rw [joinLines_cons, utf8Length_append, utf8Length_cons]
        show offset + (utf8Length l + (1 + _)) = _
        omega
      rw [htokens, hfault, hmore, hsize]
      exact ⟨rfl, f', hf', hcarried⟩

/-! ## The literals of the lines -/

theorem map_literal_lineTokens (offset : Nat) (ls : List (List Char)) :
    (s.lineTokens offset ls).map Token.literal =
      (ls.map fun l => (s.alone l).read.tokens.map Token.literal).flatten := by
  induction ls generalizing offset with
  | nil => rfl
  | cons l ls ih =>
    rw [lineTokens, List.map_append, ih, List.map_map, List.map_cons, List.flatten_cons]
    rfl

theorem forall₂_literals_iff {ls : List (List Char)} {parts : List (List Literal)} :
    List.Forall₂ (fun l part => (s.alone l).literals = .ok part) ls parts ↔
      (∀ l ∈ ls, (s.alone l).read.fault = none) ∧
        (ls.map fun l => (s.alone l).read.tokens.map Token.literal) = parts := by
  induction ls generalizing parts with
  | nil => simp [eq_comm]
  | cons l ls ih =>
    rw [List.forall₂_cons_left_iff, List.forall_mem_cons]
    constructor
    · rintro ⟨part, parts, hpart, hparts, rfl⟩
      obtain ⟨hfault, rfl⟩ := literals_eq_ok_iff.mp hpart
      obtain ⟨hfaults, rfl⟩ := ih.mp hparts
      exact ⟨⟨hfault, hfaults⟩, rfl⟩
    · rintro ⟨⟨hfault, hfaults⟩, rfl⟩
      exact ⟨_, _, literals_eq_ok_iff.mpr ⟨hfault, rfl⟩, ih.mpr ⟨hfaults, rfl⟩, rfl⟩

end Source

/-- **Reading goes line by line.** A source has literals if and only if each of its lines, as a
source of its own, has literals, and then it has those of the lines, joined. Otherwise take the
first line that has none: the source's tokens are those of the lines before it and those of the
line up to its fault; the source's diagnostic points into this line; and cause, column and notes
are carried over from the diagnostic of the line alone. -/
theorem literals_line_by_line (s : Source) :
    (∀ L, s.literals = .ok L ↔
      ∃ parts, List.Forall₂ (fun line part => (s.alone line).literals = .ok part)
        (s.text.toList.splitOn '\n') parts ∧ parts.flatten = L) ∧
    ∀ before line after d, s.text.toList.splitOn '\n' = before ++ line :: after →
      (∀ l ∈ before, ∃ L, (s.alone l).literals = .ok L) → (s.alone line).literals = .error d →
      s.read.tokens = s.lineTokens 0 (before ++ [line]) ∧
      ∃ d' col col', s.literals = .error d' ∧ d.position? = some ⟨0, col⟩ ∧
        d'.position? = some ⟨before.length, col'⟩ ∧
        Remark.Carried line (!after.isEmpty) ⟨d.cause, col, d.notes⟩
          ⟨d'.cause, col', d'.notes⟩ := by
  refine ⟨fun L => ?_, fun before line after d hsplit hbefore hd => ?_⟩
  · obtain ⟨hiff, htokens⟩ := s.read_lines 0 s.text.toList
    rw [Source.literals_eq_ok_iff, s.read_eq]
    constructor
    · rintro ⟨hfault, rfl⟩
      refine ⟨_, s.forall₂_literals_iff.mpr ⟨hiff.mp hfault, rfl⟩, ?_⟩
      rw [← s.map_literal_lineTokens 0, ← htokens hfault]
      rfl
    · rintro ⟨parts, hparts, rfl⟩
      obtain ⟨hfaults, rfl⟩ := s.forall₂_literals_iff.mp hparts
      have hfault := hiff.mpr hfaults
      refine ⟨hfault, ?_⟩
      rw [← s.map_literal_lineTokens 0, ← htokens hfault]
      rfl
  · have hnone : ∀ l ∈ before, (s.alone l).read.fault = none := by
      intro l hl
      obtain ⟨L, hL⟩ := hbefore l hl
      exact (Source.literals_eq_ok_iff.mp hL).1
    obtain ⟨f, hf, rfl⟩ := Source.literals_eq_error_iff.mp hd
    obtain ⟨htokens, f', hf', lead, rest, lead', rest', hline, hne, hline', hoffset, hoffset',
      hremark⟩ := s.read_lines_of_some hnone hf 0 hsplit
    obtain ⟨hfree, hbeforeFree, tail, htext⟩ := splitOn_eq_append hsplit
    have hlead : '\n' ∉ lead := fun h => hfree (hline ▸ List.mem_append_left _ h)
    have hlead' : '\n' ∉ lead' := fun h => hfree (hline' ▸ List.mem_append_left _ h)
    refine ⟨htokens, s.diagnose f', lead.length, lead'.length,
      Source.literals_eq_error_iff.mpr ⟨f', hf', rfl⟩, ?_, ?_, ?_⟩
    · have halone : (s.alone line).text.toList = lead ++ rest :=
        String.toList_ofList.trans hline
      rw [Source.position?_diagnose halone (by simp [hne]) hoffset,
        List.count_eq_zero_of_not_mem hlead, lastLine_of_notMem hlead]
    · have hwhole : s.text.toList = (joinLines before ++ lead') ++ (rest' ++ tail) := by
        rw [htext, hline']
        simp
      have hvisible : lastLine (joinLines before ++ lead') ++ (rest' ++ tail) ≠ [] := by
        rw [lastLine_joinLines hlead', ← List.append_assoc, ← hline', hline]
        simp [hne]
      have hplace : f'.offset = utf8Length (joinLines before ++ lead') := by
        rw [hoffset', Nat.zero_add, utf8Length_append]
      rw [Source.position?_diagnose hwhole hvisible hplace, List.count_append,
        count_joinLines hbeforeFree, List.count_eq_zero_of_not_mem hlead',
        lastLine_joinLines hlead']
      rfl
    · rw [Source.diagnose_eq, Source.diagnose_eq]
      exact hremark

/-- In the second of three lines a minus sign stands alone, and the line feed behind it is what a
digit should be. -/
theorem literals_up_to_lone_sign :
    "1\n -\n2".toList.splitOn '\n' = [['1']] ++ [' ', '-'] :: [['2']] ∧
      (Source.mk none "1\n -\n2").read.tokens =
        (Source.mk none "1\n -\n2").lineTokens 0 ([['1']] ++ [[' ', '-']]) ∧
      ∃ d' col col', (Source.mk none "1\n -\n2").literals = .error d' ∧
        some (Position.mk 0 1) = some ⟨0, col⟩ ∧ d'.position? = some ⟨1, col'⟩ ∧
        Remark.Carried [' ', '-'] true ⟨.unexpectedChar '-', col, ["integer"]⟩
          ⟨d'.cause, col', d'.notes⟩ := by
  have hone : ∀ l ∈ [['1']], ∃ L, ((Source.mk none "1\n -\n2").alone l).literals = .ok L := by
    intro l hl
    obtain rfl := List.mem_singleton.mp hl
    refine ⟨[.value (.int 1)], Source.literals_eq_ok_iff.mpr ?_⟩
    rw [Source.read_alone, Cursor.read_of_token (t := ⟨.value (.int 1), ⟨0, 1⟩, "1"⟩) rfl,
      Cursor.read_of_end rfl]
    exact ⟨rfl, rfl⟩
  have hplace : ((Source.mk none "1\n -\n2").alone [' ', '-']).excerpt? 1 =
      some ⟨⟨0, 1⟩, " -"⟩ := by
    have hlead : lastLine [' '] = [' '] := lastLine_of_notMem (by decide)
    have htext : ((Source.mk none "1\n -\n2").alone [' ', '-']).text.toList = [' '] ++ ['-'] := rfl
    have hexcerpt := Source.excerpt?_eq htext (by simp)
    rw [hlead] at hexcerpt
    exact hexcerpt
  have hsign : ((Source.mk none "1\n -\n2").alone [' ', '-']).literals =
      .error ⟨.unexpectedChar '-', none, some ⟨⟨0, 1⟩, " -"⟩, ["integer"]⟩ := by
    refine Source.literals_eq_error_iff.mpr ⟨⟨.unexpectedChar '-', 1, ["integer"]⟩, ?_, ?_⟩
    · rw [Source.read_alone, Cursor.read_of_fault rfl]
      rfl
    · rw [Source.diagnose_eq, hplace]
      rfl
  have hsplit : "1\n -\n2".toList.splitOn '\n' = [['1']] ++ [' ', '-'] :: [['2']] := by decide
  exact ⟨hsplit, (literals_line_by_line ⟨none, "1\n -\n2"⟩).2 _ _ _ _ hsplit hone hsign⟩

end LiteralPool
