import LiteralPool.Proofs.Places

/-!
# Where strings end

Between its quotes a string holds characters that stand for themselves and escapes. `Body text
value` says that `text` can stand there and means `value`, and `LongestBody cs body value rest` that
`body` is the longest such text at the front of `cs`.

**Theorem (`strings_end_behind_longest_body`).** Behind every opening quote there is just one
longest body. Reading goes to its end, and what stands there says how the string ends
(`Cursor.StringOutcome`): with a value behind a closing quote; with a fault at a backslash that
makes no escape with the character behind it; or with a fault at the opening quote, if the line or
the text ends. Each case says where reading goes on.

A string is read one character at a time by `Cursor.stringLoop`, which holds what the string means
so far and the offset that was reached. The induction is over the body: a body is read to its end
(`stringLoop_append`), whatever is behind it. A step of a cursor splits pieces off instead. Valid
pieces make the bodies (`body_iff`), so both end at the same place.
-/

namespace LiteralPool

open Text

namespace Text

/-! ## Bodies -/

/-- The letters that make an escape behind a backslash, and the characters that are meant. -/
def escapes : List (Char × Char) := [('n', '\n'), ('t', '\t'), ('"', '"'), ('\\', '\\')]

/-- `text` can stand between quotes, and it means `value`. -/
inductive Body : (text value : List Char) → Prop
  | nil : Body [] []
  | raw {c : Char} {text value : List Char} :
      c ≠ '"' → c ≠ '\\' → c ≠ '\n' → Body text value → Body (c :: text) (c :: value)
  | escape {letter c : Char} {text value : List Char} :
      (letter, c) ∈ escapes → Body text value → Body ('\\' :: letter :: text) (c :: value)

/-- `body` is the longest body at the front of `cs`; it means `value`, and `rest` is behind it. -/
structure LongestBody (cs body value rest : List Char) : Prop where
  text : cs = body ++ rest
  means : Body body value
  longest : ∀ body' value', Body body' value' → body' <+: cs → body'.length ≤ body.length

theorem Escape.mem_escapes (e : Escape) : (e.letter, e.value) ∈ escapes := by
  cases e <;> decide

theorem exists_escape {letter c : Char} (h : (letter, c) ∈ escapes) :
    ∃ e : Escape, e.letter = letter ∧ e.value = c := by
  simp only [escapes, List.mem_cons, Prod.mk.injEq, List.not_mem_nil, or_false] at h
  rcases h with ⟨rfl, rfl⟩ | ⟨rfl, rfl⟩ | ⟨rfl, rfl⟩ | ⟨rfl, rfl⟩
  · exact ⟨.lineFeed, rfl, rfl⟩
  · exact ⟨.tab, rfl, rfl⟩
  · exact ⟨.quote, rfl, rfl⟩
  · exact ⟨.backslash, rfl, rfl⟩

theorem Escape.ofLetter?_eq_none_iff {c : Char} :
    Escape.ofLetter? c = none ↔ c ∉ escapes.map Prod.fst := by
  simp only [escapes, List.map_cons, List.map_nil, List.mem_cons, List.not_mem_nil, or_false,
    not_or]
  grind [ofLetter?]

/-- A body is written in valid pieces. -/
theorem body_iff {text value : List Char} : Body text value ↔
    ∃ pieces : List Piece, (∀ p ∈ pieces, p.Valid) ∧ text = pieces.flatMap Piece.written ∧
      value = pieces.map Piece.value := by
  constructor
  · intro h
    induction h with
    | nil => exact ⟨[], by simp, rfl, rfl⟩
    | @raw c text value hquote hback hfeed _ ih =>
      obtain ⟨pieces, hvalid, rfl, rfl⟩ := ih
      have hc : (Piece.plain c).Valid := isPlain_iff.mpr ⟨hquote, hback, hfeed⟩
      exact ⟨.plain c :: pieces, List.forall_mem_cons.mpr ⟨hc, hvalid⟩, rfl, rfl⟩
    | @escape letter c text value hmem _ ih =>
      obtain ⟨pieces, hvalid, rfl, rfl⟩ := ih
      obtain ⟨e, rfl, rfl⟩ := exists_escape hmem
      exact ⟨.escape e :: pieces, List.forall_mem_cons.mpr ⟨trivial, hvalid⟩, rfl, rfl⟩
  · rintro ⟨pieces, hvalid, rfl, rfl⟩
    induction pieces with
    | nil => exact .nil
    | cons p pieces ih =>
      obtain ⟨hp, hpieces⟩ := List.forall_mem_cons.mp hvalid
      cases p with
      | plain c =>
        obtain ⟨hquote, hback, hfeed⟩ := isPlain_iff.mp hp
        exact .raw hquote hback hfeed (ih hpieces)
      | escape e => exact .escape e.mem_escapes (ih hpieces)

/-- A body means one thing. -/
theorem Body.value_unique {text value value' : List Char} (h : Body text value)
    (h' : Body text value') : value = value' := by
  obtain ⟨pieces, hvalid, rfl, rfl⟩ := body_iff.mp h
  obtain ⟨pieces', hvalid', htext, rfl⟩ := body_iff.mp h'
  have hend : Piece.next? [] = none := rfl
  have hsplit := Piece.split_append hvalid hend
  have hsplit' := Piece.split_append hvalid' hend
  rw [htext, hsplit'] at hsplit
  rw [(Prod.mk.inj hsplit).1]

/-! ## The longest body -/

/-- A body in front of what begins with no piece is the longest one. -/
theorem longestBody_append {body value rest : List Char} (h : Body body value)
    (hrest : Piece.next? rest = none) : LongestBody (body ++ rest) body value rest := by
  refine ⟨rfl, h, fun body' value' h' hfront => ?_⟩
  obtain ⟨tail, htail⟩ := hfront
  obtain ⟨pieces, hvalid, rfl, -⟩ := body_iff.mp h
  obtain ⟨pieces', hvalid', rfl, -⟩ := body_iff.mp h'
  -- Both bodies are split off the same text, and the split puts the shorter one in front.
  have hsplit := Piece.split_written_append hvalid' tail
  rw [htail, Piece.split_append hvalid hrest] at hsplit
  have hpieces : pieces = pieces' ++ (Piece.split tail).1 := (Prod.mk.inj hsplit).1
  rw [hpieces, List.flatMap_append, List.length_append]
  exact Nat.le_add_right _ _

/-- Every text has a longest body at its front. -/
theorem longestBody_split (cs : List Char) :
    LongestBody cs ((Piece.split cs).1.flatMap Piece.written) ((Piece.split cs).1.map Piece.value)
      (Piece.split cs).2 := by
  have hbody : Body ((Piece.split cs).1.flatMap Piece.written)
      ((Piece.split cs).1.map Piece.value) :=
    body_iff.mpr ⟨_, fun p hp => Piece.valid_of_mem_split hp, rfl, rfl⟩
  have hlongest := longestBody_append hbody (Piece.next?_split cs)
  rwa [Piece.written_split] at hlongest

/-- There is only one. -/
theorem LongestBody.unique {cs body value rest body' value' rest' : List Char}
    (h : LongestBody cs body value rest) (h' : LongestBody cs body' value' rest') :
    body' = body ∧ value' = value ∧ rest' = rest := by
  have hlength : body'.length = body.length := by
    apply Nat.le_antisymm
    · exact h.longest body' value' h'.means ⟨rest', h'.text.symm⟩
    · exact h'.longest body value h.means ⟨rest, h.text.symm⟩
  obtain ⟨rfl, rfl⟩ := List.append_inj (h'.text.symm.trans h.text) hlength
  exact ⟨rfl, h'.means.value_unique h.means, rfl⟩

/-- Behind the longest body no piece begins. -/
theorem LongestBody.next?_rest {cs body value rest : List Char}
    (h : LongestBody cs body value rest) : Piece.next? rest = none := by
  obtain ⟨-, -, rfl⟩ := (longestBody_split cs).unique h
  exact Piece.next?_split cs

end Text

/-! ## The loop -/

namespace Cursor

/-- Reads on, at `offset`, in a string that has its opening quote at `start`. So far it means
`value`. -/
def stringLoop (start : Nat) (value : List Char) (offset : Nat) :
    List Char → Except Fault String × Cursor
  | [] => (.error ⟨.unterminatedString, start, []⟩, ⟨offset, []⟩)
  | '"' :: rest => (.ok (String.ofList value), ⟨offset + 1, rest⟩)
  | ['\\'] => (.error ⟨.unterminatedString, start, []⟩, ⟨offset + 1, []⟩)
  | '\\' :: 'n' :: rest => stringLoop start (value ++ ['\n']) (offset + 2) rest
  | '\\' :: 't' :: rest => stringLoop start (value ++ ['\t']) (offset + 2) rest
  | '\\' :: '"' :: rest => stringLoop start (value ++ ['"']) (offset + 2) rest
  | '\\' :: '\\' :: rest => stringLoop start (value ++ ['\\']) (offset + 2) rest
  | '\\' :: c :: rest => (.error ⟨.unknownEscape c, offset, []⟩, ⟨offset + 1 + c.utf8Size, rest⟩)
  | '\n' :: rest => (.error ⟨.unterminatedString, start, []⟩, ⟨offset + 1, rest⟩)
  | c :: rest => stringLoop start (value ++ [c]) (offset + c.utf8Size) rest

/-- Reads a string behind its opening quote, which is at `start`. -/
def readString (start : Nat) (cs : List Char) : Except Fault String × Cursor :=
  stringLoop start [] (start + 1) cs

/-- What reading a string comes to if `body` is the longest body in it, means `value`, and has
`rest` behind it. -/
inductive StringOutcome (start : Nat) (body value : List Char) :
    (rest : List Char) → Except Fault String × Cursor → Prop
  /-- The closing quote is read, and nothing behind it. -/
  | closed {rest : List Char} : StringOutcome start body value ('"' :: rest)
      (.ok (String.ofList value), ⟨start + 1 + utf8Length body + 1, rest⟩)
  /-- A backslash and a character that make no escape are read. The fault is at the backslash. -/
  | unknownEscape {c : Char} {rest : List Char} : c ∉ escapes.map Prod.fst →
      StringOutcome start body value ('\\' :: c :: rest)
        (.error ⟨.unknownEscape c, start + 1 + utf8Length body, []⟩,
          ⟨start + 1 + utf8Length body + 1 + c.utf8Size, rest⟩)
  /-- A line feed is read. The fault is at the opening quote. -/
  | lineFeed {rest : List Char} : StringOutcome start body value ('\n' :: rest)
      (.error ⟨.unterminatedString, start, []⟩, ⟨start + 1 + utf8Length body + 1, rest⟩)
  /-- The text ends behind a backslash. The fault is at the opening quote. -/
  | backslash : StringOutcome start body value ['\\']
      (.error ⟨.unterminatedString, start, []⟩, ⟨start + 1 + utf8Length body + 1, []⟩)
  /-- The text ends. The fault is at the opening quote. -/
  | atEnd : StringOutcome start body value []
      (.error ⟨.unterminatedString, start, []⟩, ⟨start + 1 + utf8Length body, []⟩)

theorem stringLoop_raw {c : Char} (hquote : c ≠ '"') (hback : c ≠ '\\') (hfeed : c ≠ '\n')
    (start : Nat) (value : List Char) (offset : Nat) (rest : List Char) :
    stringLoop start value offset (c :: rest) =
      stringLoop start (value ++ [c]) (offset + c.utf8Size) rest := by
  rw [stringLoop.eq_def]
  grind

theorem stringLoop_escape {letter c : Char} (h : (letter, c) ∈ escapes) (start : Nat)
    (value : List Char) (offset : Nat) (rest : List Char) :
    stringLoop start value offset ('\\' :: letter :: rest) =
      stringLoop start (value ++ [c]) (offset + 2) rest := by
  obtain ⟨e, rfl, rfl⟩ := exists_escape h
  cases e <;> rfl

theorem stringLoop_unknown {c : Char} (h : c ∉ escapes.map Prod.fst) (start : Nat)
    (value : List Char) (offset : Nat) (rest : List Char) :
    stringLoop start value offset ('\\' :: c :: rest) =
      (.error ⟨.unknownEscape c, offset, []⟩, ⟨offset + 1 + c.utf8Size, rest⟩) := by
  rw [stringLoop.eq_def]
  simp only [escapes, List.map_cons, List.map_nil, List.mem_cons, List.not_mem_nil, or_false,
    not_or] at h
  grind

/-- A body is read to its end. -/
theorem stringLoop_append {body decoded : List Char} (h : Body body decoded) (start : Nat)
    (value : List Char) (offset : Nat) (rest : List Char) :
    stringLoop start value offset (body ++ rest) =
      stringLoop start (value ++ decoded) (offset + utf8Length body) rest := by
  induction h generalizing value offset with
  | nil => rw [List.nil_append, List.append_nil, utf8Length_nil, Nat.add_zero]
  | raw hquote hback hfeed _ ih =>
    rw [List.cons_append, stringLoop_raw hquote hback hfeed, ih, List.append_assoc, utf8Length_cons,
      Nat.add_assoc]
    rfl
  | @escape letter c text _ hmem _ ih =>
    have hsize : utf8Length ('\\' :: letter :: text) = 2 + utf8Length text := by
      obtain ⟨e, rfl, -⟩ := exists_escape hmem
      rw [utf8Length_cons, utf8Length_cons, ← Nat.add_assoc]
      cases e <;> rfl
    rw [List.cons_append, List.cons_append, stringLoop_escape hmem, ih, List.append_assoc, hsize,
      Nat.add_assoc]
    rfl

/-- Reading goes to the end of the longest body and then looks at what is there. -/
theorem stringOutcome_readString {cs body value rest : List Char}
    (h : LongestBody cs body value rest) (start : Nat) :
    StringOutcome start body value rest (readString start cs) := by
  rw [readString, h.text, stringLoop_append h.means, List.nil_append]
  rcases Piece.next?_eq_none h.next?_rest with
    rfl | ⟨rest, rfl⟩ | ⟨rest, rfl⟩ | rfl | ⟨c, rest, rfl, hc⟩
  · exact .atEnd
  · exact .closed
  · exact .lineFeed
  · exact .backslash
  · rw [stringLoop_unknown (Escape.ofLetter?_eq_none_iff.mp hc)]
    exact .unknownEscape (Escape.ofLetter?_eq_none_iff.mp hc)

/-! ## Steps in front of a quote -/

/-- What a step makes of a string that was read, with this text if it was closed. A fault gets its
note. Behind a closing quote there must be a delimiter or the end. -/
def stepOfString (start : Nat) (text : List Char) : Except Fault String × Cursor → Step
  | (outcome, next) =>
    { answer := match outcome with
        | .error fault => .error { fault with notes := fault.notes ++ ["string"] }
        | .ok value =>
          match next.rest.head?.filter fun d => !isDelimiter d with
          | some d => .error ⟨.expectedDelimiter d, next.offset, []⟩
          | none =>
            .ok (some ⟨.value (.string value), ⟨start, next.offset - start⟩, String.ofList text⟩)
      next }

/-- Behind a quote, a body and a tail. -/
theorem offset_behind (start : Nat) (body tail : List Char) :
    start + utf8Length ('"' :: (body ++ tail)) =
      start + 1 + utf8Length body + utf8Length tail := by
  have hquote : '"'.utf8Size = 1 := rfl
  rw [utf8Length_cons, utf8Length_append, hquote]
  omega

variable {c : Cursor} {lead : List Char}

/-- A step in front of a string that is closed. -/
theorem step_of_closed {text rest : List Char} {s : String}
    (hc : c.rest = lead ++ (text ++ rest)) (hlead : Trivia false lead)
    (hwritten : (Literal.value (.string s)).Written text) :
    c.step = stepOfString (c.offset + utf8Length lead) text
      (.ok s, ⟨c.offset + utf8Length lead + utf8Length text, rest⟩) := by
  simp only [stepOfString]
  cases hhead : rest.head?.filter fun d => !isDelimiter d with
  | none =>
    have hrest : Delimited rest := by
      intro d hd
      simpa using Option.filter_eq_none_iff.mp hhead d hd
    have hsize : c.offset + utf8Length lead + utf8Length text - (c.offset + utf8Length lead) =
        utf8Length text := Nat.add_sub_cancel_left _ _
    rw [step_of_written hc hlead hwritten hrest, hsize]
  | some d =>
    obtain ⟨hd, hdelim⟩ := Option.filter_eq_some_iff.mp hhead
    obtain ⟨ds, rfl⟩ : ∃ ds, rest = d :: ds := List.head?_eq_some_iff.mp hd
    have hends : (Literal.value (.string s)).EndsBefore d := trivial
    exact step_of_about hc hlead (.delimiter hwritten hends (by simpa using hdelim))

/-- A step in front of a string that is malformed. -/
theorem step_of_malformed {body rest : List Char} (tail : List Char) {e : Complaint}
    (hc : c.rest = lead ++ '"' :: (body ++ (tail ++ rest))) (hlead : Trivia false lead)
    (he : e.About ('"' :: (body ++ tail)) rest) :
    c.step = ⟨.error ⟨e.cause, c.offset + utf8Length lead + utf8Length e.lead, e.notes⟩,
      ⟨c.offset + utf8Length lead + 1 + utf8Length body + utf8Length tail, rest⟩⟩ := by
  have htext : c.rest = lead ++ ('"' :: (body ++ tail) ++ rest) := by
    rw [hc, List.cons_append, List.append_assoc]
  rw [← offset_behind]
  exact step_of_about htext hlead he

/-- A step in front of a quote reads a string. -/
theorem step_of_quote {cs body value rest : List Char} (hc : c.rest = lead ++ '"' :: cs)
    (hlead : Trivia false lead) (h : LongestBody cs body value rest) :
    c.step = stepOfString (c.offset + utf8Length lead) ('"' :: (body ++ ['"']))
      (readString (c.offset + utf8Length lead) cs) := by
  have hout := stringOutcome_readString h (c.offset + utf8Length lead)
  generalize readString (c.offset + utf8Length lead) cs = outcome at hout
  rw [h.text] at hc
  obtain ⟨pieces, hvalid, rfl, rfl⟩ := body_iff.mp h.means
  cases hout with
  | @closed rest =>
    have htext : c.rest = lead ++ ('"' :: (pieces.flatMap Piece.written ++ ['"']) ++ rest) := by
      rw [hc]
      simp
    rw [step_of_closed htext hlead (.string hvalid), offset_behind]
    rfl
  | @unknownEscape d rest hd =>
    have hletter : Escape.ofLetter? d = none := Escape.ofLetter?_eq_none_iff.mpr hd
    have habout := @Complaint.About.escape pieces d rest hvalid hletter
    have hfault : c.offset + utf8Length lead + utf8Length ('"' :: pieces.flatMap Piece.written) =
        c.offset + utf8Length lead + 1 + utf8Length (pieces.flatMap Piece.written) := by
      rw [utf8Length_cons, ← Nat.add_assoc]
      rfl
    have hend : utf8Length ['\\', d] = 1 + d.utf8Size := rfl
    rw [step_of_malformed ['\\', d] hc hlead habout, hfault, hend, ← Nat.add_assoc]
    rfl
  | lineFeed => exact step_of_malformed ['\n'] hc hlead (.lineFeed hvalid)
  | backslash => exact step_of_malformed ['\\'] hc hlead (.openString hvalid (.inr rfl))
  | atEnd => exact step_of_malformed [] hc hlead (.openString hvalid (.inl rfl))

/-- **A string ends behind its longest body.** Take a quote behind any trivia, anywhere in a source.
Behind the quote there is just one longest body. What stands behind the body says what reading the
string comes to: a value, or a fault at a backslash or at the quote, and the place where reading
goes on. A step of a cursor in front of the trivia goes on from there: it adds the note to a fault,
and asks for a delimiter behind a closing quote. -/
theorem strings_end_behind_longest_body (c : Cursor) (lead cs : List Char)
    (hc : c.rest = lead ++ '"' :: cs) (hlead : Trivia false lead) :
    let start := c.offset + utf8Length lead
    ∃ body value rest, LongestBody cs body value rest ∧
      (∀ body' value' rest', LongestBody cs body' value' rest' →
        body' = body ∧ value' = value ∧ rest' = rest) ∧
      StringOutcome start body value rest (readString start cs) ∧
      c.step = stepOfString start ('"' :: (body ++ ['"'])) (readString start cs) := by
  intro start
  have h := longestBody_split cs
  exact ⟨_, _, _, h, fun body' value' rest' h' => h.unique h', stringOutcome_readString h start,
    step_of_quote hc hlead h⟩

/-- Two backslashes between quotes behind a blank, and a backslash that ends its line. -/
theorem strings_end_behind_backslash :
    Trivia false [' '] ∧
    (step ⟨5, [' ', '"', '\\', '\\', '"', '\n']⟩).answer =
      .ok (some ⟨.value (.string "\\"), ⟨6, 4⟩, "\"\\\\\""⟩) ∧
    (step ⟨5, [' ', '"', '\\', '\\', '"', '\n']⟩).next = ⟨10, ['\n']⟩ ∧
    Trivia false [] ∧
    (step ⟨0, ['"', 'é', '\\', '\n', '1']⟩).answer =
      .error ⟨.unknownEscape '\n', 3, ["string"]⟩ ∧
    (step ⟨0, ['"', 'é', '\\', '\n', '1']⟩).next = ⟨5, ['1']⟩ := by
  have hblank : Trivia false [' '] := .blank (by decide) .nil
  have hclosed : LongestBody ['\\', '\\', '"', '\n'] ['\\', '\\'] ['\\'] ['"', '\n'] :=
    longestBody_append (.escape (by decide) .nil) rfl
  obtain ⟨body, value, rest, -, hunique, -, hstep⟩ := strings_end_behind_longest_body
    ⟨5, [' ', '"', '\\', '\\', '"', '\n']⟩ [' '] ['\\', '\\', '"', '\n'] rfl hblank
  obtain ⟨rfl, rfl, rfl⟩ := hunique _ _ _ hclosed
  obtain ⟨_, _, _, -, -, -, hstep'⟩ := strings_end_behind_longest_body
    ⟨0, ['"', 'é', '\\', '\n', '1']⟩ [] ['é', '\\', '\n', '1'] rfl .nil
  rw [hstep, hstep']
  exact ⟨hblank, rfl, rfl, .nil, rfl, rfl⟩

end Cursor

end LiteralPool
