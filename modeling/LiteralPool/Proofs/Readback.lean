import LiteralPool.Proofs.Display
import LiteralPool.Proofs.Spans

/-!
# Reading what was displayed

Strings are displayed with more escapes than reading knows: a character that is displayed with one
of the others is *strange* (`StrangeAs`).

**Theorem (`displayed_reads_back`).** A displayed literal reads back as itself, unless it is a
string with a strange character. Then nothing is read, and the fault is that of the first strange
character: its escape is unknown, at the column where its backslash stands.

Without strange characters the display of a string is its spelling (`display_eq_spelling`), and
what is spelled is read back. Otherwise the text up to the first strange character is a quote and
valid pieces, and the scan of a string complains about the escape behind them (`About.escape`).
-/

namespace LiteralPool

open Text

/-! ## Strange characters -/

/-- The character is displayed with an escape that has this letter, which reading does not know. -/
def Text.StrangeAs (c letter : Char) : Prop :=
  letter ∈ ['0', 'r', 'u'] ∧ ['\\', letter] <+: shown isHidden '"' c

/-- Is the character displayed as it can be read? -/
def Text.Readable (c : Char) : Prop := ∀ letter, ¬ StrangeAs c letter

/-- A readable character is displayed as it is spelled. -/
theorem Text.Readable.shown_eq {c : Char} (h : Readable c) :
    shown isHidden '"' c = (Piece.ofChar c).written := by
  have hspec := shown_spec isHidden c
  generalize htext : shown isHidden '"' c = text at hspec
  cases hspec with
  | @named letter hmem =>
    simp only [namedEscapes, List.mem_cons, Prod.mk.injEq, List.not_mem_nil, or_false] at hmem
    have hstrange : letter ∉ ['0', 'r', 'u'] := fun hletter =>
      h letter ⟨hletter, by rw [htext]⟩
    rcases hmem with ⟨rfl, rfl⟩ | ⟨rfl, rfl⟩ | ⟨rfl, rfl⟩ | ⟨rfl, rfl⟩ | ⟨rfl, rfl⟩ | ⟨rfl, rfl⟩
    · exact absurd (by decide) hstrange
    · rfl
    · rfl
    · exact absurd (by decide) hstrange
    · rfl
    · rfl
  | codePoint _ _ =>
    refine absurd ⟨by decide, ?_⟩ (h 'u')
    rw [htext]
    exact ⟨_, rfl⟩
  | itself hnamed _ =>
    have hplain : isPlain c = true := by
      rw [isPlain_iff]
      refine ⟨?_, ?_, ?_⟩ <;> rintro rfl <;> exact hnamed (by decide)
    have htab : c ≠ '\t' := by
      rintro rfl
      exact hnamed (by decide)
    rw [Piece.ofChar_of_isPlain hplain htab]
    rfl

theorem Text.StrangeAs.ofLetter?_eq {c letter : Char} (h : StrangeAs c letter) :
    Escape.ofLetter? letter = none := by
  obtain ⟨hletter, -⟩ := h
  simp only [List.mem_cons, List.not_mem_nil, or_false] at hletter
  rcases hletter with rfl | rfl | rfl
  · rfl
  · rfl
  · rfl

theorem Text.flatMap_shown_eq {cs : List Char} (h : ∀ c ∈ cs, Readable c) :
    cs.flatMap (shown isHidden '"') = (cs.map Piece.ofChar).flatMap Piece.written := by
  rw [List.flatMap_map]
  exact List.flatMap_congr fun c hc => (h c hc).shown_eq

/-- A text that is not readable throughout has a first strange character. -/
theorem Text.exists_first_strange {cs : List Char} (h : ¬ ∀ c ∈ cs, Readable c) :
    ∃ before c after letter, cs = before ++ c :: after ∧ (∀ d ∈ before, Readable d) ∧
      StrangeAs c letter := by
  induction cs with
  | nil => simp at h
  | cons c cs ih =>
    by_cases hc : Readable c
    · obtain ⟨before, d, after, letter, rfl, hbefore, hd⟩ := ih fun hcs =>
        h (List.forall_mem_cons.mpr ⟨hc, hcs⟩)
      exact ⟨c :: before, d, after, letter, rfl, List.forall_mem_cons.mpr ⟨hc, hbefore⟩, hd⟩
    · obtain ⟨letter, hletter⟩ := not_forall.mp hc
      exact ⟨[], c, cs, letter, rfl, by simp, not_not.mp hletter⟩

/-! ## Literals -/

/-- Is the literal displayed as it can be read? -/
def Literal.Readable (l : Literal) : Prop :=
  ∀ s, l = .value (.string s) → ∀ c ∈ s.toList, Text.Readable c

/-- A readable literal is displayed as it is spelled. -/
theorem Literal.Readable.display_eq_spelling {l : Literal} (h : l.Readable) :
    l.display = l.spelling := by
  match l with
  | .value (.bool _) => rfl
  | .value (.int _) => rfl
  | .nothing => rfl
  | .value (.string s) =>
    rw [← String.toList_inj, toList_spelling_string, quoteBody, String.toList_ofList,
      ← List.flatMap_map, ← flatMap_shown_eq (h s rfl)]
    exact String.toList_ofList

theorem Literal.Readable.literals_eq {l : Literal} (h : l.Readable) (file : Option String) :
    (Source.mk file l.display).literals = .ok [l] := by
  obtain ⟨htokens, hfault⟩ := (Entry.spelled [] l .nil).read_alone file
  have htext : String.ofList (Entry.spelled [] l .nil).text = l.display := by
    rw [h.display_eq_spelling]
    exact String.ofList_toList
  rw [htext] at htokens hfault
  rw [Source.literals_eq_ok_iff, htokens]
  exact ⟨hfault, rfl⟩

/-- What is read of a string with a strange character behind readable ones. -/
theorem Text.StrangeAs.read_eq {s : String} {before after : List Char} {c letter : Char}
    (h : StrangeAs c letter) (hs : s.toList = before ++ c :: after)
    (hbefore : ∀ d ∈ before, Readable d) (file : Option String) :
    (Source.mk file (Literal.value (.string s)).display).read.tokens = [] ∧
      (Source.mk file (Literal.value (.string s)).display).read.fault =
        some ⟨.unknownEscape letter, utf8Length ('"' :: before.flatMap (shown isHidden '"')),
          ["string"]⟩ := by
  have hvalid : ∀ p ∈ before.map Piece.ofChar, p.Valid := by
    intro p hp
    obtain ⟨d, -, rfl⟩ := List.mem_map.mp hp
    exact Piece.valid_ofChar d
  obtain ⟨more, hmore⟩ := h.2
  have habout : Complaint.About ⟨.unknownEscape letter,
      '"' :: before.flatMap (shown isHidden '"'), ["string"]⟩
      ('"' :: (before.flatMap (shown isHidden '"') ++ ['\\', letter]))
      (more ++ (after.flatMap (shown isHidden '"') ++ ['"'])) := by
    rw [flatMap_shown_eq hbefore]
    exact .escape hvalid h.ofLetter?_eq
  have htext : (Source.mk file (Literal.value (.string s)).display).start.rest =
      [] ++ ('"' :: (before.flatMap (shown isHidden '"') ++ ['\\', letter]) ++
        (more ++ (after.flatMap (shown isHidden '"') ++ ['"']))) := by
    show (String.ofList _).toList = _
    rw [String.toList_ofList, hs, List.flatMap_append, List.flatMap_cons, ← hmore]
    simp
  have hstep := Cursor.step_of_about htext .nil habout
  rw [Source.read_eq, Cursor.read_of_fault (congrArg Step.answer hstep)]
  refine ⟨rfl, ?_⟩
  show some (Fault.mk _ (0 + 0 + _) _) = _
  rw [Nat.zero_add]

/-- What is wrong with a displayed string with a strange character behind readable ones. -/
theorem Text.StrangeAs.literals_eq {s : String} {before after : List Char} {c letter : Char}
    (h : StrangeAs c letter) (hs : s.toList = before ++ c :: after)
    (hbefore : ∀ d ∈ before, Readable d) (file : Option String) :
    ∃ d, (Source.mk file (Literal.value (.string s)).display).literals = .error d ∧
      d.cause = .unknownEscape letter ∧
      d.position? = some ⟨0, 1 + (before.flatMap (shown isHidden '"')).length⟩ := by
  obtain ⟨-, hfault⟩ := h.read_eq hs hbefore file
  refine ⟨_, Source.literals_eq_error_iff.mpr ⟨_, hfault, rfl⟩, by rw [Source.diagnose_eq], ?_⟩
  have hline : '\n' ∉ '"' :: before.flatMap (shown isHidden '"') := by
    have hchars : ∀ d, '\n' ∉ shown isHidden '"' d := lineFeed_notMem_shown isHidden (by decide)
    simp [hchars]
  have htext : (Source.mk file (Literal.value (.string s)).display).text.toList =
      '"' :: before.flatMap (shown isHidden '"') ++
        ((c :: after).flatMap (shown isHidden '"') ++ ['"']) := by
    show (String.ofList _).toList = _
    rw [String.toList_ofList, hs, List.flatMap_append]
    simp
  rw [Source.position?_diagnose htext (by simp) rfl, List.count_eq_zero_of_not_mem hline,
    lastLine_of_notMem hline, List.length_cons, Nat.add_comm]

/-- **When a displayed literal can be read back.** Exactly if it has no strange character: then the
source that is its display has this one literal. Behind readable characters the first strange one
decides: nothing is read, and what is wrong is that its escape is unknown, in the first line, at the
column of the backslash, which stands behind the quote and what is shown of the characters in
front. -/
theorem displayed_reads_back (file : Option String) (l : Literal) :
    ((Source.mk file l.display).literals = .ok [l] ↔ l.Readable) ∧
    ∀ (s : String) (before after : List Char) (c letter : Char), l = .value (.string s) →
      s.toList = before ++ c :: after → (∀ d ∈ before, Readable d) → StrangeAs c letter →
      (Source.mk file l.display).read.tokens = [] ∧
      ∃ d, (Source.mk file l.display).literals = .error d ∧ d.cause = .unknownEscape letter ∧
        d.position? = some ⟨0, 1 + (before.flatMap (shown isHidden '"')).length⟩ := by
  refine ⟨⟨fun h => ?_, fun h => h.literals_eq file⟩, ?_⟩
  · rintro s rfl
    by_contra hstrange
    obtain ⟨before, c, after, letter, hs, hbefore, hc⟩ := exists_first_strange hstrange
    obtain ⟨d, hd, -⟩ := hc.literals_eq hs hbefore file
    cases h.symm.trans hd
  · rintro s before after c letter rfl hs hbefore hc
    exact ⟨(hc.read_eq hs hbefore file).1, hc.literals_eq hs hbefore file⟩

/-- A tab and a quote, which are read back, and behind them a character that is not. -/
theorem displayed_reads_back_of_carriage_return :
    (Source.mk none (Literal.value (.string "\t\"")).display).literals =
      .ok [.value (.string "\t\"")] ∧
    (Source.mk none (Literal.value (.string "\t\"\r1")).display).read.tokens = [] ∧
    ∃ d, (Source.mk none (Literal.value (.string "\t\"\r1")).display).literals = .error d ∧
      d.cause = .unknownEscape 'r' ∧ d.position? = some ⟨0, 5⟩ := by
  have hreadable : ∀ c ∈ ['\t', '"'], Readable c := by
    intro c hc letter ⟨hletter, hshown⟩
    simp only [List.mem_cons, List.not_mem_nil, or_false] at hc hletter
    obtain ⟨more, hmore⟩ := hshown
    rcases hc with rfl | rfl <;> rcases hletter with rfl | rfl | rfl <;> cases hmore
  have hstrange : StrangeAs '\r' 'r' := ⟨by decide, ⟨[], rfl⟩⟩
  refine ⟨(displayed_reads_back none _).1.mpr fun s hs => ?_,
    (displayed_reads_back none _).2 "\t\"\r1" ['\t', '"'] ['1'] '\r' 'r' rfl rfl hreadable
      hstrange⟩
  obtain rfl : "\t\"" = s := Value.string.inj (Literal.value.inj hs)
  exact hreadable

end LiteralPool
