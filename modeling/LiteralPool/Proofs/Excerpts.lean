import LiteralPool.Proofs.Places

/-!
# Excerpts

`Text.LineAround` cuts a text around one of its places: the line there, in two parts, and what is in
front of the line and behind it.

**Theorem (`excerpts_are_exact`).** An offset has an excerpt exactly if it is the offset of a place
inside the text, or of the end of a text whose last line is not ended. The excerpt is the line
around the place, and its position counts the line feeds in front of the place and the characters of
the line up to there. Further on in the text positions come later, so no two places share one.

Places are told by what stands in front of them. An excerpt comes from such a place
(`exists_of_excerptFrom`), and the position of a place is a function of the text in front of it that
grows with every character (`key_behind_lt`): a line feed begins a further line, and any other
character makes the last line longer.

The search goes on with the offset that is left behind each line. `searchFrom` goes on with the
offset at which the next line begins instead, and has to subtract it at the end; this never fails
(`searchFrom_eq`), because no line is passed that the offset does not lie behind.
-/

namespace LiteralPool

namespace Text

/-! ## Lines and places -/

/-- A text cut around one of its places: the line there is `left ++ right`. -/
structure LineAround (cs front left right back : List Char) : Prop where
  text : cs = front ++ left ++ (right ++ back)
  begins : front = [] ∨ front.getLast? = some '\n'
  ends : back = [] ∨ back.head? = some '\n'
  oneLine : '\n' ∉ left ++ right

theorem lastLine_append_of_notMem (cs : List Char) {ds : List Char} (h : '\n' ∉ ds) :
    lastLine (cs ++ ds) = lastLine cs ++ ds := by
  induction cs using linewise with
  | last cs hcs =>
    have hall : '\n' ∉ cs ++ ds := by simp [hcs, h]
    rw [lastLine_of_notMem hall, lastLine_of_notMem hcs]
  | line l cs _ ih =>
    rw [List.append_assoc, List.cons_append, lastLine_append, lastLine_append, ih]

theorem lastLine_eq_nil_iff {cs : List Char} :
    lastLine cs = [] ↔ cs = [] ∨ cs.getLast? = some '\n' := by
  induction cs using List.reverseRecOn with
  | nil => simp [lastLine]
  | append_singleton cs c =>
    by_cases hc : c = '\n'
    · subst hc
      simp [lastLine]
    · have hone : '\n' ∉ [c] := by simpa using Ne.symm hc
      simp [lastLine_append_of_notMem cs hone, hc]

/-- What is in front of the last line of a text. -/
theorem exists_lastLine (cs : List Char) :
    ∃ front, cs = front ++ lastLine cs ∧ (front = [] ∨ front.getLast? = some '\n') ∧
      '\n' ∉ lastLine cs := by
  induction cs using linewise with
  | last cs hcs =>
    rw [lastLine_of_notMem hcs]
    exact ⟨[], rfl, .inl rfl, hcs⟩
  | line l cs _ ih =>
    obtain ⟨front, hcs, hfront, hline⟩ := ih
    rw [lastLine_append]
    refine ⟨l ++ '\n' :: front, ?_, .inr ?_, hline⟩
    · rw [List.append_assoc, List.cons_append, ← hcs]
    · rcases hfront with rfl | hfront
      · simp
      · simp [List.getLast?_cons, hfront]

/-- What is behind the first line of a text. -/
theorem exists_firstLine (cs : List Char) :
    ∃ back, cs = firstLine cs ++ back ∧ (back = [] ∨ back.head? = some '\n') ∧
      '\n' ∉ firstLine cs := by
  refine ⟨cs.dropWhile (· != '\n'), List.takeWhile_append_dropWhile.symm, ?_, ?_⟩
  · cases hback : cs.dropWhile (· != '\n') with
    | nil => exact .inl rfl
    | cons c back =>
      have hc : (c != '\n') = false := head_dropWhile (p := (· != '\n')) cs c (by simp [hback])
      exact .inr (congrArg some (by simpa using hc))
  · intro h
    have hline := List.mem_takeWhile_imp h
    cases hline

theorem exists_lineAround {cs before rest : List Char} (h : cs = before ++ rest) :
    ∃ front back, LineAround cs front (lastLine before) (firstLine rest) back ∧
      before = front ++ lastLine before ∧ rest = firstLine rest ++ back := by
  obtain ⟨front, hbefore, hbegins, hleft⟩ := exists_lastLine before
  obtain ⟨back, hrest, hends, hright⟩ := exists_firstLine rest
  refine ⟨front, back, ⟨?_, hbegins, hends, by simp [hleft, hright]⟩, hbefore, hrest⟩
  rw [← hbefore, ← hrest]
  exact h

namespace LineAround

variable {cs front left right back : List Char}

theorem lastLine_eq (h : LineAround cs front left right back) :
    lastLine (front ++ left) = left := by
  have hleft : '\n' ∉ left := fun hmem => h.oneLine (List.mem_append_left _ hmem)
  have hfront : lastLine front = [] := lastLine_eq_nil_iff.mpr h.begins
  rw [lastLine_append_of_notMem front hleft, hfront, List.nil_append]

theorem firstLine_eq (h : LineAround cs front left right back) :
    firstLine (right ++ back) = right := by
  have hright : '\n' ∉ right := fun hmem => h.oneLine (List.mem_append_right _ hmem)
  rw [firstLine_append hright]
  rcases h.ends with rfl | hback
  · exact List.append_nil right
  · obtain ⟨more, rfl⟩ := List.head?_eq_some_iff.mp hback
    exact List.append_nil right

end LineAround

/-! ## Where an excerpt comes from -/

theorem append_of_columnFrom {count bytes n : Nat} {cs : List Char}
    (h : columnFrom count bytes cs = some n) :
    ∃ before rest, cs = before ++ rest ∧ bytes = utf8Length before := by
  induction cs generalizing count bytes with
  | nil =>
    cases bytes with
    | zero => exact ⟨[], [], rfl, rfl⟩
    | succ bytes => cases h
  | cons c cs ih =>
    cases bytes with
    | zero => exact ⟨[], c :: cs, rfl, rfl⟩
    | succ bytes =>
      rw [columnFrom] at h
      split_ifs at h with hfits
      obtain ⟨before, rest, rfl, hbytes⟩ := ih h
      refine ⟨c :: before, rest, rfl, ?_⟩
      rw [utf8Length_cons]
      omega

theorem exists_of_excerptFrom {line offset : Nat} {cs : List Char} {e : Excerpt}
    (h : excerptFrom line offset cs = some e) :
    ∃ before rest, cs = before ++ rest ∧ offset = utf8Length before ∧
      lastLine before ++ rest ≠ [] := by
  induction cs using linewise generalizing line offset with
  | last cs hcs =>
    have hne : cs ≠ [] := by
      rintro rfl
      rw [excerptFrom_nil] at h
      cases h
    rw [excerptFrom_last line offset hcs hne] at h
    split_ifs at h with hsize
    obtain ⟨col, hcol, -⟩ := Option.map_eq_some_iff.mp h
    obtain ⟨before, rest, rfl, hbefore⟩ := append_of_columnFrom hcol
    have hline : '\n' ∉ before := fun hmem => hcs (List.mem_append_left _ hmem)
    refine ⟨before, rest, rfl, hbefore, ?_⟩
    rwa [lastLine_of_notMem hline]
  | line l cs hl ih =>
    rw [excerptFrom_line line offset hl] at h
    split_ifs at h with hsize
    · obtain ⟨col, hcol, -⟩ := Option.map_eq_some_iff.mp h
      obtain ⟨before, rest, rfl, hbefore⟩ := append_of_columnFrom hcol
      exact ⟨before, rest ++ '\n' :: cs, by simp, hbefore, by simp⟩
    · obtain ⟨before, rest, rfl, hbefore, hne⟩ := ih h
      refine ⟨l ++ '\n' :: before, rest, by simp, ?_, by rwa [lastLine_append]⟩
      have hfeed : '\n'.utf8Size = 1 := rfl
      rw [utf8Length_append, utf8Length_cons, hfeed]
      omega

/-! ## The search with the beginnings of lines -/

/-- The number of bytes from `start` to `offset`, if `start` is not beyond it. -/
def distance? (start offset : Nat) : Option Nat :=
  if start ≤ offset then some (offset - start) else none

/-- The search in lines of which the first begins at `start`. There is no answer if an offset is
found in a line that begins beyond it. -/
def searchFrom (line start offset : Nat) (cs : List Char) : Option (Option Excerpt) :=
  if h : cs = [] then some none
  else
    let here := firstLine cs
    let stop := start + utf8Length here
    if offset ≤ stop then
      (distance? start offset).map fun bytes =>
        (column? bytes here).map fun col => ⟨⟨line, col⟩, String.ofList here⟩
    else searchFrom (line + 1) (stop + 1) offset (laterLines cs)
termination_by cs.length
decreasing_by exact length_laterLines_lt h

/-- The search always has an answer, which is the excerpt. -/
theorem searchFrom_eq {line start offset : Nat} {cs : List Char} (h : start ≤ offset) :
    searchFrom line start offset cs = some (excerptFrom line (offset - start) cs) := by
  fun_induction searchFrom line start offset cs with
  | case1 line start => rw [excerptFrom_nil]
  | case2 line start cs hne here stop hstop =>
    have hsize : offset - start ≤ utf8Length here := by omega
    rw [excerptFrom, dif_neg hne]
    simp only [distance?, if_pos h, Option.map_some]
    rw [if_pos hsize]
  | case3 line start cs hne here stop hstop ih =>
    have hsize : ¬ offset - start ≤ utf8Length here := by omega
    have hleft : offset - start - (utf8Length here + 1) = offset - (stop + 1) := by omega
    rw [ih (by omega), excerptFrom.eq_def line (offset - start), dif_neg hne]
    simp only
    rw [if_neg hsize, hleft]

end Text

open Text

/-- The excerpt of an offset, searched for with the beginnings of lines. -/
def Source.search (s : Source) (offset : Nat) : Option (Option Excerpt) :=
  searchFrom 0 0 offset s.text.toList

theorem Source.excerpt?_eq_some_iff {s : Source} {offset : Nat} {e : Excerpt} :
    s.excerpt? offset = some e ↔ ∃ before rest, s.text.toList = before ++ rest ∧
      offset = utf8Length before ∧ lastLine before ++ rest ≠ [] ∧
      e = ⟨⟨before.count '\n', (lastLine before).length⟩,
        String.ofList (lastLine before ++ firstLine rest)⟩ := by
  constructor
  · intro h
    obtain ⟨before, rest, hs, rfl, hne⟩ := exists_of_excerptFrom h
    exact ⟨before, rest, hs, rfl, hne, Option.some.inj (h.symm.trans (excerpt?_eq hs hne))⟩
  · rintro ⟨before, rest, hs, rfl, hne, rfl⟩
    exact excerpt?_eq hs hne

/-- The excerpt is the line around the place. -/
theorem Source.excerpt?_eq_some_iff_lineAround {s : Source} {offset : Nat} {e : Excerpt} :
    s.excerpt? offset = some e ↔ ∃ front left right back,
      LineAround s.text.toList front left right back ∧ left ++ right ++ back ≠ [] ∧
      offset = utf8Length (front ++ left) ∧
      e = ⟨⟨(front ++ left).count '\n', left.length⟩, String.ofList (left ++ right)⟩ := by
  rw [excerpt?_eq_some_iff]
  constructor
  · rintro ⟨before, rest, hs, rfl, hne, rfl⟩
    obtain ⟨front, back, haround, hbefore, hrest⟩ := exists_lineAround hs
    refine ⟨front, _, _, back, haround, ?_, ?_, ?_⟩
    · rwa [List.append_assoc, ← hrest]
    · rw [← hbefore]
    · rw [← hbefore]
  · rintro ⟨front, left, right, back, haround, hne, rfl, rfl⟩
    refine ⟨front ++ left, right ++ back, haround.text, rfl, ?_, ?_⟩
    · rwa [haround.lastLine_eq, ← List.append_assoc]
    · rw [haround.lastLine_eq, haround.firstLine_eq]

/-! ## Which offsets have an excerpt -/

theorem Text.isValid_iff {text : String} {offset : Nat} :
    (⟨offset⟩ : String.Pos.Raw).IsValid text ↔
      ∃ before rest, text.toList = before ++ rest ∧ offset = utf8Length before := by
  rw [String.Pos.Raw.isValid_iff_exists_append]
  constructor
  · rintro ⟨s, t, rfl, hoffset⟩
    refine ⟨s.toList, t.toList, String.toList_append, ?_⟩
    rw [← utf8ByteSize_ofList_eq, String.ofList_toList]
    exact congrArg String.Pos.Raw.byteIdx hoffset
  · rintro ⟨before, rest, htext, rfl⟩
    refine ⟨String.ofList before, String.ofList rest, ?_, ?_⟩
    · rw [← String.ofList_append, ← htext, String.ofList_toList]
    · rw [← utf8ByteSize_ofList_eq]
      rfl

/-- A place has a line if it is in front of a character or behind a last line that is not ended. -/
theorem Text.lastLine_append_ne_nil_iff {text : String} {before rest : List Char}
    (h : text.toList = before ++ rest) :
    lastLine before ++ rest ≠ [] ↔ utf8Length before < text.utf8ByteSize ∨
      utf8Length before = text.utf8ByteSize ∧ text ≠ "" ∧ text.toList.getLast? ≠ some '\n' := by
  have hsize : text.utf8ByteSize = utf8Length before + utf8Length rest := by
    rw [← utf8Length_append, ← h, ← utf8ByteSize_ofList_eq, String.ofList_toList]
  have hempty : text = "" ↔ text.toList = [] := by
    rw [← String.toList_inj]
    rfl
  cases rest with
  | nil =>
    rw [List.append_nil] at h ⊢
    have hlast : lastLine before ≠ [] ↔ before ≠ [] ∧ before.getLast? ≠ some '\n' := by
      rw [ne_eq, lastLine_eq_nil_iff, not_or]
    simp only [hsize, utf8Length_nil, hempty, h, ne_eq, hlast, Nat.add_zero, Nat.lt_irrefl,
      false_or, true_and]
  | cons c rest =>
    have hpos := utf8Length_pos (List.cons_ne_nil c rest)
    have hlt : utf8Length before < text.utf8ByteSize := by omega
    simp [hlt]

theorem Source.isSome_excerpt?_iff {s : Source} {offset : Nat} :
    (s.excerpt? offset).isSome ↔ (⟨offset⟩ : String.Pos.Raw).IsValid s.text ∧
      (offset < s.text.utf8ByteSize ∨ offset = s.text.utf8ByteSize ∧ s.text ≠ "" ∧
        s.text.toList.getLast? ≠ some '\n') := by
  rw [Option.isSome_iff_exists, isValid_iff]
  constructor
  · rintro ⟨e, he⟩
    obtain ⟨before, rest, hs, rfl, hne, -⟩ := excerpt?_eq_some_iff.mp he
    exact ⟨⟨before, rest, hs, rfl⟩, (lastLine_append_ne_nil_iff hs).mp hne⟩
  · rintro ⟨⟨before, rest, hs, rfl⟩, hplace⟩
    exact ⟨_, excerpt?_eq hs ((lastLine_append_ne_nil_iff hs).mpr hplace)⟩

/-! ## Positions grow -/

/-- Positions in the order in which a text is read: by lines, and in a line by columns. -/
def Position.key (p : Position) : ℕ ×ₗ ℕ := toLex (p.line, p.col)

/-- The position behind a text. -/
def Position.behind (before : List Char) : Position :=
  ⟨before.count '\n', (lastLine before).length⟩

theorem Position.key_behind_lt (before : List Char) {mid : List Char} (h : mid ≠ []) :
    (behind before).key < (behind (before ++ mid)).key := by
  rw [key, key, Prod.Lex.toLex_lt_toLex]
  simp only [behind, List.count_append]
  by_cases hfeed : '\n' ∈ mid
  · have hcount := List.count_pos_iff.mpr hfeed
    exact .inl (by omega)
  · have hlength := List.length_pos_iff.mpr h
    rw [List.count_eq_zero_of_not_mem hfeed, lastLine_append_of_notMem before hfeed,
      List.length_append]
    exact .inr ⟨rfl, by omega⟩

/-- Of two places in a text, the one with the greater offset has the greater position. -/
theorem Position.key_lt_key {before rest before' rest' : List Char}
    (h : before ++ rest = before' ++ rest') (hlt : utf8Length before < utf8Length before') :
    (behind before).key < (behind before').key := by
  rcases List.append_eq_append_iff.mp h with ⟨mid, rfl, -⟩ | ⟨mid, rfl, -⟩
  · refine key_behind_lt before ?_
    rintro rfl
    rw [List.append_nil] at hlt
    exact Nat.lt_irrefl _ hlt
  · rw [utf8Length_append] at hlt
    omega

theorem Source.key_lt_key {s : Source} {o o' : Nat} {e e' : Excerpt}
    (h : s.excerpt? o = some e) (h' : s.excerpt? o' = some e') (hlt : o < o') :
    e.position.key < e'.position.key := by
  obtain ⟨before, rest, hs, rfl, -, rfl⟩ := excerpt?_eq_some_iff.mp h
  obtain ⟨before', rest', hs', rfl, -, rfl⟩ := excerpt?_eq_some_iff.mp h'
  exact Position.key_lt_key (hs.symm.trans hs') hlt

/-- **Excerpts are exact.** An offset has one exactly if it is between characters, and in front of
one of them or at the end of a text whose last line is not ended. It is the line around the place,
with the line feeds in front of the place and the characters of the line up to there counted. The
beginnings of lines can be subtracted all along the search. And positions grow with the offsets that
have an excerpt, so no two of these share a position. -/
theorem excerpts_are_exact (s : Source) :
    (∀ offset, (s.excerpt? offset).isSome ↔ (⟨offset⟩ : String.Pos.Raw).IsValid s.text ∧
      (offset < s.text.utf8ByteSize ∨ offset = s.text.utf8ByteSize ∧ s.text ≠ "" ∧
        s.text.toList.getLast? ≠ some '\n')) ∧
    (∀ offset e, s.excerpt? offset = some e ↔ ∃ front left right back,
      LineAround s.text.toList front left right back ∧ left ++ right ++ back ≠ [] ∧
      offset = utf8Length (front ++ left) ∧
      e = ⟨⟨(front ++ left).count '\n', left.length⟩, String.ofList (left ++ right)⟩) ∧
    (∀ offset, s.search offset = some (s.excerpt? offset)) ∧
    ∀ o o' e e', s.excerpt? o = some e → s.excerpt? o' = some e' →
      (o < o' ↔ e.position.key < e'.position.key) ∧ (o = o' ↔ e.position = e'.position) := by
  refine ⟨fun offset => Source.isSome_excerpt?_iff,
    fun offset e => Source.excerpt?_eq_some_iff_lineAround,
    fun offset => searchFrom_eq (Nat.zero_le offset), fun o o' e e' h h' => ?_⟩
  rcases lt_trichotomy o o' with hlt | rfl | hgt
  · have hkey := Source.key_lt_key h h' hlt
    refine ⟨iff_of_true hlt hkey, iff_of_false hlt.ne fun hpos => ?_⟩
    rw [hpos] at hkey
    exact lt_irrefl _ hkey
  · obtain rfl := Option.some.inj (h.symm.trans h')
    exact ⟨iff_of_false (lt_irrefl _) (lt_irrefl _), iff_of_true rfl rfl⟩
  · have hkey := Source.key_lt_key h' h hgt
    refine ⟨iff_of_false hgt.not_gt hkey.not_gt, iff_of_false hgt.ne' fun hpos => ?_⟩
    rw [hpos] at hkey
    exact lt_irrefl _ hkey

/-- The end of a line behind a character of two bytes, and the beginning of the next line. -/
theorem excerpts_around_line_feed :
    Source.excerpt? ⟨none, "é\n?"⟩ 2 = some ⟨⟨0, 1⟩, "é"⟩ ∧
    Source.excerpt? ⟨none, "é\n?"⟩ 3 = some ⟨⟨1, 0⟩, "?"⟩ ∧
    (2 < 3 ↔ Position.key ⟨0, 1⟩ < Position.key ⟨1, 0⟩) := by
  obtain ⟨-, hexact, -, hgrow⟩ := excerpts_are_exact ⟨none, "é\n?"⟩
  have hend : Source.excerpt? ⟨none, "é\n?"⟩ 2 = some ⟨⟨0, 1⟩, "é"⟩ :=
    (hexact 2 _).mpr ⟨[], ['é'], [], ['\n', '?'], ⟨rfl, .inl rfl, .inr rfl, by decide⟩, by decide,
      rfl, rfl⟩
  have hbegin : Source.excerpt? ⟨none, "é\n?"⟩ 3 = some ⟨⟨1, 0⟩, "?"⟩ :=
    (hexact 3 _).mpr ⟨['é', '\n'], [], ['?'], [], ⟨rfl, .inr rfl, .inl rfl, by decide⟩, by decide,
      rfl, rfl⟩
  exact ⟨hend, hbegin, (hgrow 2 3 _ _ hend hbegin).1⟩

end LiteralPool
