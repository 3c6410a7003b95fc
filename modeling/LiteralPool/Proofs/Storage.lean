import Mathlib
import LiteralPool.DataSection
import LiteralPool.Proofs.Constants
import LiteralPool.Proofs.Directives
import LiteralPool.Proofs.Listings

/-!
# A listing and the data section behind it

A listing is made while the pool still grows, and the data section when it has grown. **They agree**
(`listing_agrees`): look up in the text of the data section the label that a line of the listing
names, and read the directives behind it up to the next alignment; they store the literal that the
line shows. The label is found in one place only, because labels belong to one value each and
because no text of another line looks like it.

The reading starts from the text alone. That the lines of the text are the lines that were meant is
`lines_dataSection`; that a directive read back is the one that was written is `Line.ofText?_text`.
-/

namespace LiteralPool

open Text

/-! ## Stored values -/

/-- The value that directives store under the label with number `n`. The first two labels are those
of the Booleans. -/
def Value.ofStored? (n : Nat) : List Line → Option Value
  | [.word w] =>
    if 2 ≤ n then some (.int w)
    else if w = 0 then some (.bool false)
    else if w = 1 then some (.bool true)
    else none
  | [.word w, .string s] => if w.toInt = s.utf8ByteSize then some (.string s) else none
  | _ => none

/-- The value that the texts of directives store under the label with number `n`. -/
def Value.ofBlock? (n : Nat) (block : List String) : Option Value :=
  (block.mapM Line.ofText?).bind (Value.ofStored? n)

/-- A string whose length fits in a word. -/
def Value.Fits : Value → Prop
  | .string s => s.utf8ByteSize < 2147483648
  | _ => True

/-- The length word of a string is its size, or the largest word. -/
theorem toInt_lengthWord (s : String) :
    (lengthWord s).toInt = (min s.utf8ByteSize 2147483647 : Nat) := by
  have hmax : Int32.maxValue.toInt = 2147483647 := rfl
  have hmin : Int32.minValue.toInt = -2147483648 := rfl
  have hsize : (0 : Int) ≤ s.utf8ByteSize := Int.natCast_nonneg _
  rw [lengthWord, hmax, Int32.toInt_ofInt_of_le]
  · omega
  · omega
  · omega

/-- Does the line hold part of a value? -/
def Line.holdsValue : Line → Bool
  | word _ => true
  | string _ => true
  | _ => false

namespace Pool

variable {p : Pool}

theorem two_le_suffix {v : Value} {l : Label} (h : p.label? v = some l) (hv : v.isBool = false) :
    2 ≤ l.suffix := by
  by_contra hlt
  have hbool : ∃ b, l = .ofBool b := by
    obtain ⟨k⟩ := l
    have hk : k = 0 ∨ k = 1 := by
      simp only at hlt
      omega
    rcases hk with rfl | rfl
    · exact ⟨false, rfl⟩
    · exact ⟨true, rfl⟩
  obtain ⟨b, rfl⟩ := hbool
  have heq : v = .bool b := p.eq_of_label_eq h (p.label?_bool b)
  rw [heq] at hv
  cases hv

/-- Reading what was stored for a value yields the value. -/
theorem ofStored?_stored {v : Value} {l : Label} (h : p.label? v = some l) (hv : v.Fits) :
    Value.ofStored? l.suffix v.stored = some v := by
  cases v with
  | bool b =>
    obtain rfl : Label.ofBool b = l := Option.some.inj ((p.label?_bool b).symm.trans h)
    cases b <;> rfl
  | int n => exact if_pos (p.two_le_suffix h rfl)
  | string s =>
    have hsize : (lengthWord s).toInt = s.utf8ByteSize := by
      rw [toInt_lengthWord, Nat.min_eq_left (Nat.le_of_lt_succ hv)]
    exact if_pos hsize

/-! ## The lines of the data section -/

theorem holdsValue_of_mem_stored {v : Value} {x : Line} (h : x ∈ v.stored) :
    x.holdsValue = true := by
  cases v with
  | bool b =>
    rw [List.mem_singleton.mp h]
    rfl
  | int n =>
    rw [List.mem_singleton.mp h]
    rfl
  | string s =>
    rcases List.mem_cons.mp h with h | h
    · rw [h]
      rfl
    · rw [List.mem_singleton.mp h]
      rfl

/-- What a constant takes besides its alignment and its label holds its value. -/
theorem mem_lines_constant {c : Constant} {x : Line} (h : x ∈ c.lines) :
    x = .align 2 ∨ x = .label c.label ∨ x.holdsValue = true := by
  rcases List.mem_cons.mp h with h | h
  · exact .inl h
  · rcases List.mem_cons.mp h with h | h
    · exact .inr (.inl h)
    · exact .inr (.inr (holdsValue_of_mem_stored h))

/-- There are no comments, so the lines of the text are the lines of the section. -/
theorem lines_dataSection (p : Pool) :
    Text.lines p.dataSection.text = p.dataSection.lines.map Line.text := by
  apply Assembly.lines_text
  intro t ht
  rcases List.mem_cons.mp ht with h | h
  · cases h
  · obtain ⟨c, -, hc⟩ := List.mem_flatMap.mp h
    rcases mem_lines_constant hc with h | h | h
    · cases h
    · cases h
    · cases h

/-- A label is not among the constants in front of its own, nor among those behind it. -/
theorem label_notMem_flatMap {l : Label} {cs : List Constant} (h : ∀ c ∈ cs, c.label ≠ l) :
    .label l ∉ cs.flatMap Constant.lines := by
  intro hmem
  obtain ⟨c, hc, hx⟩ := List.mem_flatMap.mp hmem
  rcases mem_lines_constant hx with hx | hx | hx
  · cases hx
  · exact h c hc (Line.label.inj hx).symm
  · cases hx

/-- The block of a value stands under its label, and the label stands nowhere else. -/
theorem exists_block {v : Value} {l : Label} (h : p.label? v = some l) :
    ∃ before after, p.dataSection.lines =
        before ++ .align 2 :: .label l :: (v.stored ++ after) ∧
      .label l ∉ before ∧ .label l ∉ after ∧ ∀ x ∈ after.head?, x = .align 2 := by
  obtain ⟨cs, ds, hcs⟩ := List.append_of_mem (mem_constants.mpr h : ⟨l, v⟩ ∈ p.constants)
  have hsorted := p.pairwise_constants
  rw [hcs] at hsorted
  obtain ⟨-, hds, hcross⟩ := List.pairwise_append.mp hsorted
  have hbefore : ∀ c ∈ cs, c.label ≠ l := by
    intro c hc hcl
    have hlt : c.label.suffix < l.suffix := hcross c hc ⟨l, v⟩ (by simp)
    rw [hcl] at hlt
    exact Nat.lt_irrefl _ hlt
  have hafter : ∀ c ∈ ds, c.label ≠ l := by
    intro c hc hcl
    have hlt : l.suffix < c.label.suffix := (List.pairwise_cons.mp hds).1 c hc
    rw [hcl] at hlt
    exact Nat.lt_irrefl _ hlt
  refine ⟨.data :: cs.flatMap Constant.lines, ds.flatMap Constant.lines, ?_, ?_,
    label_notMem_flatMap hafter, ?_⟩
  · rw [dataSection, hcs, List.flatMap_append, List.flatMap_cons]
    rfl
  · rw [List.mem_cons, not_or]
    exact ⟨by simp, label_notMem_flatMap hbefore⟩
  · intro x hx
    cases ds with
    | nil => cases hx
    | cons d ds => exact (Option.some.inj hx).symm

/-- The text of the data section, read under the label of a value, yields the value. -/
theorem exists_block_text {v : Value} {l : Label} (h : p.label? v = some l) :
    ∃ before rest, Text.lines p.dataSection.text =
        before ++ "\t.align 2" :: (l.name ++ ":") :: rest ∧
      (Text.lines p.dataSection.text).count (l.name ++ ":") = 1 ∧
      (v.Fits → Value.ofBlock? l.suffix (rest.takeWhile (· != "\t.align 2")) = some v) := by
  obtain ⟨before, after, hlines, hbefore, hafter, hhead⟩ := exists_block h
  refine ⟨before.map Line.text, (v.stored ++ after).map Line.text, ?_, ?_, ?_⟩
  · rw [lines_dataSection, hlines, List.map_append]
    rfl
  · have hcount : (Text.lines p.dataSection.text).count (l.name ++ ":") =
        p.dataSection.lines.count (.label l) := by
      rw [lines_dataSection]
      exact List.count_map_of_injective _ _ Line.text_injective (.label l)
    have hstored : .label l ∉ v.stored := by
      intro hmem
      cases holdsValue_of_mem_stored hmem
    rw [hcount, hlines, List.count_append, List.count_cons, List.count_cons, List.count_append,
      List.count_eq_zero_of_not_mem hbefore, List.count_eq_zero_of_not_mem hstored,
      List.count_eq_zero_of_not_mem hafter]
    simp
  · intro hv
    -- No directive of the value looks like an alignment, and what follows them begins with one.
    have hvalue : ∀ t ∈ v.stored.map Line.text, (t != "\t.align 2") = true := by
      intro t ht
      obtain ⟨x, hx, rfl⟩ := List.mem_map.mp ht
      rw [bne_iff_ne]
      intro heq
      obtain rfl : x = .align 2 := Line.text_injective heq
      cases holdsValue_of_mem_stored hx
    have hnext : ∀ t ∈ (after.map Line.text).head?, (t != "\t.align 2") = false := by
      intro t ht
      rw [List.head?_map] at ht
      obtain ⟨x, hx, rfl⟩ := Option.map_eq_some_iff.mp ht
      rw [hhead x hx]
      rfl
    rw [List.map_append, (run_append hvalue hnext).1, Value.ofBlock?, Line.mapM_ofText?]
    exact ofStored?_stored h hv

/-- **A listing and the data section agree.** List any literals with a pool, whatever was requested
of it before. A line of the listing that names a label shows a value; in the text of the data
section that label stands on one line, under an alignment, and the directives behind it up to the
next alignment store that value, if its length fits in a word. The other lines of the listing are
those of `None`. And the text of the data section reads back line by line, whatever is in its
strings. -/
theorem listing_agrees (p : Pool) (literals : List Literal) :
    let listing := p.list literals
    let listed := Text.lines listing.text
    let data := Text.lines listing.pool.dataSection.text
    (∀ (i : Nat) x (l : Label), listed[i]? = some (x ++ " -> " ++ l.name) →
      ∃ v before rest, literals[i]? = some (.value v) ∧ x = v.display ∧
        data = before ++ "\t.align 2" :: (l.name ++ ":") :: rest ∧
        data.count (l.name ++ ":") = 1 ∧
        (v.Fits → Value.ofBlock? l.suffix (rest.takeWhile (· != "\t.align 2")) = some v)) ∧
    (∀ i : Nat, literals[i]? = some .nothing ↔ ∃ x, listed[i]? = some (x ++ " -> none")) ∧
    (∀ (i : Nat) v, literals[i]? = some (.value v) →
      ∃ l : Label, listed[i]? = some (v.display ++ " -> " ++ l.name)) ∧
    listed.length = literals.length ∧
    data.mapM Line.ofText? = some listing.pool.dataSection.lines := by
  intro listing listed data
  have hlisted : listed =
      literals.map fun l => listingLine l.display (listing.pool.labelOf? l) := p.lines_list literals
  have hlabel : ∀ {i : Nat} {v : Value}, literals[i]? = some (.value v) →
      ∃ l, listing.pool.label? v = some l := by
    intro i v h
    exact Option.isSome_iff_exists.mp (p.isSome_label?_list (List.mem_of_getElem? h))
  refine ⟨?_, ?_, ?_, ?_, ?_⟩
  · intro i x l h
    rw [hlisted, List.getElem?_map] at h
    obtain ⟨m, hm, hline⟩ := Option.map_eq_some_iff.mp h
    obtain ⟨hshown, hml⟩ := listingLine_inj (b := some l) hline
    cases m with
    | nothing => cases hml
    | value v =>
      obtain ⟨before, rest, hdata, hcount, hread⟩ := exists_block_text hml
      exact ⟨v, before, rest, hm, hshown.symm, hdata, hcount, hread⟩
  · intro i
    constructor
    · intro h
      refine ⟨"None", ?_⟩
      rw [hlisted, List.getElem?_map, h]
      rfl
    · intro ⟨x, h⟩
      rw [hlisted, List.getElem?_map] at h
      obtain ⟨m, hm, hline⟩ := Option.map_eq_some_iff.mp h
      have hnone : listingLine x none = x ++ " -> none" := String.append_assoc
      obtain ⟨-, hml⟩ := listingLine_inj (hline.trans hnone.symm)
      cases m with
      | nothing => exact hm
      | value v =>
        obtain ⟨l, hl⟩ := hlabel hm
        cases hl.symm.trans hml
  · intro i v h
    obtain ⟨l, hl⟩ := hlabel h
    refine ⟨l, ?_⟩
    have hline : listing.pool.labelOf? (.value v) = some l := hl
    rw [hlisted, List.getElem?_map, h, Option.map_some, hline]
    rfl
  · rw [hlisted, List.length_map]
  · show (Text.lines listing.pool.dataSection.text).mapM Line.ofText? = _
    rw [lines_dataSection, Line.mapM_ofText?]

/-- A string that spells a label and a directive is stored and read back as a string. -/
theorem listing_agrees_of_spelled_label :
    let data := Text.lines ((empty.after [.label]).list
      [.nothing, .value (.string "\nconst_1:\n\t.word 1")]).pool.dataSection.text
    ∃ l before rest, data = before ++ "\t.align 2" :: (Label.name l ++ ":") :: rest ∧
      data.count (l.name ++ ":") = 1 ∧
      Value.ofBlock? l.suffix (rest.takeWhile (· != "\t.align 2")) =
        some (.string "\nconst_1:\n\t.word 1") := by
  have hagrees := listing_agrees (empty.after [.label])
    [.nothing, .value (.string "\nconst_1:\n\t.word 1")]
  obtain ⟨l, hl⟩ := hagrees.2.2.1 1 _ rfl
  obtain ⟨v, before, rest, hv, -, hdata, hcount, hread⟩ := hagrees.1 1 _ l hl
  obtain rfl : Value.string "\nconst_1:\n\t.word 1" = v := Literal.value.inj (Option.some.inj hv)
  have hfits : (Value.string "\nconst_1:\n\t.word 1").Fits := by
    show "\nconst_1:\n\t.word 1".utf8ByteSize < 2147483648
    decide
  exact ⟨l, before, rest, hdata, hcount, hread hfits⟩

end Pool

end LiteralPool
