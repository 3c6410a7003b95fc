import Mathlib
import LiteralPool.Listing
import LiteralPool.Proofs.Lines
import LiteralPool.Proofs.Requests
import LiteralPool.Proofs.Written

/-!
# The lines of a listing

To list literals is to request them in order (`pool_list`), and each is listed with the answer to it
(`text_list_answers`). This is the label that the literal's value has in the pool at the end, since a
value keeps its label; so the whole listing can be written down from the literals and the last pool
alone (`text_list`).

A displayed literal is one line (`oneLine_display`), so the lines of the text are the lines that
were made (`lines_list`). And a line can be read from its end: the label there, or `none`, tells
what stands in front of it (`listingLine_inj`), even if a string contains an arrow of its own.
-/

namespace LiteralPool

open Text

/-- What a line of a listing says: a literal as it is shown, and the label of its value. -/
def listingLine (shown : String) (label : Option Label) : String :=
  shown ++ " -> " ++ label.elim "none" Label.name

namespace Pool

/-- The label of the value of a literal, if it has a value and that has a label. -/
def labelOf? (p : Pool) : Literal → Option Label
  | .value v => p.label? v
  | .nothing => none

/-! ## Listing is requesting -/

theorem list_concat (p : Pool) (literals : List Literal) (l : Literal) :
    p.list (literals ++ [l]) = (p.list literals).add l := List.foldl_concat ..

/-- Further literals are listed with the pool that the first ones leave. -/
theorem list_append (p : Pool) (literals more : List Literal) :
    p.list (literals ++ more) =
      ⟨(p.list literals).text ++ ((p.list literals).pool.list more).text,
        ((p.list literals).pool.list more).pool⟩ := by
  induction more using List.reverseRecOn with
  | nil => simp [list]
  | append_singleton more l ih =>
    rw [← List.append_assoc, list_concat, ih, list_concat]
    simp [Listing.add, String.append_assoc]

/-- The first literal is listed, and the others with the pool that it leaves. -/
theorem list_cons (p : Pool) (l : Literal) (literals : List Literal) :
    p.list (l :: literals) =
      ⟨l.listed (p.requestLiteral l).1 ++ ((p.requestLiteral l).2.list literals).text,
        ((p.requestLiteral l).2.list literals).pool⟩ := by
  have hfirst : p.list [l] = ⟨l.listed (p.requestLiteral l).1, (p.requestLiteral l).2⟩ := by
    simp [list, Listing.add]
  rw [← List.singleton_append, list_append, hfirst]

theorem pool_list (p : Pool) (literals : List Literal) :
    (p.list literals).pool = p.after (literals.map .literal) := by
  induction literals using List.reverseRecOn with
  | nil => rfl
  | append_singleton literals l ih =>
    rw [list_concat, List.map_append, after_append, ← ih]
    rfl

/-- The values with a label are those that had one and those that were listed. -/
theorem isSome_label?_list_iff (p : Pool) {literals : List Literal} {v : Value} :
    ((p.list literals).pool.label? v).isSome ↔ (p.label? v).isSome ∨ .value v ∈ literals := by
  rw [pool_list, isSome_label?_after, List.filterMap_map, List.mem_filterMap]
  refine or_congr_right ⟨?_, fun h => ⟨_, h, rfl⟩⟩
  rintro ⟨l, hl, hv⟩
  cases l with
  | value w =>
    obtain rfl : w = v := Option.some.inj hv
    exact hl
  | nothing => cases hv

/-- Every value that was listed has a label. -/
theorem isSome_label?_list (p : Pool) {literals : List Literal} {v : Value}
    (h : .value v ∈ literals) : ((p.list literals).pool.label? v).isSome :=
  p.isSome_label?_list_iff.mpr (.inr h)

/-- The answers to literals are the labels that their values have in the end. -/
theorem answers_literals (p : Pool) (literals : List Literal) :
    p.answers (literals.map .literal) = literals.map (p.list literals).pool.labelOf? := by
  induction literals generalizing p with
  | nil => rfl
  | cons l literals ih =>
    have hfirst : (p.requestLiteral l).1 = (p.list (l :: literals)).pool.labelOf? l := by
      cases l with
      | nothing => rfl
      | value v =>
        rw [list_cons, pool_list]
        exact (label?_after (p.label?_request v) _).symm
    show (p.requestLiteral l).1 :: (p.requestLiteral l).2.answers (literals.map .literal) = _
    rw [ih, hfirst, List.map_cons, list_cons]

/-- Each literal is listed with the answer to it. -/
theorem text_list_answers (p : Pool) (literals : List Literal) :
    (p.list literals).text = unlines ((literals.zip (p.answers (literals.map .literal))).map
      fun entry => listingLine entry.1.display entry.2) := by
  induction literals generalizing p with
  | nil => rfl
  | cons l literals ih =>
    rw [list_cons, ih, List.map_cons, answers, List.zip_cons_cons, List.map_cons, unlines_cons]
    rfl

theorem text_list (p : Pool) (literals : List Literal) :
    (p.list literals).text = unlines (literals.map fun l =>
      listingLine l.display ((p.list literals).pool.labelOf? l)) := by
  rw [text_list_answers, answers_literals, ← List.map_prod_left_eq_zip, List.map_map]
  rfl

end Pool

/-! ## One line for each literal -/

theorem Text.lineFeed_notMem_shown (hidden : Char → Bool) {quote : Char} (hquote : quote ≠ '\n')
    (c : Char) : '\n' ∉ shown hidden quote c := by
  unfold shown
  split
  · next letter h =>
    have hletter : letter ≠ '\n' := by
      rintro rfl
      unfold shortForm? at h
      split at h <;> cases h
    simp [hletter.symm]
  · next h =>
    split_ifs with hq hh
    · simp [hquote.symm]
    · have hhex : '\n' ∉ Nat.toDigits 16 c.toNat := lineFeed_notMem_toDigits (by decide) c.toNat
      simp [hhex]
    · intro hc
      rw [← List.mem_singleton.mp hc] at h
      cases h

theorem Text.oneLine_showString (s : String) : OneLine (showString s) := by
  rw [OneLine, showString, String.toList_ofList, List.mem_cons, List.mem_append, List.mem_flatMap]
  intro h
  rcases h with h | ⟨c, -, h⟩ | h
  · cases h
  · exact lineFeed_notMem_shown isHidden (by decide) c h
  · cases List.mem_singleton.mp h

theorem Literal.oneLine_display (l : Literal) : OneLine l.display := by
  match l with
  | .value (.bool true) => exact (by decide : OneLine "True")
  | .value (.bool false) => exact (by decide : OneLine "False")
  | .value (.int n) => exact oneLine_intRepr n.toInt
  | .value (.string s) => exact oneLine_showString s
  | .nothing => exact (by decide : OneLine "None")

theorem Label.oneLine_name (l : Label) : OneLine l.name :=
  oneLine_append.mpr ⟨by decide, oneLine_repr l.suffix⟩

theorem oneLine_listingLine {shown : String} (h : OneLine shown) (label : Option Label) :
    OneLine (listingLine shown label) := by
  refine oneLine_append.mpr ⟨oneLine_append.mpr ⟨h, by decide⟩, ?_⟩
  cases label with
  | none => exact (by decide : OneLine "none")
  | some l => exact l.oneLine_name

theorem Pool.lines_list (p : Pool) (literals : List Literal) :
    lines (p.list literals).text =
      literals.map fun l => listingLine l.display ((p.list literals).pool.labelOf? l) := by
  rw [text_list, lines_unlines]
  intro line hline
  obtain ⟨l, -, rfl⟩ := List.mem_map.mp hline
  exact oneLine_listingLine l.oneLine_display _

/-! ## Reading a line from its end -/

/-- The digits at the end of a line are those of its label. -/
theorem takeWhile_isDigit_listingLine (shown : String) (label : Option Label) :
    (listingLine shown label).toList.reverse.takeWhile Char.isDigit =
      label.elim [] fun l => (Nat.toDigits 10 l.suffix).reverse := by
  cases label with
  | none =>
    show (shown ++ " -> " ++ "none").toList.reverse.takeWhile Char.isDigit = []
    simp
  | some l =>
    have hdigits : ∀ c ∈ (Nat.toDigits 10 l.suffix).reverse, c.isDigit = true := fun c hc =>
      Nat.isDigit_of_mem_toDigits (by decide) (by decide) (List.mem_reverse.mp hc)
    have hlist : (listingLine shown (some l)).toList.reverse =
        (Nat.toDigits 10 l.suffix).reverse ++ ((shown ++ " -> const_").toList).reverse := by
      simp [listingLine, Label.name]
    rw [hlist]
    exact (run_append hdigits (by simp)).1

theorem listingLine_inj {x y : String} {a b : Option Label}
    (h : listingLine x a = listingLine y b) : x = y ∧ a = b := by
  have hdigits := congrArg (fun s => s.toList.reverse.takeWhile Char.isDigit) h
  simp only [takeWhile_isDigit_listingLine] at hdigits
  have hlabel : a = b := by
    cases a with
    | none =>
      cases b with
      | none => rfl
      | some m => exact absurd hdigits.symm (by simp)
    | some l =>
      cases b with
      | none => exact absurd hdigits (by simp)
      | some m =>
        have hsuffix : l.suffix.repr = m.suffix.repr := by
          rw [← String.toList_inj, Nat.toList_repr, Nat.toList_repr]
          exact List.reverse_injective hdigits
        cases l
        cases m
        exact congrArg _ (congrArg _ (Nat.repr_injective hsuffix))
  subst hlabel
  exact ⟨by simpa [listingLine] using h, rfl⟩

end LiteralPool
