import Mathlib
import LiteralPool.Source

/-!
# Texts made of lines

`Text.lines` takes a text apart: a line ends in front of a line feed, and a text that ends in one
has no further line behind it. `Text.unlines` puts lines together, each ended by a line feed.

**What is put together comes apart again** (`lines_unlines`), provided that every line is one: a
line feed inside would make two of it. Decimal numbers are one line (`oneLine_repr`), and so is
what is joined of such texts (`oneLine_append`).
-/

namespace LiteralPool.Text

/-- The lines of the characters of a text. -/
def splitLines (cs : List Char) : List String :=
  if _ : cs = [] then [] else String.ofList (firstLine cs) :: splitLines (laterLines cs)
termination_by cs.length
decreasing_by exact length_laterLines_lt ‹_›

/-- The lines of a text. -/
def lines (text : String) : List String := splitLines text.toList

/-- The lines, each ended by a line feed. -/
def unlines (ls : List String) : String := String.join (ls.map (· ++ "\n"))

/-- Is there no line feed in the text? -/
def OneLine (text : String) : Prop := '\n' ∉ text.toList

instance (text : String) : Decidable (OneLine text) :=
  inferInstanceAs (Decidable ('\n' ∉ text.toList))

theorem unlines_cons (l : String) (ls : List String) :
    unlines (l :: ls) = l ++ "\n" ++ unlines ls := by
  simp [unlines]

theorem unlines_append (ls ms : List String) : unlines (ls ++ ms) = unlines ls ++ unlines ms := by
  simp [unlines]

/-! ## Taking lines apart -/

/-- A text is cut at its first line feed. -/
theorem firstLine_laterLines {cs : List Char} (h : '\n' ∉ cs) (rest : List Char) :
    firstLine (cs ++ '\n' :: rest) = cs ∧ laterLines (cs ++ '\n' :: rest) = rest := by
  have hcs : ∀ c ∈ cs, (c != '\n') = true := by
    intro c hc
    rw [bne_iff_ne]
    rintro rfl
    exact h hc
  rw [firstLine, laterLines, List.takeWhile_append_of_pos hcs, List.dropWhile_append_of_pos hcs]
  simp

theorem lines_append {l : String} (h : OneLine l) (rest : String) :
    lines (l ++ "\n" ++ rest) = l :: lines rest := by
  have hlist : (l ++ "\n" ++ rest).toList = l.toList ++ '\n' :: rest.toList := by simp
  obtain ⟨hfirst, hlater⟩ := firstLine_laterLines h rest.toList
  rw [lines, hlist, splitLines, dif_neg (by simp), hfirst, hlater, String.ofList_toList]
  rfl

theorem lines_empty : lines "" = [] := by
  rw [lines, splitLines]
  rfl

/-- Lines that were put together come apart again, whatever follows them. -/
theorem lines_unlines_append {ls : List String} (h : ∀ l ∈ ls, OneLine l) (rest : String) :
    lines (unlines ls ++ rest) = ls ++ lines rest := by
  induction ls with
  | nil =>
    rw [List.nil_append]
    exact congrArg lines String.empty_append
  | cons l ls ih =>
    rw [unlines_cons, String.append_assoc, lines_append (h l (by simp)),
      ih fun m hm => h m (List.mem_cons_of_mem l hm), List.cons_append]

/-- Lines that were put together come apart again. -/
theorem lines_unlines {ls : List String} (h : ∀ l ∈ ls, OneLine l) : lines (unlines ls) = ls := by
  have hlines := lines_unlines_append h ""
  rwa [String.append_empty, lines_empty, List.append_nil] at hlines

/-- Lines that were put together have a line feed each. -/
theorem count_unlines {ls : List String} (h : ∀ l ∈ ls, OneLine l) :
    (unlines ls).toList.count '\n' = ls.length := by
  induction ls with
  | nil => rfl
  | cons l ls ih =>
    have hline : l.toList.count '\n' = 0 := List.count_eq_zero_of_not_mem (h l (by simp))
    have hfeed : "\n".toList.count '\n' = 1 := rfl
    rw [unlines_cons, String.toList_append, String.toList_append, List.count_append,
      List.count_append, hline, hfeed, ih fun m hm => h m (List.mem_cons_of_mem l hm),
      List.length_cons]
    omega

/-- Lines that were put together end in a line feed, if there are any. -/
theorem getLast?_unlines {ls : List String} (h : ls ≠ []) :
    (unlines ls).toList.getLast? = some '\n' := by
  obtain ⟨ms, l, rfl⟩ := ls.eq_nil_or_concat.resolve_left h
  rw [List.concat_eq_append, unlines_append]
  simp [unlines]

/-! ## Texts in one line -/

theorem oneLine_append {a b : String} : OneLine (a ++ b) ↔ OneLine a ∧ OneLine b := by
  simp [OneLine, not_or]

/-- A character of a number is a digit of its base. -/
theorem exists_of_mem_toDigits {b : Nat} (hb : 1 < b) {n : Nat} {c : Char}
    (h : c ∈ Nat.toDigits b n) : ∃ d < b, c = Nat.digitChar d := by
  induction n using Nat.strongRecOn with
  | ind n ih =>
    rw [Nat.toDigits_eq_if hb] at h
    split_ifs at h with hn
    · exact ⟨n, hn, List.mem_singleton.mp h⟩
    · rcases List.mem_append.mp h with h | h
      · exact ih (n / b) (Nat.div_lt_self (by omega) hb) h
      · exact ⟨n % b, Nat.mod_lt n (by omega), List.mem_singleton.mp h⟩

theorem lineFeed_notMem_toDigits {b : Nat} (hb : 1 < b) (n : Nat) : '\n' ∉ Nat.toDigits b n := by
  intro h
  obtain ⟨d, -, hd⟩ := exists_of_mem_toDigits hb h
  exact Nat.digitChar_ne '\n' rfl hd.symm

theorem oneLine_repr (n : Nat) : OneLine n.repr := by
  rw [OneLine, Nat.toList_repr]
  exact lineFeed_notMem_toDigits (by decide) n

theorem oneLine_intRepr (n : Int) : OneLine n.repr := by
  cases n with
  | ofNat n => exact oneLine_repr n
  | negSucc n => exact oneLine_append.mpr ⟨by decide, oneLine_repr (n + 1)⟩

end LiteralPool.Text
