import Mathlib
import LiteralPool.Assembly
import LiteralPool.Proofs.Lines
import LiteralPool.Proofs.Written

/-!
# Reading lines of assembly text

`Line.ofText?` reads the text of a line. A comment begins with a number sign and a label with its
name; a directive has a name, and behind a blank an operand, which is read as the literal that it
writes.

**Reading recovers every line** (`ofText?_text`). So no two lines have the same text, and a string
in one cannot look like anything else. As long as no comment holds a line feed, the lines of an
assembly text are its lines one by one (`lines_text`): the text can be read back as a whole
(`mapM_ofText?`).
-/

namespace LiteralPool

open Text

/-- The literal that is written, if the text holds nothing else. -/
def Literal.read? (cs : List Char) : Option Literal :=
  match Scan.ofText cs with
  | ⟨.ok (some l), _, []⟩ => some l
  | _ => none

theorem Literal.read?_of_written {l : Literal} {cs : List Char} (h : l.Written cs) :
    read? cs = some l := by
  have hscan : Scan.ofText cs = ⟨.ok (some l), cs, []⟩ := by
    simpa using Scan.ofText_of_written h Delimited.nil
  simp only [read?, hscan]

namespace Line

/-- The directive with this name and this operand. -/
def ofDirective? (name operand : List Char) : Option Line :=
  if name = "data".toList then if operand = [] then some data else none
  else if name = "align".toList then
    match Literal.read? operand with
    | some (.value (.int n)) => some (align (UInt8.ofNat n.toInt.toNat))
    | _ => none
  else if name = "word".toList then
    match Literal.read? operand with
    | some (.value (.int n)) => some (word n)
    | _ => none
  else if name = "string".toList then
    match Literal.read? operand with
    | some (.value (.string s)) => some (string s)
    | _ => none
  else none

/-- The label whose name ends in these digits and a colon. -/
def ofSuffix? (cs : List Char) : Option Line :=
  if cs.dropWhile Char.isDigit = [':'] then
    (String.ofList (cs.takeWhile Char.isDigit)).toNat?.map fun n => label ⟨n⟩
  else none

/-- The line with this text. -/
def ofText? (text : String) : Option Line :=
  match text.toList with
  | '#' :: ' ' :: cs => some (comment (String.ofList cs))
  | '\t' :: '.' :: cs => ofDirective? (cs.takeWhile (· != ' ')) ((cs.dropWhile (· != ' ')).drop 1)
  | 'c' :: 'o' :: 'n' :: 's' :: 't' :: '_' :: cs => ofSuffix? cs
  | _ => none

/-! ## Reading recovers every line -/

theorem ofText?_of_directive {text : String} {name operand : List Char}
    (h : text.toList = '\t' :: '.' :: (name ++ ' ' :: operand)) (hname : ' ' ∉ name) :
    ofText? text = ofDirective? name operand := by
  have hclass : ∀ c ∈ name, (c != ' ') = true := by
    intro c hc
    rw [bne_iff_ne]
    rintro rfl
    exact hname hc
  have hblank : ∀ c ∈ (' ' :: operand).head?, (c != ' ') = false := by simp
  obtain ⟨htake, hdrop⟩ := run_append hclass hblank
  simp only [ofText?, h, htake, hdrop, List.drop_succ_cons, List.drop_zero]

theorem ofText?_align (exponent : UInt8) :
    ofText? (align exponent).text = some (align exponent) := by
  have htext : (align exponent).text.toList =
      '\t' :: '.' :: ("align".toList ++ ' ' :: exponent.toNat.repr.toList) := by
    rw [text, String.toList_append]
    rfl
  have hint : (Int32.ofNat exponent.toNat).toInt = exponent.toNat :=
    Int32.toInt_ofNat_of_lt (exponent.toNat_lt.trans (by decide))
  have hread : Literal.read? exponent.toNat.repr.toList =
      some (.value (.int (Int32.ofNat exponent.toNat))) := by
    have hwritten := Literal.written_int (Int32.ofNat exponent.toNat)
    rw [hint] at hwritten
    exact Literal.read?_of_written hwritten
  rw [ofText?_of_directive htext (by decide), ofDirective?, if_neg (by decide), if_pos rfl]
  simp only [hread, hint]
  simp

theorem ofText?_word (n : Int32) : ofText? (word n).text = some (word n) := by
  have htext : (word n).text.toList =
      '\t' :: '.' :: ("word".toList ++ ' ' :: n.toInt.repr.toList) := by
    rw [text, String.toList_append]
    rfl
  rw [ofText?_of_directive htext (by decide), ofDirective?, if_neg (by decide), if_neg (by decide),
    if_pos rfl]
  simp only [Literal.read?_of_written (Literal.written_int n)]

theorem ofText?_string (s : String) : ofText? (string s).text = some (string s) := by
  have htext : (string s).text.toList =
      '\t' :: '.' :: ("string".toList ++ ' ' :: '"' :: ((quoteBody s).toList ++ ['"'])) := by
    rw [text, String.toList_append, String.toList_append]
    rfl
  rw [ofText?_of_directive htext (by decide), ofDirective?, if_neg (by decide), if_neg (by decide),
    if_neg (by decide), if_pos rfl]
  simp only [Literal.read?_of_written (Literal.written_string s)]

theorem ofText?_label (l : Label) : ofText? (label l).text = some (label l) := by
  have htext : (label l).text.toList =
      'c' :: 'o' :: 'n' :: 's' :: 't' :: '_' :: (l.suffix.repr.toList ++ [':']) := by
    rw [text, Label.name, String.toList_append, String.toList_append]
    rfl
  have hdigits : ∀ c ∈ l.suffix.repr.toList, c.isDigit = true := by
    intro c hc
    rw [Nat.toList_repr] at hc
    exact Nat.isDigit_of_mem_toDigits (by decide) (by decide) hc
  have hcolon : ∀ c ∈ [':'].head?, c.isDigit = false := by simp
  obtain ⟨htake, hdrop⟩ := run_append hdigits hcolon
  simp only [ofText?, htext, ofSuffix?, htake, hdrop, String.ofList_toList, Nat.toNat?_repr]
  rfl

/-- Every line is read back from its text. -/
theorem ofText?_text (x : Line) : ofText? x.text = some x := by
  cases x with
  | data => rfl
  | align exponent => exact ofText?_align exponent
  | word n => exact ofText?_word n
  | string s => exact ofText?_string s
  | label l => exact ofText?_label l
  | comment t =>
    have htext : (comment t).text.toList = '#' :: ' ' :: t.toList := by
      rw [text, String.toList_append]
      rfl
    simp only [ofText?, htext, String.ofList_toList]

theorem text_injective : Function.Injective text := fun x y h =>
  Option.some.inj ((ofText?_text x).symm.trans ((congrArg ofText? h).trans (ofText?_text y)))

theorem mapM_ofText? (xs : List Line) : (xs.map text).mapM ofText? = some xs := by
  induction xs with
  | nil => rfl
  | cons x xs ih => simp [List.mapM_cons, ofText?_text, ih]

/-! ## One line each -/

theorem oneLine_quoteBody (s : String) : OneLine (quoteBody s) := by
  rw [OneLine, quoteBody, String.toList_ofList, List.mem_flatMap]
  intro h
  obtain ⟨c, -, hc⟩ := h
  exact Piece.lineFeed_notMem_written_ofChar c hc

/-- Only a comment can hold a line feed. -/
theorem oneLine_text {x : Line} (h : ∀ t, x = comment t → OneLine t) : OneLine x.text := by
  cases x with
  | data => exact (by decide : OneLine "\t.data")
  | align exponent => exact oneLine_append.mpr ⟨by decide, oneLine_repr exponent.toNat⟩
  | word n => exact oneLine_append.mpr ⟨by decide, oneLine_intRepr n.toInt⟩
  | string s =>
    exact oneLine_append.mpr ⟨oneLine_append.mpr ⟨by decide, oneLine_quoteBody s⟩, by decide⟩
  | label l =>
    exact oneLine_append.mpr ⟨oneLine_append.mpr ⟨by decide, oneLine_repr l.suffix⟩, by decide⟩
  | comment t => exact oneLine_append.mpr ⟨by decide, h t rfl⟩

end Line

namespace Assembly

theorem text_eq (a : Assembly) : a.text = unlines (a.lines.map Line.text) := by
  rw [text, unlines, List.map_map]
  rfl

theorem text_cons (line : Line) (a : Assembly) :
    (a.cons line).text = line.text ++ "\n" ++ a.text := by
  rw [text_eq, text_eq, cons, List.map_cons, unlines_cons]

theorem text_append (a : Assembly) (lines : List Line) :
    (a.append lines).text = a.text ++ (ofList lines).text := by
  rw [text_eq, text_eq, text_eq, append, List.map_append, unlines_append]
  rfl

theorem oneLine_of_mem {a : Assembly} (h : ∀ t, .comment t ∈ a.lines → OneLine t) {l : String}
    (hl : l ∈ a.lines.map Line.text) : OneLine l := by
  obtain ⟨x, hx, rfl⟩ := List.mem_map.mp hl
  exact Line.oneLine_text fun t hxt => h t (hxt ▸ hx)

/-- The lines of the text are the lines of the assembly. -/
theorem lines_text {a : Assembly} (h : ∀ t, .comment t ∈ a.lines → OneLine t) :
    Text.lines a.text = a.lines.map Line.text := by
  rw [text_eq, lines_unlines fun _ => oneLine_of_mem h]

end Assembly

end LiteralPool
