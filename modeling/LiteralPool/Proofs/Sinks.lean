import Mathlib
import LiteralPool.Proofs.Listings

/-!
# Listings that are cut short

A sink has room for so many bytes. A listing that is written to it stops at the line that does not
fit, after the literal of that line was requested.

**Theorem (`listing_cut_short`).** The sink holds the front part of the whole listing for which it
has room, wherever that ends. Writing fails if and only if the listing is longer. And the pool is
the one after all requests, or, if writing fails, the one after those up to the line that holds the
first byte for which there was no room.

`listInto_cases` says all that can become of a listing, by induction along the literals: each line
is written as a whole, or is the last one of which anything is written (`Sink.write_of_le`,
`Sink.write_of_lt`). It finds the line by the literals in front of it; that it is the line with
that byte is then a matter of counting (`ByteInLine`).
-/

namespace LiteralPool

open Text

/-! ## Lines and bytes -/

namespace Text

/-- Byte number `k` of the text that these lines make is in line number `i`. -/
def ByteInLine (ls : List String) (k i : Nat) : Prop :=
  (unlines (ls.take i)).utf8ByteSize ≤ k ∧ k < (unlines (ls.take (i + 1))).utf8ByteSize

theorem utf8ByteSize_unlines_take_mono (ls : List String) {i j : Nat} (h : i ≤ j) :
    (unlines (ls.take i)).utf8ByteSize ≤ (unlines (ls.take j)).utf8ByteSize := by
  have hsplit : (ls.take j).take i ++ (ls.take j).drop i = ls.take j := List.take_append_drop ..
  rw [List.take_take, Nat.min_eq_left h] at hsplit
  rw [← hsplit, unlines_append, String.utf8ByteSize_append]
  exact Nat.le_add_right _ _

/-- No byte is in two lines. -/
theorem ByteInLine.unique {ls : List String} {k i j : Nat} (hi : ByteInLine ls k i)
    (hj : ByteInLine ls k j) : i = j := by
  by_contra hne
  rcases Nat.lt_or_gt_of_ne hne with h | h
  · have hmono := utf8ByteSize_unlines_take_mono ls (show i + 1 ≤ j from h)
    exact absurd (hi.2.trans_le hmono) (Nat.not_lt.mpr hj.1)
  · have hmono := utf8ByteSize_unlines_take_mono ls (show j + 1 ≤ i from h)
    exact absurd (hj.2.trans_le hmono) (Nat.not_lt.mpr hi.1)

end Text

/-! ## Sinks -/

namespace Sink

variable {s : Sink} {text : String}

/-- A text for which there is room is written. -/
theorem write_of_le (h : text.utf8ByteSize ≤ s.room) :
    s.write text = (⟨s.written ++ text.toUTF8, s.room - text.utf8ByteSize⟩, .ok ()) :=
  if_pos h

/-- Of a text for which there is no room, the front part is written. -/
theorem write_of_lt (h : s.room < text.utf8ByteSize) :
    s.write text = (⟨s.written ++ text.toUTF8.extract 0 s.room, 0⟩, .error .full) :=
  if_neg (Nat.not_le.mpr h)

end Sink

namespace Pool

/-- A line that fits is written, and the others go to what room is left. -/
theorem listInto_of_le (p : Pool) {sink : Sink} {l : Literal} (literals : List Literal)
    (h : (l.listed (p.requestLiteral l).1).utf8ByteSize ≤ sink.room) :
    p.listInto sink (l :: literals) =
      (p.requestLiteral l).2.listInto
        ⟨sink.written ++ (l.listed (p.requestLiteral l).1).toUTF8,
          sink.room - (l.listed (p.requestLiteral l).1).utf8ByteSize⟩ literals := by
  simp only [listInto, Sink.write_of_le h]

/-- A line that does not fit is the last one, and its literal was requested. -/
theorem listInto_of_lt (p : Pool) {sink : Sink} {l : Literal} (literals : List Literal)
    (h : sink.room < (l.listed (p.requestLiteral l).1).utf8ByteSize) :
    p.listInto sink (l :: literals) =
      ⟨⟨sink.written ++ (l.listed (p.requestLiteral l).1).toUTF8.extract 0 sink.room, 0⟩,
        (p.requestLiteral l).2, .error .full⟩ := by
  simp only [listInto, Sink.write_of_lt h]

/-- The sink keeps the front part of the listing for which it has room. -/
theorem written_listInto (p : Pool) (sink : Sink) (literals : List Literal) :
    (p.listInto sink literals).sink.written =
      sink.written ++ (p.list literals).text.toUTF8.extract 0 sink.room := by
  induction literals generalizing p sink with
  | nil =>
    have hnone : "".toUTF8.extract 0 sink.room = ByteArray.empty :=
      ByteArray.extract_eq_empty_iff.mpr (Nat.min_le_right _ _)
    show sink.written = sink.written ++ "".toUTF8.extract 0 sink.room
    rw [hnone, ByteArray.append_empty]
  | cons l literals ih =>
    set line := l.listed (p.requestLiteral l).1
    set q := (p.requestLiteral l).2
    have hlist : (p.list (l :: literals)).text.toUTF8 =
        line.toUTF8 ++ (q.list literals).text.toUTF8 := by
      rw [list_cons]
      exact String.toByteArray_append
    rw [hlist, ByteArray.extract_append, Nat.zero_sub]
    by_cases hfit : line.utf8ByteSize ≤ sink.room
    · have hwhole : line.toUTF8.extract 0 sink.room = line.toUTF8 := by
        have hmax : max sink.room line.toUTF8.size = sink.room := Nat.max_eq_left hfit
        rw [← hmax, ByteArray.extract_zero_max_size]
      rw [p.listInto_of_le literals hfit, ih, hwhole, ByteArray.append_assoc]
      rfl
    · -- What is behind the line begins beyond the room.
      have hover : sink.room - line.toUTF8.size = 0 :=
        Nat.sub_eq_zero_of_le (Nat.le_of_not_le hfit)
      rw [p.listInto_of_lt literals (Nat.not_le.mp hfit), hover, ByteArray.extract_same,
        ByteArray.append_empty]

/-- All that can become of the pool: the listing is written as a whole, or up to a line that does
not fit, whose literal is the last one that is requested. -/
theorem listInto_cases (p : Pool) (sink : Sink) (literals : List Literal) :
    ((p.list literals).text.utf8ByteSize ≤ sink.room ∧
      (p.listInto sink literals).outcome = .ok () ∧
      (p.listInto sink literals).pool = (p.list literals).pool) ∨
    ∃ front l back, literals = front ++ l :: back ∧
      (p.list front).text.utf8ByteSize ≤ sink.room ∧
      sink.room < (p.list (front ++ [l])).text.utf8ByteSize ∧
      (p.listInto sink literals).outcome = .error .full ∧
      (p.listInto sink literals).pool = (p.list (front ++ [l])).pool := by
  induction literals generalizing p sink with
  | nil =>
    left
    exact ⟨Nat.zero_le _, rfl, rfl⟩
  | cons l literals ih =>
    set line := l.listed (p.requestLiteral l).1
    set q := (p.requestLiteral l).2
    have hsize : ∀ ms, (p.list (l :: ms)).text.utf8ByteSize =
        line.utf8ByteSize + (q.list ms).text.utf8ByteSize := by
      intro ms
      rw [list_cons, String.utf8ByteSize_append]
    have hpool : ∀ ms, (p.list (l :: ms)).pool = (q.list ms).pool := by
      intro ms
      rw [list_cons]
    by_cases hfit : line.utf8ByteSize ≤ sink.room
    · rw [p.listInto_of_le literals hfit, hsize, hpool]
      rcases ih q ⟨sink.written ++ line.toUTF8, sink.room - line.utf8ByteSize⟩ with
        ⟨hrest, houtcome, hafter⟩ | ⟨front, m, back, rfl, hfront, hm, houtcome, hafter⟩
      · left
        exact ⟨(Nat.le_sub_iff_add_le' hfit).mp hrest, houtcome, hafter⟩
      · right
        refine ⟨l :: front, m, back, rfl, ?_, ?_, houtcome, ?_⟩
        · rw [hsize]
          exact (Nat.le_sub_iff_add_le' hfit).mp hfront
        · rw [List.cons_append, hsize]
          exact (Nat.sub_lt_iff_lt_add' hfit).mp hm
        · rw [List.cons_append, hpool]
          exact hafter
    · rw [p.listInto_of_lt literals (Nat.not_le.mp hfit)]
      right
      refine ⟨[], l, literals, rfl, Nat.zero_le _, ?_, rfl, ?_⟩
      · rw [List.nil_append, hsize]
        exact Nat.lt_add_right _ (Nat.not_le.mp hfit)
      · rw [List.nil_append, hpool]
        rfl

/-! ## The line that did not fit -/

/-- The first lines of a listing are the listing of the first literals. -/
theorem unlines_take_lines_list (p : Pool) (literals : List Literal) (i : Nat) :
    unlines ((lines (p.list literals).text).take i) = (p.list (literals.take i)).text := by
  set front := (literals.take i).map fun l =>
    listingLine l.display ((p.list (literals.take i)).pool.labelOf? l) with hfront
  have htext : (p.list (literals.take i)).text = unlines front := p.text_list _
  have hline : ∀ line ∈ front, OneLine line := by
    intro line hmem
    obtain ⟨l, -, rfl⟩ := List.mem_map.mp hmem
    exact oneLine_listingLine l.oneLine_display _
  have hsplit := p.list_append (literals.take i) (literals.drop i)
  rw [List.take_append_drop, htext] at hsplit
  rw [hsplit, lines_unlines_append hline, htext]
  by_cases hi : i ≤ literals.length
  · have hlength : front.length = i := by
      rw [hfront, List.length_map, List.length_take, Nat.min_eq_left hi]
    rw [List.take_left' hlength]
  · have hnone : literals.drop i = [] := List.drop_eq_nil_of_le (Nat.le_of_not_le hi)
    have hlength : front.length ≤ i := by
      rw [hfront, List.length_map, List.length_take]
      exact Nat.min_le_left _ _
    have hrest : lines ((p.list (literals.take i)).pool.list []).text = [] := lines_empty
    rw [hnone, hrest, List.append_nil, List.take_of_length_le hlength]

/-- The line of a literal holds the bytes behind the lines in front of it. -/
theorem byteInLine_list (p : Pool) {front back : List Literal} {l : Literal} {k : Nat}
    (hfront : (p.list front).text.utf8ByteSize ≤ k)
    (hl : k < (p.list (front ++ [l])).text.utf8ByteSize) :
    ByteInLine (lines (p.list (front ++ l :: back)).text) k front.length := by
  have hfirst : (front ++ l :: back).take front.length = front := List.take_left
  have hlast : (front ++ l :: back).take (front.length + 1) = front ++ [l] := by
    rw [List.take_length_add_append]
    rfl
  rw [ByteInLine, unlines_take_lines_list, unlines_take_lines_list, hfirst, hlast]
  exact ⟨hfront, hl⟩

theorem utf8ByteSize_list_le (p : Pool) (front back : List Literal) :
    (p.list front).text.utf8ByteSize ≤ (p.list (front ++ back)).text.utf8ByteSize := by
  rw [list_append, String.utf8ByteSize_append]
  exact Nat.le_add_right _ _

/-- What a new sink holds, with the room cut down to what there is to write. -/
theorem written_listInto_ofRoom (p : Pool) (literals : List Literal) (k : Nat) :
    (p.listInto (.ofRoom k) literals).sink.written =
      (p.list literals).text.toUTF8.extract 0 (min k (p.list literals).text.toUTF8.size) := by
  set bytes := (p.list literals).text.toUTF8
  have hmin : (bytes.extract 0 bytes.size).extract 0 k = bytes.extract 0 (min k bytes.size) := by
    rw [ByteArray.extract_extract, Nat.zero_add, Nat.zero_add]
  have hfront : (p.listInto (.ofRoom k) literals).sink.written =
      ByteArray.empty ++ bytes.extract 0 k := p.written_listInto (.ofRoom k) literals
  rw [hfront, ByteArray.empty_append, ← hmin, ByteArray.extract_zero_size]

/-- **A listing is cut short where the room ends.** List any literals into a sink with room for `k`
bytes, whatever was requested of the pool before. The sink holds the first `k` bytes of the whole
listing, or all of them. Writing succeeds if there is room for all of them, and fails otherwise. If
it succeeds, the pool is the one after all literals were requested. If it fails, there is a line
with byte number `k`, and the pool is the one after the literals up to that line were requested. -/
theorem listing_cut_short (p : Pool) (literals : List Literal) (k : Nat) :
    let whole := (p.list literals).text
    let cut := p.listInto (.ofRoom k) literals
    cut.sink.written = whole.toUTF8.extract 0 (min k whole.toUTF8.size) ∧
    (cut.outcome = .error .full ↔ k < whole.toUTF8.size) ∧
    (cut.outcome = .ok () ↔ whole.toUTF8.size ≤ k) ∧
    (cut.outcome = .ok () → cut.pool = p.after (literals.map .literal)) ∧
    (cut.outcome = .error .full →
      (∃ i < literals.length, ByteInLine (lines whole) k i) ∧
      ∀ i, ByteInLine (lines whole) k i →
        cut.pool = p.after ((literals.take (i + 1)).map .literal)) := by
  intro whole cut
  have hsize : whole.toUTF8.size = whole.utf8ByteSize := rfl
  refine ⟨p.written_listInto_ofRoom literals k, ?_⟩
  rw [hsize]
  rcases p.listInto_cases (.ofRoom k) literals with
    ⟨hfit, houtcome, hpool⟩ | ⟨front, l, back, hliterals, hfront, hl, houtcome, hpool⟩
  · have hle : whole.utf8ByteSize ≤ k := hfit
    have hok : cut.outcome = .ok () := houtcome
    simp only [hok, reduceCtorEq, false_iff, true_iff, false_implies, and_true, Nat.not_lt]
    exact ⟨hle, hle, fun _ => hpool.trans (p.pool_list literals)⟩
  · have hfull : cut.outcome = .error .full := houtcome
    have hplace : ByteInLine (lines whole) k front.length := by
      show ByteInLine (lines (p.list literals).text) k front.length
      rw [hliterals]
      exact p.byteInLine_list hfront hl
    have hlt : k < whole.utf8ByteSize := by
      have hle := p.utf8ByteSize_list_le (front ++ [l]) back
      rw [List.append_assoc, List.singleton_append, ← hliterals] at hle
      exact Nat.lt_of_lt_of_le hl hle
    have hlength : front.length < literals.length := by simp [hliterals]
    have hlast : literals.take (front.length + 1) = front ++ [l] := by
      rw [hliterals, List.take_length_add_append]
      rfl
    simp only [hfull, reduceCtorEq, false_iff, true_iff, false_implies, true_and, Nat.not_le]
    refine ⟨hlt, hlt, fun _ => ⟨⟨front.length, hlength, hplace⟩, ?_⟩⟩
    intro i hi
    rw [hi.unique hplace, hlast, ← pool_list]
    exact hpool

/-- A sink with room for two bytes ends inside the first character of a string. The string has taken
the label behind the one that was drawn, and the integer behind it has none. A sink with room for
all 29 bytes and no more takes the listing, and the integer has its label. -/
theorem listing_cut_short_in_character :
    let p := empty.after [.label]
    let literals := [.value (.string "é"), .value (.int 7)]
    let cut := p.listInto (.ofRoom 2) literals
    let full := p.listInto (.ofRoom 29) literals
    (cut.outcome = .error .full ∧ cut.sink.written = ⟨#[0x22, 0xC3]⟩ ∧
      cut.pool = p.after [.literal (.value (.string "é"))] ∧ cut.pool.allocated = 4 ∧
      cut.pool.label? (.int 7) = none) ∧
    full.outcome = .ok () ∧ full.pool.label? (.int 7) = some ⟨4⟩ := by
  intro p literals cut full
  have htext : (p.list literals).text = "\"é\" -> const_3\n7 -> const_4\n" := by decide
  constructor
  · obtain ⟨hwritten, hfull, -, -, hpool⟩ := listing_cut_short p literals 2
    rw [htext] at hwritten hfull
    have houtcome : cut.outcome = .error .full := hfull.mpr (by decide)
    have hplace : ByteInLine (lines (p.list literals).text) 2 0 := by
      rw [ByteInLine, unlines_take_lines_list, unlines_take_lines_list]
      decide
    have hcut : cut.pool = p.after [.literal (.value (.string "é"))] :=
      (hpool houtcome).2 0 hplace
    refine ⟨houtcome, hwritten.trans (by decide), hcut, ?_, ?_⟩
    · rw [hcut]
      decide
    · rw [hcut]
      decide
  · obtain ⟨-, -, hok, hpool, -⟩ := listing_cut_short p literals 29
    rw [htext] at hok
    have houtcome : full.outcome = .ok () := hok.mpr (by decide)
    have hfull : full.pool = p.after (literals.map .literal) := hpool houtcome
    refine ⟨houtcome, ?_⟩
    rw [hfull]
    decide

end Pool

end LiteralPool
