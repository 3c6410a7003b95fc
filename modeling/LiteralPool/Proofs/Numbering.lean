import Mathlib
import LiteralPool.Proofs.Storage

/-!
# Numbering by first appearance

Take a pool that holds the Booleans only, and list literals with it. Which labels, which lines and
which data section come of it can be said without any pool: write down the integers and strings
among the literals in the order in which they first appear (`firsts`), and number them from 2 on.

**Theorem (`listed_by_first_appearance`).** The listing and the data section of a fresh pool are
those that this numbering describes.

A pool is `Numbered` by a list of values if it holds just these, each under its place in the list.
The empty pool is numbered by the Booleans, and a request keeps the pool numbered: a value that is
not in the list comes behind it (`Numbered.request`). The lists of values grow in the same way as
`firsts` does, so after all requests the pool is numbered by the Booleans and the first appearances
(`numbered_list`).
-/

namespace LiteralPool

open Text

/-- The value of a literal that takes a label when it is first requested. -/
def Literal.stored? : Literal → Option Value
  | .value (.int n) => some (.int n)
  | .value (.string s) => some (.string s)
  | .value (.bool _) => none
  | .nothing => none

/-- The integers and strings among literals, without repeats, in the order in which they first
appear. -/
def firsts (literals : List Literal) : List Value :=
  (literals.filterMap Literal.stored?).eraseDups

/-- The pool holds these values, each under its place in the list, and no other label was drawn. -/
structure Pool.Numbered (p : Pool) (values : List Value) : Prop where
  free : p.free = values.length
  constants : p.constants = values.zipIdx.map fun e => ⟨⟨e.2⟩, e.1⟩

namespace Pool

variable {p : Pool} {values : List Value}

/-! ## Requests keep a pool numbered -/

theorem Numbered.label?_eq_some_iff (h : p.Numbered values) {v : Value} {l : Label} :
    p.label? v = some l ↔ values[l.suffix]? = some v := by
  have hmem : ⟨l, v⟩ ∈ p.constants ↔ p.label? v = some l := mem_constants
  have hplace : (v, l.suffix) ∈ values.zipIdx ↔ values[l.suffix]? = some v :=
    List.mem_zipIdx_iff_getElem?
  rw [← hmem, h.constants, List.mem_map, ← hplace]
  constructor
  · intro ⟨⟨w, k⟩, he, heq⟩
    cases heq
    exact he
  · intro he
    exact ⟨_, he, rfl⟩

/-- A value that is in the list is under its place there. -/
theorem Numbered.label?_of_mem (h : p.Numbered values) {v : Value} (hv : v ∈ values) :
    p.label? v = some ⟨values.idxOf v⟩ := by
  rw [h.label?_eq_some_iff, List.getElem?_idxOf hv]

theorem Numbered.label?_of_notMem (h : p.Numbered values) {v : Value} (hv : v ∉ values) :
    p.label? v = none := by
  cases hl : p.label? v with
  | none => rfl
  | some l => exact absurd (List.mem_of_getElem? (h.label?_eq_some_iff.mp hl)) hv

/-- A value that is not in the list comes behind it. -/
theorem Numbered.request (h : p.Numbered values) (v : Value) :
    (p.request v).2.Numbered (if v ∈ values then values else values ++ [v]) := by
  by_cases hv : v ∈ values
  · rw [if_pos hv, request_of_some (h.label?_of_mem hv)]
    exact h
  · rw [if_neg hv, request_of_none (h.label?_of_notMem hv)]
    constructor
    · simp [h.free]
    · simp [constants_enter, h.constants, h.free, List.zipIdx_append]

theorem numbered_empty : empty.Numbered [.bool false, .bool true] := by
  constructor
  · rfl
  · rw [constants_empty]
    rfl

end Pool

/-! ## First appearances -/

theorem Literal.eq_of_stored? {l : Literal} {v : Value} (h : l.stored? = some v) :
    l = .value v ∧ v.isBool = false := by
  unfold stored? at h
  split at h
  · cases h
    exact ⟨rfl, rfl⟩
  · cases h
    exact ⟨rfl, rfl⟩
  · cases h
  · cases h

/-- The other literals leave a pool as it is. -/
theorem Pool.requestLiteral_of_stored? {l : Literal} (h : l.stored? = none) (p : Pool) :
    (p.requestLiteral l).2 = p := by
  match l with
  | .value (.bool b) => exact p.answer_of_kept (r := .value (.bool b)) (.inr ⟨b, rfl⟩)
  | .value (.int n) => cases h
  | .value (.string s) => cases h
  | .nothing => rfl

theorem firsts_concat_of_none {l : Literal} (h : l.stored? = none) (literals : List Literal) :
    firsts (literals ++ [l]) = firsts literals := by
  simp [firsts, h]

theorem eraseDups_concat (values : List Value) (v : Value) :
    (values ++ [v]).eraseDups =
      if v ∈ values then values.eraseDups else values.eraseDups ++ [v] := by
  rw [List.eraseDups_append]
  split_ifs with hv
  · have hremove : [v].removeAll values = [] := by simp [List.removeAll, hv]
    rw [hremove]
    simp
  · have hremove : [v].removeAll values = [v] := by simp [List.removeAll, hv]
    rw [hremove]
    rfl

theorem firsts_concat_of_some {l : Literal} {v : Value} (h : l.stored? = some v)
    (literals : List Literal) :
    firsts (literals ++ [l]) =
      if v ∈ firsts literals then firsts literals else firsts literals ++ [v] := by
  have hfilter : (literals ++ [l]).filterMap Literal.stored? =
      literals.filterMap Literal.stored? ++ [v] := by simp [h]
  have hmem : v ∈ firsts literals ↔ v ∈ literals.filterMap Literal.stored? := List.mem_eraseDups
  rw [firsts, hfilter, eraseDups_concat]
  simp only [hmem]
  rfl

theorem isBool_of_mem_firsts {literals : List Literal} {v : Value} (h : v ∈ firsts literals) :
    v.isBool = false := by
  obtain ⟨l, -, hl⟩ := List.mem_filterMap.mp (List.mem_eraseDups.mp h)
  exact (Literal.eq_of_stored? hl).2

theorem mem_firsts {literals : List Literal} {v : Value} (hv : v.isBool = false) :
    v ∈ firsts literals ↔ .value v ∈ literals := by
  rw [firsts, List.mem_eraseDups, List.mem_filterMap]
  constructor
  · intro ⟨l, hl, hlv⟩
    rwa [← (Literal.eq_of_stored? hlv).1]
  · intro h
    refine ⟨_, h, ?_⟩
    cases v with
    | bool b => cases hv
    | int n => rfl
    | string s => rfl

/-- The pool is numbered by the Booleans and the first appearances. -/
theorem Pool.numbered_list (literals : List Literal) :
    (empty.list literals).pool.Numbered (.bool false :: .bool true :: firsts literals) := by
  induction literals using List.reverseRecOn with
  | nil => exact numbered_empty
  | append_singleton literals l ih =>
    rw [list_concat]
    show ((empty.list literals).pool.requestLiteral l).2.Numbered _
    cases hl : l.stored? with
    | none =>
      rw [requestLiteral_of_stored? hl, firsts_concat_of_none hl]
      exact ih
    | some v =>
      obtain ⟨rfl, hv⟩ := Literal.eq_of_stored? hl
      have hnext := ih.request v
      have hbool : ∀ b, v ≠ .bool b := by
        intro b hb
        rw [hb] at hv
        cases hv
      simp only [List.mem_cons, hbool, false_or] at hnext
      rw [firsts_concat_of_some hl]
      split_ifs at hnext ⊢ with hmem
      · exact hnext
      · exact hnext

/-! ## What is written -/

/-- What a listing says of a literal: the number of its value's label, if it has a value. -/
def place (values : List Value) : Literal → String
  | .nothing => "none"
  | .value (.bool false) => "const_0"
  | .value (.bool true) => "const_1"
  | .value v => "const_" ++ (2 + values.idxOf v).repr

/-- The lines that store a value under the label with this number. -/
def block (n : Nat) (v : Value) : List String :=
  "\t.align 2" :: ("const_" ++ n.repr ++ ":") ::
    match v with
    | .bool b => [if b then "\t.word 1" else "\t.word 0"]
    | .int n => ["\t.word " ++ n.toInt.repr]
    | .string s =>
      ["\t.word " ++ (min s.utf8ByteSize 2147483647).repr, "\t.string \"" ++ quoteBody s ++ "\""]

/-- The lines of a data section that holds the Booleans and these values, numbered from 2 on. -/
def dataLines (values : List Value) : List String :=
  "\t.data" :: (block 0 (.bool false) ++ block 1 (.bool true) ++
    (values.zipIdx 2).flatMap fun e => block e.2 e.1)

/-- Is the value an integer? -/
def Value.isInt : Value → Bool
  | int _ => true
  | _ => false

/-- Is the value a string? -/
def Value.isString : Value → Bool
  | string _ => true
  | _ => false

theorem place_eq {literals : List Literal} {l : Literal} (hl : l ∈ literals) :
    ((Pool.empty.list literals).pool.labelOf? l).elim "none" Label.name =
      place (firsts literals) l := by
  set p := (Pool.empty.list literals).pool
  have hnumbered : p.Numbered (.bool false :: .bool true :: firsts literals) :=
    Pool.numbered_list literals
  have hstored : ∀ v, v.isBool = false → .value v ∈ literals →
      (p.label? v).elim "none" Label.name = "const_" ++ (2 + (firsts literals).idxOf v).repr := by
    intro v hv hmem
    have hlabel : p.label? v = some ⟨2 + (firsts literals).idxOf v⟩ := by
      rw [hnumbered.label?_eq_some_iff, Nat.add_comm]
      exact List.getElem?_idxOf ((mem_firsts hv).mpr hmem)
    rw [hlabel]
    rfl
  match l, hl with
  | .nothing, _ => rfl
  | .value (.bool b), _ =>
    show (p.label? (.bool b)).elim "none" Label.name = _
    rw [Pool.label?_bool]
    cases b <;> rfl
  | .value (.int n), hl => exact hstored (.int n) rfl hl
  | .value (.string s), hl => exact hstored (.string s) rfl hl

theorem Constant.map_text_lines (c : Constant) :
    c.lines.map Line.text = block c.label.suffix c.value := by
  obtain ⟨l, v⟩ := c
  match v with
  | .bool true => rfl
  | .bool false => rfl
  | .int n => rfl
  | .string s =>
    have hword : (Line.word (lengthWord s)).text =
        "\t.word " ++ (min s.utf8ByteSize 2147483647).repr := by
      rw [Line.text, toInt_lengthWord]
      rfl
    simp only [lines, Value.stored, List.map_cons, List.map_nil, hword]
    rfl

theorem Pool.Numbered.map_text_dataSection {p : Pool} {values : List Value}
    (h : p.Numbered (.bool false :: .bool true :: values)) :
    p.dataSection.lines.map Line.text = dataLines values := by
  have hblocks : ∀ e : Value × Nat,
      (Constant.mk ⟨e.2⟩ e.1).lines.map Line.text = block e.2 e.1 :=
    fun e => Constant.map_text_lines _
  simp only [dataSection, h.constants, List.zipIdx_cons, List.map_cons, List.flatMap_cons,
    List.map_append, List.map_flatMap, List.flatMap_map, hblocks, dataLines, List.append_assoc]
  rfl

theorem length_block (n : Nat) (v : Value) :
    (block n v).length = 3 * v.isBool.toNat + 3 * v.isInt.toNat + 4 * v.isString.toNat := by
  cases v <;> rfl

theorem length_blocks (values : List Value) (k : Nat) :
    ((values.zipIdx k).flatMap fun e => block e.2 e.1).length =
      3 * values.countP Value.isBool + 3 * values.countP Value.isInt +
        4 * values.countP Value.isString := by
  induction values generalizing k with
  | nil => rfl
  | cons v values ih =>
    have hcount : ∀ q : Value → Bool, (v :: values).countP q = values.countP q + (q v).toNat := by
      intro q
      rw [List.countP_cons, Bool.toNat, Bool.cond_eq_ite]
    rw [List.zipIdx_cons, List.flatMap_cons]
    show (block k v ++ (values.zipIdx (k + 1)).flatMap fun e => block e.2 e.1).length = _
    rw [List.length_append, ih, length_block, hcount, hcount, hcount]
    omega

/-- **Numbering by first appearance.** Whatever literals are listed with a fresh pool: its labels
go to the Booleans and to the first appearances, in their order; every line of the listing is the
literal and the number of its value; and the data section holds the blocks of the Booleans and of
the first appearances, and nothing else. -/
theorem listed_by_first_appearance (literals : List Literal) :
    let listing := Pool.empty.list literals
    let values := firsts literals
    listing.pool.allocated = 2 + values.length ∧
    lines listing.text = literals.map (fun l => l.display ++ " -> " ++ place values l) ∧
    listing.text = unlines (literals.map fun l => l.display ++ " -> " ++ place values l) ∧
    listing.pool.dataSection.text = unlines (dataLines values) ∧
    listing.pool.dataSection.size =
      7 + 3 * values.countP Value.isInt + 4 * values.countP Value.isString := by
  intro listing values
  have hnumbered : listing.pool.Numbered (.bool false :: .bool true :: values) :=
    Pool.numbered_list literals
  have hlines : literals.map (fun l => listingLine l.display (listing.pool.labelOf? l)) =
      literals.map fun l => l.display ++ " -> " ++ place values l :=
    List.map_congr_left fun l hl => congrArg (l.display ++ " -> " ++ ·) (place_eq hl)
  refine ⟨?_, ?_, ?_, ?_, ?_⟩
  · show listing.pool.free = 2 + values.length
    rw [hnumbered.free, List.length_cons, List.length_cons]
    omega
  · rw [← hlines]
    exact Pool.empty.lines_list literals
  · rw [← hlines]
    exact Pool.empty.text_list literals
  · rw [← hnumbered.map_text_dataSection, unlines, List.map_map]
    rfl
  · have hbool : values.countP Value.isBool = 0 := by
      rw [List.countP_eq_zero]
      intro v hv
      rw [isBool_of_mem_firsts hv]
      exact Bool.false_ne_true
    have hsize : listing.pool.dataSection.size = (dataLines values).length := by
      rw [← hnumbered.map_text_dataSection, List.length_map]
      rfl
    rw [hsize, dataLines, List.length_cons, List.length_append, length_blocks, hbool]
    simp [block]
    omega

example : firsts [.value (.int 42), .value (.bool true), .value (.string "hi"), .nothing,
    .value (.int 42)] = [.int 42, .string "hi"] := by decide

end LiteralPool
