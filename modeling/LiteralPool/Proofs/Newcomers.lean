import Mathlib
import LiteralPool.Proofs.Numbering

/-!
# Newcomers

Of the literals that are listed with a pool only the *newcomers* matter for it: the integers and
strings without a label, each where it first appears (`Pool.newcomers`).

**Theorem (`only_newcomers_matter`).** To list literals is to list the newcomers among them; to list
them again, at any later time, changes nothing and yields the same text; and of two lists with the
same integers and strings the order decides about nothing but the numbers.

To list one more literal is to request one more newcomer, or to change nothing
(`pool_list_newcomers`, an induction from the end of the list). The newcomers then say all about the
pool: each takes the next free label (`allocated_list`), and its constant comes last
(`constants_list`).
-/

namespace LiteralPool

open Text

theorem nodup_firsts (literals : List Literal) : (firsts literals).Nodup := by
  induction literals using List.reverseRecOn with
  | nil => exact List.nodup_nil
  | append_singleton literals l ih =>
    cases hl : l.stored? with
    | none =>
      rw [firsts_concat_of_none hl]
      exact ih
    | some v =>
      rw [firsts_concat_of_some hl]
      split_ifs with hv
      · exact ih
      · rw [← List.concat_eq_append]
        exact ih.concat hv

namespace Pool

variable {p : Pool} {literals : List Literal}

/-- The integers and strings among literals that have no label yet, each where it first appears. -/
def newcomers (p : Pool) (literals : List Literal) : List Value :=
  (firsts literals).filter fun v => (p.label? v).isNone

/-! ## Who they are -/

theorem mem_newcomers {v : Value} :
    v ∈ p.newcomers literals ↔ .value v ∈ literals ∧ p.label? v = none := by
  rw [newcomers, List.mem_filter, Option.isNone_iff_eq_none, and_congr_left_iff]
  intro hnone
  exact mem_firsts (isBool_of_label?_eq_none hnone)

theorem nodup_newcomers (p : Pool) (literals : List Literal) : (p.newcomers literals).Nodup :=
  (nodup_firsts literals).filter _

theorem newcomers_concat_of_none {l : Literal} (h : l.stored? = none) :
    p.newcomers (literals ++ [l]) = p.newcomers literals := by
  rw [newcomers, firsts_concat_of_none h]
  rfl

/-- One more value is a newcomer unless the pool, or the literals in front of it, hold it. -/
theorem newcomers_concat_of_some {l : Literal} {v : Value} (h : l.stored? = some v) :
    p.newcomers (literals ++ [l]) =
      if ((p.list literals).pool.label? v).isSome then p.newcomers literals
      else p.newcomers literals ++ [v] := by
  have hknown : ((p.list literals).pool.label? v).isSome ↔
      (p.label? v).isSome ∨ v ∈ firsts literals := by
    rw [isSome_label?_list_iff, mem_firsts (Literal.eq_of_stored? h).2]
  rw [newcomers, firsts_concat_of_some h]
  simp only [hknown]
  by_cases hv : v ∈ firsts literals
  · rw [if_pos hv, if_pos (.inr hv)]
    rfl
  · rw [if_neg hv, List.filter_append]
    cases hlabel : p.label? v with
    | some l => simp [newcomers, hlabel]
    | none => simp [newcomers, hlabel, hv]

/-- If every value has a label, there are none. -/
theorem newcomers_eq_nil (h : ∀ v, .value v ∈ literals → (p.label? v).isSome) :
    p.newcomers literals = [] := by
  rw [List.eq_nil_iff_forall_not_mem]
  intro v hv
  obtain ⟨hmem, hnone⟩ := mem_newcomers.mp hv
  have hsome := h v hmem
  rw [hnone] at hsome
  cases hsome

/-! ## They are all that is requested -/

/-- To list literals is to request the newcomers among them. -/
theorem pool_list_newcomers (p : Pool) (literals : List Literal) :
    (p.list literals).pool = p.after ((p.newcomers literals).map .value) := by
  induction literals using List.reverseRecOn with
  | nil => rfl
  | append_singleton literals l ih =>
    rw [list_concat]
    show ((p.list literals).pool.requestLiteral l).2 = _
    cases hl : l.stored? with
    | none => rw [requestLiteral_of_stored? hl, newcomers_concat_of_none hl, ih]
    | some v =>
      obtain ⟨rfl, -⟩ := Literal.eq_of_stored? hl
      show ((p.list literals).pool.request v).2 = _
      rw [newcomers_concat_of_some hl]
      cases hv : (p.list literals).pool.label? v with
      | some label =>
        rw [request_of_some hv]
        exact ih
      | none =>
        rw [ih, if_neg (by simp), List.map_append, after_append]
        rfl

/-- It makes no difference whether values are listed or requested. -/
theorem pool_list_values (p : Pool) (values : List Value) :
    (p.list (values.map .value)).pool = p.after (values.map .value) := by
  rw [pool_list]
  induction values generalizing p with
  | nil => rfl
  | cons v values ih => exact ih (p.request v).2

/-- Values that a pool has no labels for take the next free ones. -/
theorem after_of_nodup {values : List Value} (hnodup : values.Nodup)
    (hnone : ∀ v ∈ values, p.label? v = none) :
    (p.after (values.map .value)).free = p.free + values.length ∧
      (p.after (values.map .value)).constants =
        p.constants ++ (values.zipIdx p.free).map fun e => ⟨⟨e.2⟩, e.1⟩ := by
  induction values using List.reverseRecOn with
  | nil => simp
  | append_singleton values v ih =>
    rw [← List.concat_eq_append, List.nodup_concat] at hnodup
    obtain ⟨hfree, hconstants⟩ := ih hnodup.2 fun w hw => hnone w (List.mem_append_left _ hw)
    -- The values in front of it are others, so it still has no label.
    have hv : (p.after (values.map .value)).label? v = none := by
      have hold : p.label? v = none := hnone v (by simp)
      rw [← Option.not_isSome_iff_eq_none, isSome_label?_after, hold]
      simpa [Request.value?] using hnodup.1
    have hlast : p.after ((values ++ [v]).map .value) =
        (p.after (values.map .value)).enter v hv := by
      rw [List.map_append, after_append]
      show ((p.after (values.map .value)).request v).2 = _
      rw [request_of_none hv]
    rw [hlast, free_enter, constants_enter, hfree, hconstants, List.zipIdx_append]
    constructor
    · simp
      omega
    · simp

theorem allocated_list (p : Pool) (literals : List Literal) :
    (p.list literals).pool.allocated = p.allocated + (p.newcomers literals).length := by
  rw [pool_list_newcomers]
  exact (after_of_nodup (p.nodup_newcomers literals) fun v hv => (mem_newcomers.mp hv).2).1

theorem constants_list (p : Pool) (literals : List Literal) :
    (p.list literals).pool.constants =
      p.constants ++ ((p.newcomers literals).zipIdx p.free).map fun e => ⟨⟨e.2⟩, e.1⟩ := by
  rw [pool_list_newcomers]
  exact (after_of_nodup (p.nodup_newcomers literals) fun v hv => (mem_newcomers.mp hv).2).2

/-- Two lists leave the same pool if and only if they have the same newcomers in the same order. -/
theorem pool_list_eq_iff {p : Pool} {literals others : List Literal} :
    (p.list literals).pool = (p.list others).pool ↔ p.newcomers literals = p.newcomers others := by
  constructor
  · intro h
    have hvalue : ∀ values : List Value, ((values.zipIdx p.free).map fun e =>
        (⟨⟨e.2⟩, e.1⟩ : Constant)).map Constant.value = values := by
      intro values
      rw [List.map_map]
      exact List.zipIdx_map_fst p.free values
    have hconstants := congrArg constants h
    rw [constants_list, constants_list, List.append_cancel_left_eq] at hconstants
    rw [← hvalue (p.newcomers literals), hconstants, hvalue]
  · intro h
    rw [pool_list_newcomers, pool_list_newcomers, h]

/-- Lists with the same integers and strings have the same newcomers, in some order. -/
theorem newcomers_perm {others : List Literal}
    (h : ∀ v, v.isBool = false → (.value v ∈ literals ↔ .value v ∈ others)) :
    (p.newcomers literals).Perm (p.newcomers others) := by
  rw [List.perm_ext_iff_of_nodup (p.nodup_newcomers literals) (p.nodup_newcomers others)]
  intro v
  rw [mem_newcomers, mem_newcomers, and_congr_left_iff]
  intro hnone
  exact h v (isBool_of_label?_eq_none hnone)

/-- Literals that were listed before are listed as they were, at any later time. -/
theorem list_again (p : Pool) (literals : List Literal) (rs : List Request) :
    ((p.list literals).pool.after rs).list literals =
      ⟨(p.list literals).text, (p.list literals).pool.after rs⟩ := by
  have hknown : ∀ v, .value v ∈ literals →
      (((p.list literals).pool.after rs).label? v).isSome := by
    intro v hv
    exact (isSome_label?_after _ _ v).mpr (.inl (p.isSome_label?_list hv))
  have hpool : (((p.list literals).pool.after rs).list literals).pool =
      (p.list literals).pool.after rs := by
    rw [pool_list_newcomers, newcomers_eq_nil hknown]
    rfl
  have hlabel : ∀ l ∈ literals,
      ((p.list literals).pool.after rs).labelOf? l = (p.list literals).pool.labelOf? l := by
    intro l hl
    cases l with
    | nothing => rfl
    | value v =>
      obtain ⟨label, hv⟩ := Option.isSome_iff_exists.mp (p.isSome_label?_list hl)
      exact (label?_after hv rs).trans hv.symm
  have htext : (((p.list literals).pool.after rs).list literals).text = (p.list literals).text := by
    rw [text_list, hpool, text_list]
    exact congrArg unlines (List.map_congr_left fun l hl => by rw [hlabel l hl])
  cases hlisting : ((p.list literals).pool.after rs).list literals with
  | mk text pool =>
    rw [hlisting] at hpool htext
    rw [← hpool, ← htext]

/-! ## What is stored -/

/-- What a table lists of one kind of value is what has a label. -/
theorem mem_filterMap_table {α : Type} (kind : α → Value)
    {keep : Value × Label → Option (α × Label)}
    (h : ∀ e a l, keep e = some (a, l) ↔ e = (kind a, l)) {a : α} :
    a ∈ (p.table.toList.filterMap keep).map Prod.fst ↔ (p.label? (kind a)).isSome := by
  rw [Option.isSome_iff_exists, List.mem_map]
  unfold label?
  simp only [← Std.TreeMap.mem_toList_iff_getElem?_eq_some, List.mem_filterMap]
  constructor
  · rintro ⟨⟨b, l⟩, ⟨e, hmem, he⟩, rfl⟩
    rw [h] at he
    exact ⟨l, he ▸ hmem⟩
  · rintro ⟨l, hmem⟩
    exact ⟨(a, l), ⟨_, hmem, (h _ a l).mpr rfl⟩, rfl⟩

theorem mem_ints {n : Int32} : n ∈ p.ints.map Prod.fst ↔ (p.label? (.int n)).isSome := by
  refine mem_filterMap_table .int fun e m l => ?_
  obtain ⟨v, l'⟩ := e
  cases v <;> simp

theorem mem_strings {s : String} : s ∈ p.strings.map Prod.fst ↔ (p.label? (.string s)).isSome := by
  refine mem_filterMap_table .string fun e t l => ?_
  obtain ⟨v, l'⟩ := e
  cases v <;> simp

/-- **Only newcomers matter.** Take any pool and any two lists of literals. To list the first one
leaves the pool that is left by its newcomers, listed alone, and as many more labels are given away
as there are newcomers. To list it again, whatever was requested in between, leaves the pool as it
is and yields the same text, line by line. If the lists have the same integers and strings, then in
whatever order they come, equally many labels are given away and the same integers and strings are
stored. And they leave the same pool if and only if their newcomers first appear in the same
order. -/
theorem only_newcomers_matter (p : Pool) (literals others : List Literal) :
    ((p.list literals).pool = (p.list ((p.newcomers literals).map .value)).pool ∧
      (p.list literals).pool.allocated = p.allocated + (p.newcomers literals).length) ∧
    (∀ rs, (((p.list literals).pool.after rs).list literals).pool =
        (p.list literals).pool.after rs ∧
      lines (((p.list literals).pool.after rs).list literals).text =
        lines (p.list literals).text) ∧
    ((∀ v, v.isBool = false → (.value v ∈ literals ↔ .value v ∈ others)) →
      (p.list literals).pool.allocated = (p.list others).pool.allocated ∧
      (∀ n, n ∈ (p.list literals).pool.ints.map Prod.fst ↔
        n ∈ (p.list others).pool.ints.map Prod.fst) ∧
      ∀ s, s ∈ (p.list literals).pool.strings.map Prod.fst ↔
        s ∈ (p.list others).pool.strings.map Prod.fst) ∧
    ((p.list literals).pool = (p.list others).pool ↔
      p.newcomers literals = p.newcomers others) := by
  refine ⟨⟨?_, p.allocated_list literals⟩, ?_, ?_, pool_list_eq_iff⟩
  · rw [pool_list_values, pool_list_newcomers]
  · intro rs
    rw [list_again]
    exact ⟨rfl, rfl⟩
  · intro h
    refine ⟨?_, ?_, ?_⟩
    · rw [allocated_list, allocated_list, (newcomers_perm h).length_eq]
    · intro n
      rw [mem_ints, mem_ints, isSome_label?_list_iff, isSome_label?_list_iff, h _ rfl]
    · intro s
      rw [mem_strings, mem_strings, isSome_label?_list_iff, isSome_label?_list_iff, h _ rfl]

/-- A Boolean, `None`, a repeat and an integer that has a label; and the rest in another order. -/
theorem only_newcomers_matter_of_known_integer :
    let p := empty.after [.value (.int 7), .label]
    let literals : List Literal := [.value (.bool true), .value (.string "a"), .value (.int 7),
      .nothing, .value (.string "a"), .value (.int 8)]
    let others : List Literal := [.value (.int 8), .value (.int 7), .value (.string "a")]
    (p.list literals).pool = (p.list [.value (.string "a"), .value (.int 8)]).pool ∧
    (∀ v, v.isBool = false → (.value v ∈ literals ↔ .value v ∈ others)) ∧
    (p.list literals).pool.allocated = (p.list others).pool.allocated ∧
    (p.list literals).pool ≠ (p.list others).pool := by
  intro p literals others
  obtain ⟨⟨hnewcomers, -⟩, -, hsame, horder⟩ := only_newcomers_matter p literals others
  have hmem : ∀ v, v.isBool = false → (.value v ∈ literals ↔ .value v ∈ others) := by
    intro v hv
    cases v with
    | bool b => cases hv
    | int n => simpa [literals, others] using or_comm
    | string s => simp [literals, others]
  refine ⟨?_, hmem, (hsame hmem).1, ?_⟩
  · have hrest : (p.newcomers literals).map .value =
        [Literal.value (.string "a"), .value (.int 8)] := by decide
    rw [hnewcomers, hrest]
  · rw [ne_eq, horder]
    decide

end Pool

end LiteralPool
