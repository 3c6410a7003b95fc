import Mathlib
import LiteralPool.Proofs.Requests

/-!
# The constants of a pool

`Pool.constants` is fixed by the labels: it holds a constant exactly if its value has its label
(`mem_constants`), and its labels ascend (`pairwise_constants`). No two lists do both, so to know
the constants of a pool is to find one such list (`constants_eq_of_mem_iff`). A value that is
entered comes last (`constants_enter`), and a draw changes nothing (`constants_allocate`).

**Theorem (`constants_complete`).** After every run on a fresh pool, the constants are the Booleans
and the values that were requested, each once, in the order of their labels; the labels that are
missing are those that were drawn for no value; and the list does not depend on the order in which
the table is enumerated.

What a run adds comes last (`constants_after`), so the Booleans stay in front. The labels without a
value are followed along the run by `spare_answer_iff` and `spare_after_iff`. That the order of
enumeration does not matter is `constantsOf_eq_of_perm`: no two constants compare as equal.
-/

namespace LiteralPool

/-- The first constant has the lower label. -/
def Constant.Before (a b : Constant) : Prop := a.label.suffix < b.label.suffix

instance : Std.Irrefl Constant.Before := ⟨fun a => Nat.lt_irrefl a.label.suffix⟩

instance : Std.Antisymm Constant.Before := ⟨fun _ _ h h' => absurd h' (Nat.lt_asymm h)⟩

namespace Pool

variable {p : Pool}

theorem mem_constants {c : Constant} : c ∈ p.constants ↔ p.label? c.value = some c.label := by
  unfold constants constantsOf
  rw [List.mem_mergeSort, List.mem_map]
  constructor
  · intro ⟨⟨v, l⟩, hmem, hc⟩
    rw [← hc]
    exact Std.TreeMap.mem_toList_iff_getElem?_eq_some.mp hmem
  · intro h
    exact ⟨(c.value, c.label), Std.TreeMap.mem_toList_iff_getElem?_eq_some.mpr h, rfl⟩

theorem nodup_constants (p : Pool) : p.constants.Nodup := by
  unfold constants constantsOf
  rw [(List.mergeSort_perm _ _).nodup_iff]
  refine List.Nodup.map ?_ ?_
  · intro e e' h
    obtain ⟨hl, hv⟩ := Constant.mk.inj h
    exact Prod.ext hv hl
  · -- The table lists no value twice.
    refine Std.TreeMap.distinct_keys_toList.imp fun {e e'} hne h => hne ?_
    rw [h]
    exact Std.ReflCmp.compare_self

/-- No two constants have the same label. -/
theorem eq_of_suffix_eq {a b : Constant} (ha : a ∈ p.constants) (hb : b ∈ p.constants)
    (h : a.label.suffix = b.label.suffix) : a = b := by
  have hl : a.label = b.label := congrArg Label.mk h
  have hv : a.value = b.value :=
    p.eq_of_label_eq (mem_constants.mp ha) (hl ▸ mem_constants.mp hb)
  cases a
  cases b
  exact congrArg₂ Constant.mk hl hv

/-- Constants are sorted by their labels, whatever the table holds. -/
theorem pairwise_constantsOf (entries : List (Value × Label)) :
    (constantsOf entries).Pairwise fun a b => decide (a.label.suffix ≤ b.label.suffix) := by
  apply List.pairwise_mergeSort
  · intro a b c hab hbc
    exact decide_eq_true ((of_decide_eq_true hab).trans (of_decide_eq_true hbc))
  · intro a b
    simp only [Bool.or_eq_true, decide_eq_true_eq]
    exact Nat.le_total _ _

theorem pairwise_constants (p : Pool) : p.constants.Pairwise Constant.Before := by
  apply ((pairwise_constantsOf p.table.toList).and p.nodup_constants).imp_of_mem
  intro a b ha hb h
  exact Nat.lt_of_le_of_ne (of_decide_eq_true h.1) fun heq => h.2 (eq_of_suffix_eq ha hb heq)

/-- The order in which the table is enumerated does not matter. -/
theorem constantsOf_eq_of_perm {entries : List (Value × Label)}
    (h : entries.Perm p.table.toList) : constantsOf entries = p.constants := by
  have hperm : (constantsOf entries).Perm p.constants := by
    unfold constants constantsOf
    exact (List.mergeSort_perm _ _).trans ((h.map _).trans (List.mergeSort_perm _ _).symm)
  have hequal : ∀ a b, a ∈ constantsOf entries → b ∈ p.constants →
      decide (a.label.suffix ≤ b.label.suffix) → decide (b.label.suffix ≤ a.label.suffix) →
      a = b := by
    intro a b ha hb hab hba
    have heq := Nat.le_antisymm (of_decide_eq_true hab) (of_decide_eq_true hba)
    exact eq_of_suffix_eq (hperm.mem_iff.mp ha) hb heq
  exact hperm.eq_of_pairwise hequal (pairwise_constantsOf entries)
    (pairwise_constantsOf p.table.toList)

/-- Ascending labels and the right members make a list the constants of the pool. -/
theorem constants_eq_of_mem_iff {cs : List Constant} (hcs : cs.Pairwise Constant.Before)
    (hmem : ∀ c, p.label? c.value = some c.label ↔ c ∈ cs) : p.constants = cs :=
  p.pairwise_constants.eq_of_mem_iff hcs fun c => mem_constants.trans (hmem c)

theorem constants_allocate (p : Pool) : p.allocate.2.constants = p.constants := rfl

/-- A value that is entered comes last. -/
theorem constants_enter {v : Value} (h : p.label? v = none) :
    (p.enter v h).constants = p.constants ++ [⟨⟨p.free⟩, v⟩] := by
  apply constants_eq_of_mem_iff
  · refine List.pairwise_append.mpr ⟨p.pairwise_constants, List.pairwise_singleton _ _, ?_⟩
    intro c hc d hd
    rw [List.mem_singleton.mp hd]
    exact p.suffix_lt_free (mem_constants.mp hc)
  · intro c
    rw [label?_enter, List.mem_append, List.mem_singleton, mem_constants]
    by_cases hv : v = c.value
    · subst hv
      rw [if_pos rfl, h]
      cases c
      simp [eq_comm]
    · rw [if_neg hv]
      constructor
      · exact .inl
      · intro h
        rcases h with hc | hc
        · exact hc
        · rw [hc] at hv
          exact absurd rfl hv

theorem constants_empty :
    empty.constants = [⟨.ofBool false, .bool false⟩, ⟨.ofBool true, .bool true⟩] := by
  apply constants_eq_of_mem_iff
  · simp [Constant.Before, Label.ofBool]
  · intro ⟨l, v⟩
    cases v with
    | bool b =>
      rw [label?_bool, Option.some.injEq]
      cases b <;> simp [eq_comm]
    | int n =>
      rw [label?_empty rfl]
      simp
    | string s =>
      rw [label?_empty rfl]
      simp

/-! ## Constants along a run -/

/-- The request is the first of a value: what it asks for has no label yet. -/
def Awaits (p : Pool) (r : Request) : Prop := ∃ v, r.value? = some v ∧ p.label? v = none

/-- A request adds constants at the end, and it adds some if and only if it is the first of a
value. -/
theorem constants_answer (p : Pool) (r : Request) :
    ∃ more, (p.answer r).2.constants = p.constants ++ more ∧ (more ≠ [] ↔ p.Awaits r) := by
  rcases p.answer_cases r with ⟨rfl, ha⟩ | ⟨rfl, ha⟩ | ⟨v, l, hr, hv, ha⟩ | ⟨v, hv, hr, ha⟩
  · refine ⟨[], ?_, by simp [Awaits, Request.value?]⟩
    rw [ha, constants_allocate, List.append_nil]
  · refine ⟨[], ?_, by simp [Awaits, Request.value?]⟩
    rw [ha, List.append_nil]
  · refine ⟨[], ?_, by simp [Awaits, hr, hv]⟩
    rw [ha, List.append_nil]
  · refine ⟨[⟨⟨p.free⟩, v⟩], ?_, by simp [Awaits, hr, hv]⟩
    rw [ha, constants_enter]

/-- A run adds constants at the end. -/
theorem constants_after (p : Pool) (rs : List Request) :
    ∃ more, (p.after rs).constants = p.constants ++ more := by
  induction rs generalizing p with
  | nil => exact ⟨[], (List.append_nil _).symm⟩
  | cons r rs ih =>
    obtain ⟨first, hfirst, -⟩ := p.constants_answer r
    obtain ⟨rest, hrest⟩ := ih (p.answer r).2
    refine ⟨first ++ rest, ?_⟩
    rw [after_cons, hrest, hfirst, List.append_assoc]

/-- The values with a constant are those with a label, and each has one. -/
theorem count_value_constants (p : Pool) (v : Value) :
    (p.constants.map Constant.value).count v = if (p.label? v).isSome then 1 else 0 := by
  have hnodup : (p.constants.map Constant.value).Nodup := by
    apply p.nodup_constants.map_on
    intro a ha b hb hv
    have hl : a.label = b.label := by
      apply Option.some.inj
      rw [← mem_constants.mp ha, ← mem_constants.mp hb, hv]
    exact eq_of_suffix_eq ha hb (congrArg Label.suffix hl)
  have hmem : v ∈ p.constants.map Constant.value ↔ (p.label? v).isSome := by
    rw [List.mem_map, Option.isSome_iff_exists]
    constructor
    · rintro ⟨c, hc, rfl⟩
      exact ⟨c.label, mem_constants.mp hc⟩
    · rintro ⟨l, hl⟩
      exact ⟨⟨l, v⟩, mem_constants.mpr hl, rfl⟩
  rw [hnodup.count]
  simp only [hmem]

/-- A value is listed under its label if and only if the request of it changes nothing and is
answered with that label. -/
theorem mem_constants_iff_answer {r : Request} {v : Value} (hr : r.value? = some v) (l : Label) :
    ⟨l, v⟩ ∈ p.constants ↔ p.answer r = (some l, p) := by
  rw [mem_constants, answer_of_value? hr]
  constructor
  · intro h
    rw [request_of_some h]
  · intro h
    cases hv : p.label? v with
    | some m =>
      rw [request_of_some hv] at h
      exact (Prod.mk.inj h).1
    | none =>
      -- The request would take a label.
      rw [request_of_none hv] at h
      have hfree : p.free + 1 = p.free := congrArg free (Prod.mk.inj h).2
      exact absurd hfree (Nat.succ_ne_self _)

/-! ## Labels without a value -/

theorem spare_iff (p : Pool) (l : Label) :
    p.Spare l ↔ l.suffix < p.allocated ∧ ∀ c ∈ p.constants, c.label.suffix ≠ l.suffix := by
  refine and_congr_right fun _ => ?_
  constructor
  · rintro h ⟨m, v⟩ hc hm
    obtain rfl : m = l := congrArg Label.mk hm
    exact h v (mem_constants.mp hc)
  · intro h v hv
    exact h ⟨l, v⟩ (mem_constants.mpr hv) rfl

/-- A label has no value after a request if it had none before, or was drawn by the request. -/
theorem spare_answer_iff (p : Pool) (r : Request) (l : Label) :
    (p.answer r).2.Spare l ↔ p.Spare l ∨ r = .label ∧ (p.answer r).1 = some l := by
  constructor
  · rintro ⟨hfree, hspare⟩
    rcases p.answer_cases r with ⟨rfl, ha⟩ | ⟨-, ha⟩ | ⟨v, m, -, -, ha⟩ | ⟨v, hv, -, ha⟩
    · rw [ha] at hfree hspare ⊢
      rcases Nat.lt_succ_iff_lt_or_eq.mp hfree with hlt | heq
      · exact .inl ⟨hlt, hspare⟩
      · exact .inr ⟨rfl, congrArg some (congrArg Label.mk heq.symm)⟩
    · rw [ha] at hfree hspare
      exact .inl ⟨hfree, hspare⟩
    · rw [ha] at hfree hspare
      exact .inl ⟨hfree, hspare⟩
    · rw [ha] at hfree hspare
      simp only [label?_enter] at hspare
      left
      constructor
      · -- The highest label is the one that the value was given.
        rcases Nat.lt_succ_iff_lt_or_eq.mp hfree with hlt | heq
        · exact hlt
        · refine absurd ?_ (hspare v)
          rw [if_pos rfl, ← heq]
      · intro w hw
        have hne : v ≠ w := by
          rintro rfl
          rw [hv] at hw
          cases hw
        exact hspare w (by rw [if_neg hne, hw])
  · rintro (h | ⟨rfl, hl⟩)
    · exact h.answer r
    · obtain rfl : (⟨p.free⟩ : Label) = l := Option.some.inj hl
      refine ⟨Nat.lt_succ_self _, fun v hv => ?_⟩
      exact absurd (p.suffix_lt_free hv) (Nat.lt_irrefl _)

/-- The labels without a value after a run are those before it and the answers to its draws. -/
theorem spare_after_iff (p : Pool) (rs : List Request) (l : Label) :
    (p.after rs).Spare l ↔
      p.Spare l ∨ ∃ i : Nat, rs[i]? = some .label ∧ (p.answers rs)[i]? = some (some l) := by
  induction rs generalizing p with
  | nil => simp
  | cons r rs ih =>
    have hfirst : (∃ i : Nat, (r :: rs)[i]? = some .label ∧
          (p.answers (r :: rs))[i]? = some (some l)) ↔
        (r = .label ∧ (p.answer r).1 = some l) ∨
          ∃ i : Nat, rs[i]? = some .label ∧ ((p.answer r).2.answers rs)[i]? = some (some l) := by
      rw [← Nat.or_exists_add_one]
      simp [answers]
    rw [after_cons, ih, spare_answer_iff, or_assoc, hfirst]

/-- The labels of a fresh pool belong to the Booleans. -/
theorem not_spare_empty (l : Label) : ¬ empty.Spare l := by
  rintro ⟨hfree, hspare⟩
  obtain ⟨n⟩ := l
  match n, hfree with
  | 0, _ => exact hspare (.bool false) (label?_bool _ _)
  | 1, _ => exact hspare (.bool true) (label?_bool _ _)

/-! ## Completeness -/

/-- The entries of a table, one kind of value behind the other. -/
def chained (bools : List (Bool × Label)) (ints : List (Int32 × Label))
    (strings : List (String × Label)) : List (Value × Label) :=
  bools.map (fun e => (.bool e.1, e.2)) ++
    (ints.map (fun e => (.int e.1, e.2)) ++ strings.map fun e => (.string e.1, e.2))

theorem chained_perm (p : Pool) : (chained p.bools p.ints p.strings).Perm p.table.toList := by
  unfold chained bools ints strings
  induction p.table.toList with
  | nil => exact .refl _
  | cons e entries ih =>
    match e with
    | (.bool b, l) => exact ih.cons _
    | (.int n, l) => exact List.perm_middle.trans (ih.cons _)
    | (.string s, l) =>
      simp only [List.filterMap_cons, List.map_cons] at ih ⊢
      rw [← List.append_assoc] at ih ⊢
      exact List.perm_middle.trans (ih.cons _)

/-- **Constants are complete.** After any run on a fresh pool, the labels of the constants ascend,
and the Booleans come first. Every value that was requested has one constant, so have the Booleans,
and no other value has any. A constant is listed if and only if its value, however it is requested,
is answered with its label and the pool stays as it is. The labels that are given away and not
listed are the answers to the draws. And the list is the same in whatever order the Booleans, the
integers and the strings of the table are enumerated. -/
theorem constants_complete (rs : List Request) :
    let p := empty.after rs
    p.constants.Pairwise Constant.Before ∧
    (∃ rest, p.constants = ⟨⟨0⟩, .bool false⟩ :: ⟨⟨1⟩, .bool true⟩ :: rest) ∧
    (∀ v, (p.constants.map Constant.value).count v =
      if v.isBool ∨ v ∈ rs.filterMap Request.value? then 1 else 0) ∧
    (∀ r v, r.value? = some v → ∀ l, ⟨l, v⟩ ∈ p.constants ↔ p.answer r = (some l, p)) ∧
    (∀ n, (n < p.allocated ∧ ∀ c ∈ p.constants, c.label.suffix ≠ n) ↔
      ∃ i : Nat, rs[i]? = some .label ∧ (empty.answers rs)[i]? = some (some ⟨n⟩)) ∧
    ∀ bools ints strings, bools.Perm p.bools → ints.Perm p.ints → strings.Perm p.strings →
      constantsOf (chained bools ints strings) = p.constants := by
  intro p
  refine ⟨p.pairwise_constants, ?_, ?_, ?_, ?_, ?_⟩
  · obtain ⟨rest, hrest⟩ := empty.constants_after rs
    refine ⟨rest, ?_⟩
    rw [hrest, constants_empty]
    rfl
  · intro v
    rw [count_value_constants]
    simp only [p, isSome_label?_after, isSome_label?_empty]
  · intro r v hr l
    exact mem_constants_iff_answer hr l
  · intro n
    rw [← p.spare_iff ⟨n⟩, spare_after_iff]
    simp [not_spare_empty]
  · intro bools ints strings hbools hints hstrings
    apply constantsOf_eq_of_perm
    refine List.Perm.trans ?_ p.chained_perm
    exact (hbools.map _).append ((hints.map _).append (hstrings.map _))

/-- Two strings that are enumerated in the order of their requests, `true` in front of `false`, and
a label that was drawn between the strings. -/
theorem constants_complete_of_strings :
    let p := empty.after
      [.value (.string "b"), .value (.int 7), .label, .literal (.value (.string "a"))]
    p.answer (.value (.string "a")) = (some ⟨5⟩, p) ∧
    constantsOf (chained [(true, ⟨1⟩), (false, ⟨0⟩)] [(7, ⟨3⟩)] [("b", ⟨2⟩), ("a", ⟨5⟩)]) =
      p.constants ∧
    4 < p.allocated ∧ ∀ c ∈ p.constants, c.label.suffix ≠ 4 := by
  intro p
  obtain ⟨-, -, -, hlisted, hdrawn, henumerated⟩ := constants_complete
    [.value (.string "b"), .value (.int 7), .label, .literal (.value (.string "a"))]
  have hlabel : p.label? (.string "a") = some ⟨5⟩ := by decide
  refine ⟨?_, ?_, ?_⟩
  · exact (hlisted (.value (.string "a")) _ rfl ⟨5⟩).mp (mem_constants.mpr hlabel)
  · exact henumerated _ _ _ (by decide) (by decide) (by decide)
  · exact (hdrawn 4).mpr ⟨2, rfl, by decide⟩

end Pool

end LiteralPool
