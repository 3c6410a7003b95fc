import Mathlib.Data.Finset.Card
import LiteralPool.Pool

/-!
# Runs of requests

A run sends requests to a pool, one after the other. `Pool.after` is the pool that a run leaves,
`Pool.answers` are the labels that it gave out.

**Theorem (`label_discipline`).** In every run on a fresh pool, requests of equal values get equal
labels and requests of different values different ones; a label that was drawn for no value is given
out once; and the number of labels given away counts the draws and the different values.

`answer_cases` says all that one request can do. From it follow the invariants of a run: a value
keeps its label (`label?_after`), the values with a label are those that were requested
(`isSome_label?_after`), and a drawn label stays without a value (`Spare.after`). Two answers far
apart are compared in the pool that the whole run leaves, which still knows both.
-/

namespace LiteralPool

namespace Request

/-- The value that a request asks for. -/
def value? : Request → Option Value
  | label => none
  | value v => some v
  | literal (.value v) => some v
  | literal .nothing => none

/-- The integer that a request asks for. -/
def int? (r : Request) : Option Int32 :=
  match r.value? with
  | some (.int n) => some n
  | _ => none

/-- The string that a request asks for. -/
def string? (r : Request) : Option String :=
  match r.value? with
  | some (.string s) => some s
  | _ => none

end Request

/-- Only an integer or a string takes a label when it is first requested. -/
def Value.isBool : Value → Bool
  | bool _ => true
  | _ => false

namespace Pool

/-- The pool after requests, one after the other. -/
def after (p : Pool) (rs : List Request) : Pool := rs.foldl (fun p r => (p.answer r).2) p

/-- The answers to requests, one after the other. -/
def answers (p : Pool) : List Request → List (Option Label)
  | [] => []
  | r :: rs => (p.answer r).1 :: (p.answer r).2.answers rs

@[simp] theorem after_nil (p : Pool) : p.after [] = p := rfl

@[simp] theorem after_cons (p : Pool) (r : Request) (rs : List Request) :
    p.after (r :: rs) = (p.answer r).2.after rs := rfl

theorem after_append (p : Pool) (rs rs' : List Request) :
    p.after (rs ++ rs') = (p.after rs).after rs' := List.foldl_append ..

/-! ## One request -/

@[simp] theorem free_allocate (p : Pool) : p.allocate.2.free = p.free + 1 := rfl

@[simp] theorem free_enter (p : Pool) (v : Value) (h : p.label? v = none) :
    (p.enter v h).free = p.free + 1 := rfl

theorem label?_enter (p : Pool) {v : Value} (h : p.label? v = none) (w : Value) :
    (p.enter v h).label? w = if v = w then some ⟨p.free⟩ else p.label? w := by
  show (p.table.insert v ⟨p.free⟩)[w]? = _
  rw [Std.TreeMap.getElem?_insert]
  simp only [Std.LawfulEqCmp.compare_eq_iff_eq, label?]

theorem label?_bool (p : Pool) (b : Bool) : p.label? (.bool b) = some (.ofBool b) := p.label_bool b

/-- A value without a label is an integer or a string. -/
theorem isBool_of_label?_eq_none {p : Pool} {v : Value} (h : p.label? v = none) :
    v.isBool = false := by
  cases v with
  | bool b => cases (label?_bool p b).symm.trans h
  | int n => rfl
  | string s => rfl

theorem request_of_some {p : Pool} {v : Value} {l : Label} (h : p.label? v = some l) :
    p.request v = (l, p) := by
  unfold request
  split
  · next l' h' =>
    obtain rfl : l' = l := Option.some.inj (h'.symm.trans h)
    rfl
  · next h' => cases h'.symm.trans h

theorem request_of_none {p : Pool} {v : Value} (h : p.label? v = none) :
    p.request v = (⟨p.free⟩, p.enter v h) := by
  unfold request
  split
  · next h' => cases h'.symm.trans h
  · rfl

/-- The label that is given out is the one that the value has afterwards. -/
theorem label?_request (p : Pool) (v : Value) :
    (p.request v).2.label? v = some (p.request v).1 := by
  cases h : p.label? v with
  | some l => rw [request_of_some h, h]
  | none => rw [request_of_none h, label?_enter, if_pos rfl]

/-- A value is requested in the same way directly and as a literal. -/
theorem answer_of_value? {p : Pool} {r : Request} {v : Value} (h : r.value? = some v) :
    p.answer r = (some (p.request v).1, (p.request v).2) := by
  match r with
  | .label => cases h
  | .value w =>
    obtain rfl : w = v := Option.some.inj h
    rfl
  | .literal (.value w) =>
    obtain rfl : w = v := Option.some.inj h
    rfl
  | .literal .nothing => cases h

/-- All that one request can do. -/
theorem answer_cases (p : Pool) (r : Request) :
    (r = .label ∧ p.answer r = (some ⟨p.free⟩, p.allocate.2)) ∨
    (r = .literal .nothing ∧ p.answer r = (none, p)) ∨
    (∃ v l, r.value? = some v ∧ p.label? v = some l ∧ p.answer r = (some l, p)) ∨
    ∃ v, ∃ h : p.label? v = none,
      r.value? = some v ∧ p.answer r = (some ⟨p.free⟩, p.enter v h) := by
  cases hvalue : r.value? with
  | none =>
    match r with
    | .label => exact .inl ⟨rfl, rfl⟩
    | .value _ => cases hvalue
    | .literal (.value _) => cases hvalue
    | .literal .nothing => exact .inr (.inl ⟨rfl, rfl⟩)
  | some v =>
    have hanswer := answer_of_value? (p := p) hvalue
    cases hlabel : p.label? v with
    | some l =>
      rw [request_of_some hlabel] at hanswer
      exact .inr (.inr (.inl ⟨v, l, rfl, hlabel, hanswer⟩))
    | none =>
      rw [request_of_none hlabel] at hanswer
      exact .inr (.inr (.inr ⟨v, hlabel, rfl, hanswer⟩))

/-! ## What a run keeps -/

theorem label?_answer {p : Pool} {v : Value} {l : Label} (h : p.label? v = some l) (r : Request) :
    (p.answer r).2.label? v = some l := by
  obtain ⟨-, ha⟩ | ⟨-, ha⟩ | ⟨w, m, -, -, ha⟩ | ⟨w, hw, -, ha⟩ := p.answer_cases r
  · rw [ha]
    exact h
  · rw [ha]
    exact h
  · rw [ha]
    exact h
  · rw [ha, label?_enter, if_neg, h]
    rintro rfl
    rw [h] at hw
    cases hw

theorem free_le_answer (p : Pool) (r : Request) : p.free ≤ (p.answer r).2.free := by
  obtain ⟨-, ha⟩ | ⟨-, ha⟩ | ⟨w, m, -, -, ha⟩ | ⟨w, hw, -, ha⟩ := p.answer_cases r <;> rw [ha] <;>
    simp

/-- A value keeps its label. -/
theorem label?_after {p : Pool} {v : Value} {l : Label} (h : p.label? v = some l)
    (rs : List Request) : (p.after rs).label? v = some l := by
  induction rs generalizing p with
  | nil => exact h
  | cons r rs ih => exact ih (label?_answer h r)

theorem free_le_after (p : Pool) (rs : List Request) : p.free ≤ (p.after rs).free := by
  induction rs generalizing p with
  | nil => exact Nat.le_refl _
  | cons r rs ih => exact (p.free_le_answer r).trans (ih _)

/-- The label was given away, and no value has it. -/
def Spare (p : Pool) (l : Label) : Prop := l.suffix < p.free ∧ ∀ v, p.label? v ≠ some l

theorem Spare.answer {p : Pool} {l : Label} (h : p.Spare l) (r : Request) :
    (p.answer r).2.Spare l := by
  refine ⟨h.1.trans_le (p.free_le_answer r), fun v hv => ?_⟩
  obtain ⟨-, ha⟩ | ⟨-, ha⟩ | ⟨w, m, -, -, ha⟩ | ⟨w, hw, -, ha⟩ := p.answer_cases r
  · rw [ha] at hv
    exact h.2 v hv
  · rw [ha] at hv
    exact h.2 v hv
  · rw [ha] at hv
    exact h.2 v hv
  · rw [ha, label?_enter] at hv
    split_ifs at hv with hwv
    · -- The label that is entered is above all that were given away.
      obtain rfl := Option.some.inj hv
      exact absurd h.1 (Nat.lt_irrefl _)
    · exact h.2 v hv

theorem Spare.after {p : Pool} {l : Label} (h : p.Spare l) (rs : List Request) :
    (p.after rs).Spare l := by
  induction rs generalizing p with
  | nil => exact h
  | cons r rs ih => exact ih (h.answer r)

/-- The values with a label are those that had one and those that were requested. -/
theorem isSome_label?_after (p : Pool) (rs : List Request) (v : Value) :
    ((p.after rs).label? v).isSome ↔ (p.label? v).isSome ∨ v ∈ rs.filterMap Request.value? := by
  induction rs generalizing p with
  | nil => simp
  | cons r rs ih =>
    rw [after_cons, ih]
    obtain ⟨rfl, ha⟩ | ⟨rfl, ha⟩ | ⟨w, l, hr, hw, ha⟩ | ⟨w, hw, hr, ha⟩ := p.answer_cases r
    · rw [ha]
      exact Iff.rfl
    · rw [ha]
      exact Iff.rfl
    · rw [ha, List.filterMap_cons_some hr, List.mem_cons]
      constructor
      · intro h
        exact h.imp_right .inr
      · intro h
        rcases h with h | rfl | h
        · exact .inl h
        · exact .inl (by rw [hw]; rfl)
        · exact .inr h
    · rw [ha, label?_enter, List.filterMap_cons_some hr, List.mem_cons, ← or_assoc]
      refine or_congr_left ?_
      by_cases hwv : w = v
      · simp [hwv]
      · simp [hwv, Ne.symm hwv]

theorem isSome_label?_empty (v : Value) : (empty.label? v).isSome ↔ v.isBool = true := by
  show ((∅ : Std.TreeMap Value Label).insert (.bool false) (.ofBool false) |>.insert (.bool true)
    (.ofBool true))[v]?.isSome ↔ _
  rw [Std.TreeMap.getElem?_insert, Std.TreeMap.getElem?_insert]
  simp only [Std.LawfulEqCmp.compare_eq_iff_eq, Std.TreeMap.getElem?_emptyc]
  match v with
  | .bool true => simp [Value.isBool]
  | .bool false => simp [Value.isBool]
  | .int n => simp [Value.isBool]
  | .string s => simp [Value.isBool]

theorem label?_empty {v : Value} (hv : v.isBool = false) : empty.label? v = none := by
  rw [← Option.not_isSome_iff_eq_none, isSome_label?_empty, hv]
  exact Bool.false_ne_true

/-! ## Counting -/

/-- The integers and strings that were requested. -/
def stored (rs : List Request) : Finset Value :=
  ((rs.filterMap Request.value?).filter fun v => !v.isBool).toFinset

theorem mem_stored {rs : List Request} {v : Value} :
    v ∈ stored rs ↔ v ∈ rs.filterMap Request.value? ∧ v.isBool = false := by
  simp [stored]

theorem isSome_label?_after_empty (rs : List Request) (v : Value) (hv : v.isBool = false) :
    ((empty.after rs).label? v).isSome ↔ v ∈ stored rs := by
  rw [isSome_label?_after, isSome_label?_empty, mem_stored, hv]
  simp

theorem card_stored (rs : List Request) :
    (stored rs).card =
      (rs.filterMap Request.int?).toFinset.card + (rs.filterMap Request.string?).toFinset.card := by
  have hint : Function.Injective Value.int := fun _ _ h => Value.int.inj h
  have hstring : Function.Injective Value.string := fun _ _ h => Value.string.inj h
  have hsplit : stored rs =
      (rs.filterMap Request.int?).toFinset.map ⟨_, hint⟩ ∪
        (rs.filterMap Request.string?).toFinset.map ⟨_, hstring⟩ := by
    ext v
    rw [mem_stored]
    cases v with
    | bool b => simp [Value.isBool]
    | int n =>
      have hr : ∀ r : Request, r.value? = some (.int n) ↔ r.int? = some n := by
        intro r
        unfold Request.int?
        split <;> simp_all
      simp [Value.isBool, hr]
    | string s =>
      have hr : ∀ r : Request, r.value? = some (.string s) ↔ r.string? = some s := by
        intro r
        unfold Request.string?
        split <;> simp_all
      simp [Value.isBool, hr]
  rw [hsplit, Finset.card_union_of_disjoint, Finset.card_map, Finset.card_map]
  rw [Finset.disjoint_left]
  intro v hv hv'
  obtain ⟨n, -, rfl⟩ := Finset.mem_map.mp hv
  obtain ⟨s, -, hs⟩ := Finset.mem_map.mp hv'
  cases hs

theorem stored_append (rs rs' : List Request) : stored (rs ++ rs') = stored rs ∪ stored rs' := by
  simp [stored]

theorem stored_singleton {r : Request} {v : Value} (hr : r.value? = some v)
    (hv : v.isBool = false) : stored [r] = {v} := by
  simp [stored, hr, hv]

theorem stored_singleton_bool {r : Request} {v : Value} (hr : r.value? = some v)
    (hv : v.isBool = true) : stored [r] = ∅ := by
  simp [stored, hr, hv]

theorem count_label_of_value? {r : Request} {v : Value} (hr : r.value? = some v) :
    [r].count .label = 0 := by
  refine List.count_eq_zero_of_not_mem fun h => ?_
  rw [← List.mem_singleton.mp h] at hr
  cases hr

/-- The labels that were given away belong to the Booleans, to the draws, or to the values. -/
theorem allocated_after_empty (rs : List Request) :
    (empty.after rs).allocated = 2 + rs.count .label + (stored rs).card := by
  induction rs using List.reverseRecOn with
  | nil => rfl
  | append_singleton rs r ih =>
    rw [after_append, after_cons, after_nil, stored_append, List.count_append]
    unfold allocated at ih ⊢
    obtain ⟨rfl, ha⟩ | ⟨rfl, ha⟩ | ⟨v, l, hr, hv, ha⟩ | ⟨v, hv, hr, ha⟩ :=
      (empty.after rs).answer_cases r
    · have hnone : stored [Request.label] = ∅ := rfl
      rw [ha, hnone, Finset.union_empty, free_allocate, ih, List.count_singleton_self]
      omega
    · have hnone : stored [Request.literal .nothing] = ∅ := rfl
      rw [ha, hnone, Finset.union_empty, ih]
      rfl
    · -- A value that has a label is a Boolean, or was counted before.
      have hknown : stored rs ∪ stored [r] = stored rs := by
        cases hbool : v.isBool with
        | true => rw [stored_singleton_bool hr hbool, Finset.union_empty]
        | false =>
          have hmem : v ∈ stored rs :=
            (isSome_label?_after_empty rs v hbool).mp (by rw [hv]; rfl)
          rw [stored_singleton hr hbool, Finset.union_eq_left.mpr (by simpa using hmem)]
      rw [ha, hknown, ih, count_label_of_value? hr, Nat.add_zero]
    · have hbool : v.isBool = false := isBool_of_label?_eq_none hv
      have hnew : v ∉ stored rs := by
        intro hmem
        have hsome := (isSome_label?_after_empty rs v hbool).mpr hmem
        rw [hv] at hsome
        cases hsome
      rw [ha, free_enter, ih, count_label_of_value? hr, stored_singleton hr hbool,
        Finset.card_union_of_disjoint (by simpa using hnew), Finset.card_singleton]
      omega

/-! ## The answers -/

theorem getElem?_answers (p : Pool) (rs : List Request) (i : Nat) :
    (p.answers rs)[i]? = rs[i]?.map fun r => ((p.after (rs.take i)).answer r).1 := by
  induction rs generalizing p i with
  | nil => rfl
  | cons r rs ih =>
    cases i with
    | zero => rfl
    | succ i => exact ih _ i

theorem after_take_succ (p : Pool) {rs : List Request} {i : Nat} {r : Request}
    (h : rs[i]? = some r) :
    p.after (rs.take (i + 1)) = ((p.after (rs.take i)).answer r).2 := by
  rw [List.take_add_one, h, after_append]
  rfl

/-- The rest of a run, behind its first `i` requests. -/
theorem after_take_drop (p : Pool) (rs : List Request) (i : Nat) :
    (p.after (rs.take i)).after (rs.drop i) = p.after rs := by
  rw [← after_append, List.take_append_drop]

/-- The answer to a request of a value is the label that the value has at the end of the run. -/
theorem getElem?_answers_of_value? (p : Pool) {rs : List Request} {i : Nat} {v : Value}
    (h : rs[i]?.bind Request.value? = some v) :
    ∃ l, (p.answers rs)[i]? = some (some l) ∧ (p.after rs).label? v = some l := by
  obtain ⟨r, hr, hv⟩ := Option.bind_eq_some_iff.mp h
  have hanswer := answer_of_value? (p := p.after (rs.take i)) hv
  refine ⟨((p.after (rs.take i)).request v).1, ?_, ?_⟩
  · rw [getElem?_answers, hr, Option.map_some, hanswer]
  · rw [← after_take_drop p rs (i + 1), after_take_succ p hr, hanswer]
    exact label?_after (label?_request _ v) _

/-- The answer to a draw is a label that no value has at the end of the run. -/
theorem getElem?_answers_of_label (p : Pool) {rs : List Request} {i : Nat}
    (hr : rs[i]? = some .label) :
    (p.answers rs)[i]? = some (some ⟨(p.after (rs.take i)).free⟩) ∧
      (p.after rs).Spare ⟨(p.after (rs.take i)).free⟩ := by
  refine ⟨by rw [getElem?_answers, hr]; rfl, ?_⟩
  rw [← after_take_drop p rs (i + 1), after_take_succ p hr]
  refine Spare.after ⟨Nat.lt_succ_self _, fun v hv => ?_⟩ _
  exact absurd ((p.after (rs.take i)).suffix_lt_free hv) (Nat.lt_irrefl _)

theorem free_take_mono (p : Pool) (rs : List Request) {i k : Nat} (h : i ≤ k) :
    (p.after (rs.take i)).free ≤ (p.after (rs.take k)).free := by
  have hsplit : (rs.take k).take i ++ (rs.take k).drop i = rs.take k := List.take_append_drop ..
  rw [List.take_take, Nat.min_eq_left h] at hsplit
  rw [← hsplit, after_append]
  exact free_le_after _ _

/-- A draw takes a label, so of two draws the later one finds a greater number. -/
theorem free_lt_of_label (p : Pool) {rs : List Request} {i k : Nat}
    (h : rs[i]? = some Request.label) (hik : i < k) :
    (p.after (rs.take i)).free < (p.after (rs.take k)).free := by
  refine lt_of_lt_of_le ?_ (p.free_take_mono rs hik)
  rw [after_take_succ p h]
  exact Nat.lt_succ_self _

theorem suffix_lt_answer {p : Pool} {r : Request} {l : Label} (h : (p.answer r).1 = some l) :
    l.suffix < (p.answer r).2.free := by
  obtain ⟨-, ha⟩ | ⟨-, ha⟩ | ⟨v, m, -, hv, ha⟩ | ⟨v, hv, -, ha⟩ := p.answer_cases r
  · rw [ha] at h ⊢
    obtain rfl := Option.some.inj h
    exact Nat.lt_succ_self _
  · rw [ha] at h
    cases h
  · rw [ha] at h ⊢
    obtain rfl := Option.some.inj h
    exact p.suffix_lt_free hv
  · rw [ha] at h ⊢
    obtain rfl := Option.some.inj h
    exact Nat.lt_succ_self _

/-- Every label that was given out is below the next free one from then on. -/
theorem suffix_lt_after (p : Pool) {rs : List Request} {i k : Nat} {l : Label} (hik : i < k)
    (h : (p.answers rs)[i]? = some (some l)) : l.suffix < (p.after (rs.take k)).free := by
  rw [getElem?_answers] at h
  obtain ⟨r, hr, hl⟩ := Option.map_eq_some_iff.mp h
  refine lt_of_lt_of_le ?_ (p.free_take_mono rs hik)
  rw [after_take_succ p hr]
  exact suffix_lt_answer hl

/-- Two requests of values are answered alike if and only if they ask for the same value. -/
theorem answers_eq_iff (p : Pool) {rs : List Request} {i j : Nat} {v w : Value}
    (hv : rs[i]?.bind Request.value? = some v) (hw : rs[j]?.bind Request.value? = some w) :
    ∃ l m, (p.answers rs)[i]? = some (some l) ∧ (p.answers rs)[j]? = some (some m) ∧
      (l = m ↔ v = w) := by
  obtain ⟨l, hl, hvl⟩ := p.getElem?_answers_of_value? hv
  obtain ⟨m, hm, hwm⟩ := p.getElem?_answers_of_value? hw
  refine ⟨l, m, hl, hm, ?_, ?_⟩
  · intro h
    subst h
    exact (p.after rs).eq_of_label_eq hvl hwm
  · intro h
    subst h
    exact Option.some.inj (hvl.symm.trans hwm)

/-- The answer to a draw is the answer to no other request. -/
theorem answers_ne_of_label (p : Pool) {rs : List Request} {i j : Nat}
    (hi : rs[i]? = some .label) (hij : i ≠ j) :
    ∃ l, (p.answers rs)[i]? = some (some l) ∧ (p.answers rs)[j]? ≠ some (some l) := by
  obtain ⟨hl, hspare⟩ := p.getElem?_answers_of_label hi
  refine ⟨_, hl, ?_⟩
  intro hj
  have hanswer := hj
  rw [getElem?_answers] at hanswer
  obtain ⟨r, hr, hrl⟩ := Option.map_eq_some_iff.mp hanswer
  cases hvalue : r.value? with
  | some v =>
    -- At the end of the run the value of the other request would have the drawn label.
    obtain ⟨m, hm, hvm⟩ :=
      p.getElem?_answers_of_value? (Option.bind_eq_some_iff.mpr ⟨r, hr, hvalue⟩)
    rw [hj, Option.some.injEq, Option.some.injEq] at hm
    exact hspare.2 v (hm ▸ hvm)
  | none =>
    match r with
    | .literal .nothing => cases hrl
    | .label =>
      have hsuffix := congrArg Label.suffix (Option.some.inj hrl)
      rcases Nat.lt_or_gt_of_ne hij with hlt | hgt
      · exact absurd hsuffix (p.free_lt_of_label hi hlt).ne'
      · exact absurd hsuffix (p.free_lt_of_label hr hgt).ne

/-- A value without a label takes the next free one, and every request of it is answered so. -/
theorem answers_of_first (p : Pool) {rs : List Request} {i j : Nat} {v : Value}
    (hnone : (p.after (rs.take i)).label? v = none) (hi : rs[i]?.bind Request.value? = some v)
    (hj : rs[j]?.bind Request.value? = some v) :
    (p.answers rs)[j]? = some (some ⟨(p.after (rs.take i)).free⟩) := by
  obtain ⟨r, hr, hrv⟩ := Option.bind_eq_some_iff.mp hi
  obtain ⟨l, m, hl, hm, hlm⟩ := p.answers_eq_iff hi hj
  rw [getElem?_answers, hr, Option.map_some, answer_of_value? hrv, request_of_none hnone] at hl
  rw [hm, ← hlm.mpr rfl, ← Option.some.inj (Option.some.inj hl)]

/-- Requests of `None` and of Booleans leave the pool as it is. -/
theorem answer_of_kept (p : Pool) {r : Request}
    (h : r = .literal .nothing ∨ ∃ b, r.value? = some (.bool b)) : (p.answer r).2 = p := by
  rcases h with h | ⟨b, hb⟩
  · rw [h]
    rfl
  · rw [answer_of_value? hb, request_of_some (label?_bool p b)]

/-- **Label discipline.** In a run on a fresh pool, whatever its requests are:
requests of values get the same label if and only if the values are the same; a label that is
drawn is given out once; after each step the labels given away are counted, and all labels given
out are among them; a new integer or string takes the next free label and keeps it; and requests of
Booleans and of `None` leave the pool as it is. -/
theorem label_discipline (rs : List Request) :
    let labels := empty.answers rs
    let pool (k : Nat) := empty.after (rs.take k)
    (∀ (i j : Nat) v w, rs[i]?.bind Request.value? = some v → rs[j]?.bind Request.value? = some w →
      ∃ l m, labels[i]? = some (some l) ∧ labels[j]? = some (some m) ∧ (l = m ↔ v = w)) ∧
    (∀ i j : Nat, rs[i]? = some .label → i ≠ j →
      ∃ l, labels[i]? = some (some l) ∧ labels[j]? ≠ some (some l)) ∧
    (∀ k, (pool k).allocated = 2 + (rs.take k).count Request.label +
        ((rs.take k).filterMap Request.int?).toFinset.card +
        ((rs.take k).filterMap Request.string?).toFinset.card ∧
      ∀ i < k, ∀ l, labels[i]? = some (some l) → l.suffix < (pool k).allocated) ∧
    (∀ (i j : Nat) v, v.isBool = false → rs[i]?.bind Request.value? = some v →
      v ∉ (rs.take i).filterMap Request.value? → rs[j]?.bind Request.value? = some v →
      labels[j]? = some (some ⟨(pool i).allocated⟩)) ∧
    (∀ (i : Nat) r, rs[i]? = some r → (r = .literal .nothing ∨ ∃ b, r.value? = some (.bool b)) →
      pool (i + 1) = pool i) := by
  intro labels pool
  refine ⟨?_, ?_, ?_, ?_, ?_⟩
  · intro i j v w hv hw
    exact empty.answers_eq_iff hv hw
  · intro i j hi hij
    exact empty.answers_ne_of_label hi hij
  · intro k
    constructor
    · rw [allocated_after_empty, card_stored]
      omega
    · intro i hik l hl
      exact empty.suffix_lt_after hik hl
  · intro i j v hbool hi hnew hj
    have hnone : (pool i).label? v = none := by
      rw [← Option.not_isSome_iff_eq_none, isSome_label?_after_empty _ _ hbool, mem_stored]
      exact fun h => hnew h.1
    exact empty.answers_of_first hnone hi hj
  · intro i r hr hkind
    exact (empty.after_take_succ hr).trans ((pool i).answer_of_kept hkind)

/-- An integer is requested directly and as a literal, with draws and a string in between. It has
one label, the first after a draw, and the draws have two others. -/
theorem label_discipline_of_draws :
    let labels := empty.answers
      [.label, .value (.int 7), .literal (.value (.string "7")), .label, .literal (.value (.int 7))]
    (∃ l, labels[1]? = some (some l) ∧ labels[4]? = some (some l)) ∧
    (∃ l, labels[0]? = some (some l) ∧ labels[3]? ≠ some (some l)) ∧
    labels[4]? = some (some ⟨3⟩) := by
  obtain ⟨hsame, hdrawn, -, hfirst, -⟩ := label_discipline
    [.label, .value (.int 7), .literal (.value (.string "7")), .label, .literal (.value (.int 7))]
  obtain ⟨l, m, hl, hm, hlm⟩ := hsame 1 4 (.int 7) (.int 7) rfl rfl
  rw [← hlm.mpr rfl] at hm
  have hnew : Value.int 7 ∉ [Request.label].filterMap Request.value? := List.not_mem_nil
  exact ⟨⟨l, hl, hm⟩, hdrawn 0 3 rfl (by decide), hfirst 1 4 (.int 7) rfl rfl hnew rfl⟩

end Pool

end LiteralPool
