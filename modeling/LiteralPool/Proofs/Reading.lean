import Mathlib.Tactic.Common
import LiteralPool.TokenStream

/-!
# A whole reading, step by step

`Cursor.read` is all that is read from a place on. One step of the cursor says how it begins
(`read_of_token`, `read_of_end`, `read_of_fault`), so statements about a whole reading are
inductions over its tokens (`Cursor.stepwise`).

**The stream is the reading.** Call `TokenStream.next` again and again: the `n`th call yields the
`n`th answer of the reading, its tokens first and then the fault, and nothing beyond that
(`next_after`).
-/

namespace LiteralPool

namespace Cursor

/-- All that is read from a place on. -/
def read (c : Cursor) : Reading := TokenStream.drainFrom [] c

/-- A property holds of every cursor if it holds where no token is found, and holds in front of a
token if it holds behind it. -/
@[elab_as_elim]
theorem stepwise {motive : Cursor → Prop}
    (token : ∀ c t, c.step.answer = .ok (some t) → motive c.step.next → motive c)
    (done : ∀ c, c.step.answer = .ok none → motive c)
    (fault : ∀ c f, c.step.answer = .error f → motive c) (c : Cursor) : motive c := by
  induction hn : c.rest.length using Nat.strongRecOn generalizing c with
  | ind n ih =>
    match h : c.step.answer with
    | .ok (some t) => exact token c t h (ih _ (hn ▸ length_rest_lt_of_token h) c.step.next rfl)
    | .ok none => exact done c h
    | .error f => exact fault c f h

end Cursor

namespace TokenStream

variable {c : Cursor}

theorem drainFrom_of_token {t : Token} (h : c.step.answer = .ok (some t)) (before : List Token) :
    drainFrom before c = drainFrom (t :: before) c.step.next := by
  rw [drainFrom]
  split
  · next t' h' =>
    obtain rfl : t' = t := Option.some.inj (Except.ok.inj (h'.symm.trans h))
    rfl
  · next h' => cases h'.symm.trans h
  · next h' => cases h'.symm.trans h

theorem drainFrom_of_end (h : c.step.answer = .ok none) (before : List Token) :
    drainFrom before c = ⟨before.reverse, none, ⟨c.step.next, true⟩⟩ := by
  rw [drainFrom]
  split
  · next h' => cases h'.symm.trans h
  · rfl
  · next h' => cases h'.symm.trans h

theorem drainFrom_of_fault {f : Fault} (h : c.step.answer = .error f) (before : List Token) :
    drainFrom before c = ⟨before.reverse, some f, ⟨c.step.next, true⟩⟩ := by
  rw [drainFrom]
  split
  · next h' => cases h'.symm.trans h
  · next h' => cases h'.symm.trans h
  · next f' h' =>
    obtain rfl : f' = f := Except.error.inj (h'.symm.trans h)
    rfl

/-- The tokens that were kept come first. -/
theorem drainFrom_eq (before : List Token) (c : Cursor) :
    drainFrom before c =
      ⟨before.reverse ++ c.read.tokens, c.read.fault, c.read.stream⟩ := by
  induction c using Cursor.stepwise generalizing before with
  | token c t h ih =>
    rw [Cursor.read, drainFrom_of_token h, drainFrom_of_token h, ih (t :: before), ih [t],
      List.reverse_cons, List.append_assoc]
    rfl
  | done c h =>
    rw [Cursor.read, drainFrom_of_end h, drainFrom_of_end h, List.reverse_nil, List.append_nil]
  | fault c f h =>
    rw [Cursor.read, drainFrom_of_fault h, drainFrom_of_fault h, List.reverse_nil, List.append_nil]

end TokenStream

namespace Cursor

variable {c : Cursor}

theorem read_of_token {t : Token} (h : c.step.answer = .ok (some t)) :
    c.read = ⟨t :: c.step.next.read.tokens, c.step.next.read.fault, c.step.next.read.stream⟩ :=
  (TokenStream.drainFrom_of_token h []).trans (TokenStream.drainFrom_eq [t] c.step.next)

theorem read_of_end (h : c.step.answer = .ok none) : c.read = ⟨[], none, ⟨c.step.next, true⟩⟩ :=
  TokenStream.drainFrom_of_end h []

theorem read_of_fault {f : Fault} (h : c.step.answer = .error f) :
    c.read = ⟨[], some f, ⟨c.step.next, true⟩⟩ :=
  TokenStream.drainFrom_of_fault h []

end Cursor

theorem Source.read_eq (s : Source) : s.read = s.start.read := rfl

/-! ## The stream -/

/-- What a reading yields, one after the other. -/
def Reading.answers (r : Reading) : List (Except Fault Token) :=
  r.tokens.map .ok ++ (r.fault.map .error).toList

namespace TokenStream

/-- The stream after `n` calls of `next`. -/
def after (s : TokenStream) : Nat → TokenStream
  | 0 => s
  | n + 1 => s.next.2.after n

theorem after_finished (c : Cursor) (n : Nat) :
    (⟨c, true⟩ : TokenStream).after n = ⟨c, true⟩ := by
  induction n with
  | zero => rfl
  | succ n ih => exact ih

theorem next_of_token {c : Cursor} {t : Token} (h : c.step.answer = .ok (some t)) :
    (⟨c, false⟩ : TokenStream).next = (some (.ok t), ⟨c.step.next, false⟩) := by
  simp only [next, h]
  rfl

theorem next_of_end {c : Cursor} (h : c.step.answer = .ok none) :
    (⟨c, false⟩ : TokenStream).next = (none, ⟨c.step.next, true⟩) := by
  simp only [next, h]
  rfl

theorem next_of_fault {c : Cursor} {f : Fault} (h : c.step.answer = .error f) :
    (⟨c, false⟩ : TokenStream).next = (some (.error f), ⟨c.step.next, true⟩) := by
  simp only [next, h]
  rfl

/-- **The stream is the reading.** Its `n`th call yields the `n`th answer. -/
theorem next_after (c : Cursor) (n : Nat) :
    ((⟨c, false⟩ : TokenStream).after n).next.1 = c.read.answers[n]? := by
  induction n generalizing c with
  | zero =>
    match h : c.step.answer with
    | .ok (some t) =>
      rw [Cursor.read_of_token h]
      exact congrArg Prod.fst (next_of_token h)
    | .ok none =>
      rw [Cursor.read_of_end h]
      exact congrArg Prod.fst (next_of_end h)
    | .error f =>
      rw [Cursor.read_of_fault h]
      exact congrArg Prod.fst (next_of_fault h)
  | succ n ih =>
    match h : c.step.answer with
    | .ok (some t) =>
      rw [after, next_of_token h, ih, Cursor.read_of_token h]
      rfl
    | .ok none =>
      rw [after, next_of_end h, after_finished, Cursor.read_of_end h]
      rfl
    | .error f =>
      rw [after, next_of_fault h, after_finished, Cursor.read_of_fault h]
      rfl

end TokenStream

end LiteralPool
