import Std.Data.TreeMap
import LiteralPool.Literal

/-!
# The pool of values

A pool gives every value one label. The first two labels belong to `false` and `true`; every other
value takes the next free label when it is first requested, and keeps it. Labels can also be drawn
that belong to no value.

The type carries what every operation keeps: labels in the table are below the next free one, no
two values share a label, and the Booleans have the first two.

`Pool.constants` is the table in the order of its labels. As no two values share a label, it does
not depend on the order in which the table is enumerated.
-/

namespace LiteralPool

open Std (TreeMap)

/-- The symbolic name of a stored value. -/
structure Label where
  suffix : Nat
deriving DecidableEq

namespace Label

/-- The name of a label in listings and in assembly text. -/
def name (l : Label) : String := "const_" ++ l.suffix.repr

/-- The first two labels belong to the Booleans. -/
def ofBool (b : Bool) : Label := ⟨b.toNat⟩

end Label

/-- A value under its label. -/
structure Constant where
  label : Label
  value : Value
deriving DecidableEq

/-- The labels of the values that were requested so far. -/
structure Pool where
  /-- The suffix of the next free label. -/
  free : Nat
  table : TreeMap Value Label
  suffix_lt_free : ∀ {v : Value} {l : Label}, table[v]? = some l → l.suffix < free
  eq_of_label_eq : ∀ {v w : Value} {l : Label}, table[v]? = some l → table[w]? = some l → v = w
  label_bool : ∀ b, table[Value.bool b]? = some (Label.ofBool b)

namespace Pool

/-- The pool that holds the Booleans only. -/
def empty : Pool where
  free := 2
  table := (∅ : TreeMap Value Label).insert (.bool false) (.ofBool false)
    |>.insert (.bool true) (.ofBool true)
  suffix_lt_free {v l} h := by
    rw [TreeMap.getElem?_insert, TreeMap.getElem?_insert] at h
    grind [Label.ofBool]
  eq_of_label_eq {v w l} h h' := by
    rw [TreeMap.getElem?_insert, TreeMap.getElem?_insert] at h h'
    grind [Label.ofBool]
  label_bool b := by
    rw [TreeMap.getElem?_insert, TreeMap.getElem?_insert]
    cases b <;> rfl

/-- The number of labels given away so far. -/
def allocated (p : Pool) : Nat := p.free

/-- The label of a value, if it has one. -/
def label? (p : Pool) (v : Value) : Option Label := p.table[v]?

/-- Gives away the next free label, for no value. -/
def allocate (p : Pool) : Label × Pool :=
  (⟨p.free⟩,
    { p with
      free := p.free + 1
      suffix_lt_free := fun h => Nat.lt_succ_of_lt (p.suffix_lt_free h) })

/-- Gives the next free label to a value that has none. -/
def enter (p : Pool) (v : Value) (h : p.label? v = none) : Pool where
  free := p.free + 1
  table := p.table.insert v ⟨p.free⟩
  suffix_lt_free {w l} hw := by
    have := @p.suffix_lt_free w l
    rw [TreeMap.getElem?_insert] at hw
    grind
  eq_of_label_eq {u w l} hu hw := by
    have := @p.eq_of_label_eq u w l
    have := @p.suffix_lt_free u l
    have := @p.suffix_lt_free w l
    rw [TreeMap.getElem?_insert] at hu hw
    grind
  label_bool b := by
    have := p.label_bool b
    rw [TreeMap.getElem?_insert]
    grind [label?]

/-- The label of a value, which is entered if it has none. -/
def request (p : Pool) (v : Value) : Label × Pool :=
  match h : p.label? v with
  | some l => (l, p)
  | none => (⟨p.free⟩, p.enter v h)

/-- The label of a literal; `None` has none. -/
def requestLiteral (p : Pool) : Literal → Option Label × Pool
  | .value v => let (l, p) := p.request v; (some l, p)
  | .nothing => (none, p)

/-- The constants of a table that is enumerated in any order, in the order of their labels. -/
def constantsOf (entries : List (Value × Label)) : List Constant :=
  (entries.map fun e => ⟨e.2, e.1⟩).mergeSort fun a b => a.label.suffix ≤ b.label.suffix

/-- The values of the pool in the order of their labels. -/
def constants (p : Pool) : List Constant := constantsOf p.table.toList

/-- The Booleans with their labels, `false` first. -/
def bools (p : Pool) : List (Bool × Label) :=
  p.table.toList.filterMap fun
    | (.bool b, l) => some (b, l)
    | _ => none

/-- The integers of the pool in ascending order, with their labels. -/
def ints (p : Pool) : List (Int32 × Label) :=
  p.table.toList.filterMap fun
    | (.int n, l) => some (n, l)
    | _ => none

/-- The strings of the pool in the order of their code points, with their labels. -/
def strings (p : Pool) : List (String × Label) :=
  p.table.toList.filterMap fun
    | (.string s, l) => some (s, l)
    | _ => none

end Pool

/-- What can be asked of a pool. -/
inductive Request
  /-- A label of its own. -/
  | label
  | value (v : Value)
  | literal (l : Literal)
deriving DecidableEq

/-- The label that answers a request, if there is one, and the pool after it. -/
def Pool.answer (p : Pool) : Request → Option Label × Pool
  | .label => let (l, p) := p.allocate; (some l, p)
  | .value v => let (l, p) := p.request v; (some l, p)
  | .literal l => p.requestLiteral l

end LiteralPool
