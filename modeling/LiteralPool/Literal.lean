import LiteralPool.Text.Shown

/-!
# Literals

A literal is a value that can be stored, or `None`, which stands for the absence of one and needs
no storage. `Literal.display` is its text in messages and listings: the text differs for different
literals.
-/

namespace LiteralPool

/-- A value that can be stored in a data section. -/
inductive Value
  | bool (b : Bool)
  | int (n : Int32)
  | string (s : String)
deriving DecidableEq

/-- What a literal file is made of: values, and the literal `None` that stands for none. -/
inductive Literal
  | value (v : Value)
  | nothing
deriving DecidableEq

namespace Value

/-- The keyword of a Boolean, the decimal digits of an integer, and a string between quotes. -/
def display : Value → String
  | bool true => "True"
  | bool false => "False"
  | int n => n.toInt.repr
  | string s => Text.showString s

/-- Booleans come before integers, and integers before strings; strings are in the order of their
code points, which is that of their bytes in UTF-8. -/
def order : Value → Value → Ordering
  | bool a, bool b => compare a b
  | bool _, _ => .lt
  | _, bool _ => .gt
  | int a, int b => compare a b
  | int _, _ => .lt
  | _, int _ => .gt
  | string a, string b => compare a b

instance : Ord Value := ⟨order⟩

theorem compare_eq_order (a b : Value) : compare a b = order a b := rfl

instance : Std.OrientedOrd Value where
  eq_swap {a b} := by
    rw [compare_eq_order, compare_eq_order]
    cases a <;> cases b
    case bool.bool a b => exact Std.OrientedOrd.eq_swap (a := a) (b := b)
    case int.int a b => exact Std.OrientedOrd.eq_swap (a := a) (b := b)
    case string.string a b => exact Std.OrientedOrd.eq_swap (a := a) (b := b)
    all_goals rfl

instance : Std.TransOrd Value where
  isLE_trans {a b c} := by
    rw [compare_eq_order, compare_eq_order, compare_eq_order]
    cases a <;> cases b <;> cases c
    case bool.bool.bool a b c => exact Std.TransOrd.isLE_trans (a := a) (b := b) (c := c)
    case int.int.int a b c => exact Std.TransOrd.isLE_trans (a := a) (b := b) (c := c)
    case string.string.string a b c => exact Std.TransOrd.isLE_trans (a := a) (b := b) (c := c)
    all_goals simp [order]

instance : Std.LawfulEqOrd Value where
  eq_of_compare {a b} := by
    rw [compare_eq_order]
    cases a <;> cases b
    case bool.bool => exact fun h => congrArg bool (Std.LawfulEqOrd.eq_of_compare h)
    case int.int => exact fun h => congrArg int (Std.LawfulEqOrd.eq_of_compare h)
    case string.string => exact fun h => congrArg string (Std.LawfulEqOrd.eq_of_compare h)
    all_goals simp [order]

end Value

namespace Literal

/-- The text of a literal in messages and listings. -/
def display : Literal → String
  | value v => v.display
  | nothing => "None"

/-- The literal that a keyword stands for. -/
def ofKeyword? (word : String) : Option Literal :=
  if word = "True" then some (value (.bool true))
  else if word = "False" then some (value (.bool false))
  else if word = "None" then some nothing
  else none

end Literal

end LiteralPool
