import LiteralPool.Assembly

/-!
# The data section of a pool

Every constant of the pool is stored at its label, in the order of the labels. A Boolean and an
integer take one word; a string takes a word with its length in bytes, and then its characters.
-/

namespace LiteralPool

/-- The word that gives the length of a string; a length beyond the largest word is given as
that. -/
def lengthWord (s : String) : Int32 := Int32.ofInt (min s.utf8ByteSize Int32.maxValue.toInt)

/-- The directives that store a value. -/
def Value.stored : Value → List Line
  | bool b => [.word (if b then 1 else 0)]
  | int n => [.word n]
  | string s => [.word (lengthWord s), .string s]

/-- The lines of one constant: its alignment, its label, and its value. -/
def Constant.lines (c : Constant) : List Line := .align 2 :: .label c.label :: c.value.stored

/-- The lines that store every constant of the pool. -/
def Pool.dataSection (p : Pool) : Assembly :=
  ⟨.data :: p.constants.flatMap Constant.lines⟩

end LiteralPool
