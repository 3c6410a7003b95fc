import LiteralPool.Text.Hidden

/-!
# Characters and strings as messages show them

A message shows a character between apostrophes and a string between quotes, with everything that
would not be seen, or that would be mistaken for the end, behind a backslash. Every character is
written on its own, whatever its neighbours are (`showString`).

Which characters are hidden is a parameter of `shown`, because nothing about the format hangs on
the exact set.
-/

namespace LiteralPool.Text

/-- The letter behind the backslash for a character that has one of its own. -/
def shortForm? : Char → Option Char
  | '\x00' => some '0'
  | '\t' => some 't'
  | '\n' => some 'n'
  | '\r' => some 'r'
  | '\\' => some '\\'
  | _ => none

/-- How `c` is written between two marks `quote`. -/
def shown (hidden : Char → Bool) (quote c : Char) : List Char :=
  match shortForm? c with
  | some letter => ['\\', letter]
  | none =>
    if c = quote then ['\\', quote]
    else if hidden c then '\\' :: 'u' :: '\x7b' :: (Nat.toDigits 16 c.toNat ++ ['\x7d'])
    else [c]

/-- The character between apostrophes. -/
def showChar (c : Char) : String :=
  String.ofList ('\'' :: (shown isHidden '\'' c ++ ['\'']))

/-- The string between quotes. -/
def showString (s : String) : String :=
  String.ofList ('"' :: (s.toList.flatMap (shown isHidden '"') ++ ['"']))

end LiteralPool.Text
