import LiteralPool.Text.Shown

/-!
# Why a text is no list of literals

The ways in which a literal file can be malformed, and their wording.
-/

namespace LiteralPool

/-- What is wrong at one place of a literal file. -/
inductive Cause
  /-- No literal begins with this character. -/
  | unexpectedChar (c : Char)
  /-- Only what is `wanted` may stand here. -/
  | expected (wanted : String) (found : Char)
  /-- The integer is no signed 32-bit number. -/
  | integerOutOfRange (text : String)
  /-- The character behind a backslash makes no escape. -/
  | unknownEscape (c : Char)
  /-- The line or the file ends inside a string. -/
  | unterminatedString
  /-- The word is none of the keywords. -/
  | unknownKeyword (word : String)
deriving DecidableEq

namespace Cause

/-- A minus sign has to be followed by a digit. -/
def expectedDigit (found : Char) : Cause := expected "digit after '-'" found

/-- A literal has to be followed by white space, by a comment or by the end. -/
def expectedDelimiter (found : Char) : Cause :=
  expected "whitespace or comment after literal" found

/-- The wording of a cause. -/
def message : Cause → String
  | unexpectedChar c => "unexpected " ++ Text.showChar c
  | expected wanted found => "unexpected " ++ Text.showChar found ++ "\nexpected " ++ wanted
  | integerOutOfRange text => "integer literal `" ++ text ++ "` does not fit in 32 bits"
  | unknownEscape c => "unknown escape sequence `\\" ++ String.singleton c ++ "`"
  | unterminatedString => "string literal is missing its closing quote"
  | unknownKeyword word =>
    "unknown keyword `" ++ word ++ "`, expected `True`, `False` or `None`"

end Cause

end LiteralPool
