import ClassLang.Source

/-!
Why a source does not fall into tokens.
-/

namespace ClassLang

/-- What is wrong with a piece of text. -/
inductive LexCause where
  | unrecognizedCharacter (c : Char)
  | unclosedComment
  | unclosedString
  | unclosedChar
  | expectedSingleCharacter
  | invalidEscape (c : Char)
  | invalidNumber
  | nonAsciiBytes
deriving DecidableEq, Repr

/-- The wording of a cause. -/
def LexCause.message : LexCause → String
  | unrecognizedCharacter c => "Unrecognized character `" ++ c.toString ++ "`."
  | unclosedComment => "Unclosed multi-line comment."
  | unclosedString => "Unclosed string literal."
  | unclosedChar => "Unclosed char literal."
  | expectedSingleCharacter => "Char literals must contain exactly one character."
  | invalidEscape c => "Invalid escape sequence `\\" ++ c.toString ++ "`."
  | invalidNumber => "Invalid numeric literal."
  | nonAsciiBytes => "Byte strings may only contain ASCII characters."

/-- A cause and the stretch of the source it is about. -/
structure LexError where
  span : Span
  cause : LexCause
deriving DecidableEq, Repr

end ClassLang
