import ClassLang.Syntax.Operator

/-!
The punctuation marks.

* `Punct.ofSpelling?_spelling`: a mark is read back from its spelling.
-/

namespace ClassLang

/-- A punctuation mark. -/
inductive Punct where
  | plus | minus | star | starStar | slash | percent | ampersand | pipe | caret | tilde
  | shl | shr | eqEq | bangEq | lt | le | gt | ge
  | colonEq | eq | plusEq | minusEq | starEq | starStarEq | slashEq | percentEq
  | ampersandEq | pipeEq | caretEq | shlEq | shrEq
  | dot | arrow | comma | semicolon | colon
  | openParen | closeParen | openBracket | closeBracket | openBrace | closeBrace
deriving DecidableEq, Repr

namespace Punct

/-- The characters of the mark. -/
def chars : Punct → List Char
  | plus => ['+']
  | minus => ['-']
  | star => ['*']
  | starStar => ['*', '*']
  | slash => ['/']
  | percent => ['%']
  | ampersand => ['&']
  | pipe => ['|']
  | caret => ['^']
  | tilde => ['~']
  | shl => ['<', '<']
  | shr => ['>', '>']
  | eqEq => ['=', '=']
  | bangEq => ['!', '=']
  | lt => ['<']
  | le => ['<', '=']
  | gt => ['>']
  | ge => ['>', '=']
  | colonEq => [':', '=']
  | eq => ['=']
  | plusEq => ['+', '=']
  | minusEq => ['-', '=']
  | starEq => ['*', '=']
  | starStarEq => ['*', '*', '=']
  | slashEq => ['/', '=']
  | percentEq => ['%', '=']
  | ampersandEq => ['&', '=']
  | pipeEq => ['|', '=']
  | caretEq => ['^', '=']
  | shlEq => ['<', '<', '=']
  | shrEq => ['>', '>', '=']
  | dot => ['.']
  | arrow => ['-', '>']
  | comma => [',']
  | semicolon => [';']
  | colon => [':']
  | openParen => ['(']
  | closeParen => [')']
  | openBracket => ['[']
  | closeBracket => [']']
  | openBrace => ['\x7b']
  | closeBrace => ['\x7d']

/-- The mark as written. -/
def spelling (mark : Punct) : String := String.ofList mark.chars

/-- Every mark, the longest first, so that the first match in this order is the longest one. -/
def longestFirst : List Punct :=
  [starStarEq, shlEq, shrEq,
    starStar, shl, shr, eqEq, bangEq, le, ge, colonEq, plusEq, minusEq, starEq, slashEq,
    percentEq, ampersandEq, pipeEq, caretEq, arrow,
    plus, minus, star, slash, percent, ampersand, pipe, caret, tilde, lt, gt, eq, dot, comma,
    semicolon, colon, openParen, closeParen, openBracket, closeBracket, openBrace, closeBrace]

/-- The mark with a spelling, if there is one. -/
def ofSpelling? (text : String) : Option Punct :=
  longestFirst.find? fun mark => mark.spelling == text

/-- The operator that a compound assignment applies before it stores. -/
def compoundOp? : Punct → Option BinaryOp
  | plusEq => some .add
  | minusEq => some .sub
  | starEq => some .mul
  | starStarEq => some .pow
  | slashEq => some .div
  | percentEq => some .mod
  | ampersandEq => some .bitAnd
  | pipeEq => some .bitOr
  | caretEq => some .bitXor
  | shlEq => some .shl
  | shrEq => some .shr
  | _ => none

/-- A plain, a reference or a compound assignment. -/
def isAssignment (mark : Punct) : Bool :=
  mark == colonEq || mark == eq || mark.compoundOp?.isSome

theorem mem_longestFirst (mark : Punct) : mark ∈ longestFirst := by cases mark <;> decide

theorem chars_injective {a b : Punct} (h : a.chars = b.chars) : a = b := by
  revert h; cases a <;> cases b <;> decide

theorem longestFirst_sorted :
    longestFirst.Pairwise fun a b => b.chars.length ≤ a.chars.length := by decide

theorem ofSpelling?_spelling (mark : Punct) : ofSpelling? mark.spelling = some mark := by
  cases mark <;> decide

end Punct

end ClassLang
