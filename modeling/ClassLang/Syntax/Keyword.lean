import ClassLang.Syntax.Primitive

/-!
The reserved words.

* `Keyword.ofSpelling?_spelling`: a reserved word is read back from its spelling.
-/

namespace ClassLang

/-- A reserved word. The words that name scalar types form one family. -/
inductive Keyword where
  | kwClass | kwExtends | kwPublic | kwPrivate | kwProtected | kwStatic | kwVirtual
  | kwOverload | kwOperator
  | kwConst | kwReference | kwNullable | kwVoid
  | primitive (kind : Primitive)
  | kwArray | kwKeymap
  | kwIf | kwElse | kwWhile | kwTry | kwCatch | kwReturn | kwBreak | kwContinue
  | kwNew | kwDelete | kwThis | kwTrue | kwFalse | kwNull | kwUndefined
  | kwAnd | kwOr | kwXor | kwNot
deriving DecidableEq, Repr

namespace Keyword

/-- The word itself. -/
def spelling : Keyword → String
  | kwClass => "class"
  | kwExtends => "extends"
  | kwPublic => "public"
  | kwPrivate => "private"
  | kwProtected => "protected"
  | kwStatic => "static"
  | kwVirtual => "virtual"
  | kwOverload => "overload"
  | kwOperator => "operator"
  | kwConst => "const"
  | kwReference => "reference"
  | kwNullable => "nullable"
  | kwVoid => "void"
  | primitive kind => kind.spelling
  | kwArray => "array"
  | kwKeymap => "keymap"
  | kwIf => "if"
  | kwElse => "else"
  | kwWhile => "while"
  | kwTry => "try"
  | kwCatch => "catch"
  | kwReturn => "return"
  | kwBreak => "break"
  | kwContinue => "continue"
  | kwNew => "new"
  | kwDelete => "delete"
  | kwThis => "this"
  | kwTrue => "true"
  | kwFalse => "false"
  | kwNull => "null"
  | kwUndefined => "undefined"
  | kwAnd => "and"
  | kwOr => "or"
  | kwXor => "xor"
  | kwNot => "not"

/-- Every reserved word. -/
def all : List Keyword :=
  [kwClass, kwExtends, kwPublic, kwPrivate, kwProtected, kwStatic, kwVirtual, kwOverload,
    kwOperator, kwConst, kwReference, kwNullable, kwVoid] ++
  Primitive.all.map primitive ++
  [kwArray, kwKeymap, kwIf, kwElse, kwWhile, kwTry, kwCatch, kwReturn, kwBreak, kwContinue,
    kwNew, kwDelete, kwThis, kwTrue, kwFalse, kwNull, kwUndefined, kwAnd, kwOr, kwXor, kwNot]

/-- The reserved word with a spelling, if there is one. -/
def ofSpelling? (word : String) : Option Keyword :=
  all.find? fun keyword => keyword.spelling == word

/-- The scalar type that a word names. -/
def primitive? : Keyword → Option Primitive
  | primitive kind => some kind
  | _ => none

/-- Whether a type may begin with the word. -/
def startsType : Keyword → Bool
  | primitive _ | kwConst | kwReference | kwNullable | kwVoid | kwArray | kwKeymap => true
  | _ => false

theorem mem_all (keyword : Keyword) : keyword ∈ all := by
  cases keyword with
  | primitive kind => cases kind <;> decide
  | _ => decide

theorem ofSpelling?_spelling (keyword : Keyword) :
    ofSpelling? keyword.spelling = some keyword := by
  cases keyword with
  | primitive kind => cases kind <;> decide
  | _ => decide

theorem spelling_of_ofSpelling? {word : String} {keyword : Keyword}
    (h : ofSpelling? word = some keyword) : keyword.spelling = word := by
  simpa using List.find?_some h

end Keyword

end ClassLang
