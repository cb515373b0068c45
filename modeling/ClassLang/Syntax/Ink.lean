import ClassLang.Syntax.Token

/-!
Printed source as a list of tokens and the blanks between them. The text is for the reader of a
program, the tokens are for the parser.
-/

namespace ClassLang

/-- A bit of printed source. -/
inductive Ink where
  | token (kind : TokenKind)
  | blank (text : String)
deriving DecidableEq, Repr

namespace Ink

/-- A single blank. -/
def space : Ink := blank " "

/-- The end of a line. -/
def newline : Ink := blank "\n"

/-- The blanks in front of a line at a depth. -/
def indent (depth : Nat) : Ink := blank (String.ofList (List.replicate (4 * depth) ' '))

/-- A mark. -/
def mark (p : Punct) : Ink := token (.punct p)

/-- A reserved word. -/
def word (k : Keyword) : Ink := token (.keyword k)

/-- A name. -/
def name (n : String) : Ink := token (.ident n)

/-- The characters of a bit. -/
def text : Ink → String
  | token kind => kind.spelling
  | blank text => text

/-- The token of a bit. -/
def kind? : Ink → Option TokenKind
  | token kind => some kind
  | blank _ => none

/-- The text of printed source. -/
def textOf (inks : List Ink) : String := String.join (inks.map text)

/-- The tokens of printed source. -/
def tokensOf (inks : List Ink) : List TokenKind := inks.filterMap kind?

/-- Items with a comma and a blank between them. -/
def commas : List (List Ink) → List Ink
  | [] => []
  | [item] => item
  | item :: rest => item ++ mark .comma :: space :: commas rest

/-- Items with a comma and a blank between them, in marks. -/
def enclosed (opening closing : Punct) (items : List (List Ink)) : List Ink :=
  mark opening :: commas items ++ [mark closing]

theorem tokensOf_append (front back : List Ink) :
    tokensOf (front ++ back) = tokensOf front ++ tokensOf back := by
  simp [tokensOf]

end Ink

end ClassLang
