import ClassLang.Number.Shortest

/-!
Literal values and their text.
-/

namespace ClassLang

/-- The value of a literal. -/
inductive Literal where
  | int (value : Nat)
  | float (value : Binary64)
  /-- A multiple of the imaginary unit. -/
  | imaginary (value : Binary64)
  | string (value : String)
  | char (value : Char)
  | bytes (value : List UInt8)
  | bool (value : Bool)
  | null
  | undefined
deriving DecidableEq, Repr, Inhabited

namespace Literal

/-- Source text has no exponent from a ten-thousandth up to ten to the sixteenth, and no plus before
one; the greater of two equally near decimals is written. -/
def numberLayout : Binary64.Layout := ⟨-3, 16, "", .up, "inf"⟩

/-- The characters that stand for one inside quotes. -/
def escape (quote c : Char) : List Char :=
  if c = '\n' then ['\\', 'n']
  else if c = '\t' then ['\\', 't']
  else if c = '\r' then ['\\', 'r']
  else if c = '\x00' then ['\\', '0']
  else if c = '\\' then ['\\', '\\']
  else if c = quote then ['\\', c]
  else [c]

/-- Text between quotes. -/
def quoted (quote : Char) (text : List Char) : String :=
  String.ofList (quote :: text.flatMap (escape quote) ++ [quote])

/-- The literal as written in source. -/
def text : Literal → String
  | int value => toString value
  | float value => value.text numberLayout
  | imaginary value => value.text numberLayout ++ "i"
  | string value => quoted '"' value.toList
  | char value => quoted '\'' [value]
  | bytes value => "b" ++ quoted '"' (value.map fun b => Char.ofNat b.toNat)
  | bool value => if value then "true" else "false"
  | null => "null"
  | undefined => "undefined"

end Literal

end ClassLang
