/-!
The built-in types that hold a single value.
-/

namespace ClassLang

/-- A built-in scalar type. -/
inductive Primitive where
  | boolean | byte | short | integer | long | extended | float | double | complex
  | char | string | bytes
deriving DecidableEq, Repr, Inhabited

namespace Primitive

/-- The word that names the type. -/
def spelling : Primitive → String
  | boolean => "boolean"
  | byte => "byte"
  | short => "short"
  | integer => "integer"
  | long => "long"
  | extended => "extended"
  | float => "float"
  | double => "double"
  | complex => "complex"
  | char => "char"
  | string => "string"
  | bytes => "bytes"

/-- Every scalar type. -/
def all : List Primitive :=
  [boolean, byte, short, integer, long, extended, float, double, complex, char, string, bytes]

/-- Whole numbers. -/
def isIntegral : Primitive → Bool
  | byte | short | integer | long | extended => true
  | _ => false

/-- Numbers with a fraction, the complex ones among them. -/
def isFloating : Primitive → Bool
  | float | double | complex => true
  | _ => false

/-- Numbers of either family. -/
def isNumeric (p : Primitive) : Bool := p.isIntegral || p.isFloating

theorem mem_all (p : Primitive) : p ∈ all := by cases p <;> decide

end Primitive

end ClassLang
