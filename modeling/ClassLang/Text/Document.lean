import ClassLang.Number.Shortest

/-!
Documents of nested lists and fields, and their text on indented lines.
-/

namespace ClassLang

/-- A document. Fields keep their order. -/
inductive Document where
  | null
  | bool (value : Bool)
  | natural (value : Nat)
  | number (value : Binary64)
  | text (value : String)
  | list (items : List Document)
  | fields (items : List (String × Document))
deriving Repr, Inhabited

namespace Document

/-- In a document a point needs no exponent from a hundred-thousandth up to ten to the sixteenth,
an exponent shows its sign, of two equally near decimals the even one is written, and what is beyond
all numbers is null. -/
def numberLayout : Binary64.Layout := ⟨-4, 16, "+", .even, "null"⟩

/-- A lower-case digit of a hexadecimal number. -/
def hexDigit (n : Nat) : Char := if n < 10 then Char.ofNat (n + 48) else Char.ofNat (n + 87)

/-- The characters that stand for one inside a quoted text. -/
def escape (c : Char) : List Char :=
  if c = '"' then ['\\', '"']
  else if c = '\\' then ['\\', '\\']
  else if c = '\n' then ['\\', 'n']
  else if c = '\r' then ['\\', 'r']
  else if c = '\t' then ['\\', 't']
  else if c = '\x08' then ['\\', 'b']
  else if c = '\x0c' then ['\\', 'f']
  else if c.toNat < 32 then ['\\', 'u', '0', '0', hexDigit (c.toNat / 16), hexDigit (c.toNat % 16)]
  else [c]

/-- A text in quotes. -/
def quoted (value : String) : String :=
  String.ofList ('"' :: value.toList.flatMap escape ++ ['"'])

/-- A new line at a depth of two blanks each. -/
def line (depth : Nat) : String := "\n" ++ String.ofList (List.replicate (2 * depth) ' ')

mutual

/-- The text of the document, its lines indented from a depth on. -/
def render (depth : Nat) : Document → String
  | null => "null"
  | bool value => if value then "true" else "false"
  | natural value => toString value
  | number value => value.text numberLayout
  | text value => quoted value
  | list [] => "[]"
  | list (first :: rest) =>
    "[" ++ line (depth + 1) ++ render (depth + 1) first ++ renderItems (depth + 1) rest ++
      line depth ++ "]"
  | fields [] => "\x7b\x7d"
  | fields ((name, value) :: rest) =>
    "\x7b" ++ line (depth + 1) ++ quoted name ++ ": " ++ render (depth + 1) value ++
      renderFields (depth + 1) rest ++ line depth ++ "\x7d"

/-- The texts of items, each after a comma on a line of its own. -/
def renderItems (depth : Nat) : List Document → String
  | [] => ""
  | item :: rest => "," ++ line depth ++ render depth item ++ renderItems depth rest

/-- The texts of fields, each after a comma on a line of its own. -/
def renderFields (depth : Nat) : List (String × Document) → String
  | [] => ""
  | (name, value) :: rest =>
    "," ++ line depth ++ quoted name ++ ": " ++ render depth value ++ renderFields depth rest

end

end Document

end ClassLang
