/-!
The operators of expressions and the names under which classes overload them.
-/

namespace ClassLang

/-! ## Binary operators -/

/-- An operator between two operands. -/
inductive BinaryOp where
  | add | sub | mul | div | mod | pow
  | bitAnd | bitOr | bitXor | shl | shr
  | and | or | xor
  | eq | ne | lt | le | gt | ge
deriving DecidableEq, Repr

/-- The family of a binary operator. -/
inductive BinaryFamily where
  | arithmetic | logical | comparison
deriving DecidableEq, Repr

namespace BinaryOp

/-- Every binary operator. -/
def all : List BinaryOp :=
  [add, sub, mul, div, mod, pow, bitAnd, bitOr, bitXor, shl, shr, and, or, xor,
    eq, ne, lt, le, gt, ge]

/-- The family of the operator. -/
def family : BinaryOp → BinaryFamily
  | and | or | xor => .logical
  | eq | ne | lt | le | gt | ge => .comparison
  | _ => .arithmetic

/-- Works on the bits of whole numbers. -/
def isBitwise : BinaryOp → Bool
  | bitAnd | bitOr | bitXor | shl | shr => true
  | _ => false

/-- Compares by order. -/
def isOrdering : BinaryOp → Bool
  | lt | le | gt | ge => true
  | _ => false

/-- The operator as written between its operands. -/
def symbol : BinaryOp → String
  | add => "+"
  | sub => "-"
  | mul => "*"
  | div => "/"
  | mod => "%"
  | pow => "**"
  | bitAnd => "&"
  | bitOr => "|"
  | bitXor => "^"
  | shl => "<<"
  | shr => ">>"
  | and => "and"
  | or => "or"
  | xor => "xor"
  | eq => "=="
  | ne => "!="
  | lt => "<"
  | le => "<="
  | gt => ">"
  | ge => ">="

/-- The short word for the operator in the name of an overload. -/
def mnemonic : BinaryOp → String
  | add => "add"
  | sub => "sub"
  | mul => "mul"
  | div => "div"
  | mod => "mod"
  | pow => "pow"
  | bitAnd => "band"
  | bitOr => "bor"
  | bitXor => "bxor"
  | shl => "shl"
  | shr => "shr"
  | and => "and"
  | or => "or"
  | xor => "xor"
  | eq => "eq"
  | ne => "ne"
  | lt => "lt"
  | le => "le"
  | gt => "gt"
  | ge => "ge"

theorem mem_all (op : BinaryOp) : op ∈ all := by cases op <;> decide

theorem symbol_injective {a b : BinaryOp} (h : a.symbol = b.symbol) : a = b := by
  revert h; cases a <;> cases b <;> decide

theorem mnemonic_injective {a b : BinaryOp} (h : a.mnemonic = b.mnemonic) : a = b := by
  revert h; cases a <;> cases b <;> decide

end BinaryOp

/-! ## Unary operators -/

/-- An operator in front of its operand. -/
inductive UnaryOp where
  | neg | pos | bitNot | not
  /-- Binds a reference to a place. -/
  | ref
  | delete
deriving DecidableEq, Repr

/-- The family of a unary operator. -/
inductive UnaryFamily where
  | arithmetic | logical | allocation | reference
deriving DecidableEq, Repr

namespace UnaryOp

/-- Every unary operator. -/
def all : List UnaryOp := [neg, pos, bitNot, not, ref, delete]

/-- The family of the operator. -/
def family : UnaryOp → UnaryFamily
  | neg | pos | bitNot => .arithmetic
  | not => .logical
  | ref => .reference
  | delete => .allocation

/-- The operator as written in front of its operand. -/
def symbol : UnaryOp → String
  | neg => "-"
  | pos => "+"
  | bitNot => "~"
  | not => "not"
  | ref => "&"
  | delete => "delete"

/-- The short word for the operator in the name of an overload. -/
def mnemonic : UnaryOp → String
  | neg => "neg"
  | pos => "pos"
  | bitNot => "bnot"
  | not => "not"
  | ref => "ref"
  | delete => "delete"

/-- A word needs a blank between itself and its operand. -/
def isWord : UnaryOp → Bool
  | not | delete => true
  | _ => false

theorem mem_all (op : UnaryOp) : op ∈ all := by cases op <;> decide

theorem mnemonic_injective {a b : UnaryOp} (h : a.mnemonic = b.mnemonic) : a = b := by
  revert h; cases a <;> cases b <;> decide

end UnaryOp

/-! ## Operators that a class may overload -/

/-- What an operator function defines: a binary or a unary operator, or indexing. -/
inductive Operator where
  | binary (op : BinaryOp)
  | unary (op : UnaryOp)
  | index
deriving DecidableEq, Repr

namespace Operator

/-- The operator as written after the word `operator`. -/
def symbol : Operator → String
  | binary op => op.symbol
  | unary op => op.symbol
  | index => "[]"

/-- The short word for the operator in the name of an overload. -/
def mnemonic : Operator → String
  | binary op => op.mnemonic
  | unary op => op.mnemonic
  | index => "index"

/-- The name under which overloads of the operator are grouped. -/
def overloadName (op : Operator) : String := "operator_" ++ op.mnemonic

/-- How many operands the operator takes. -/
def arity : Operator → Nat
  | unary _ => 1
  | binary _ | index => 2

end Operator

end ClassLang
