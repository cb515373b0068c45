import ClassLang.Parsing.Types

/-!
Parsing of expressions. The binary operators stand in levels from the loosest to the tightest, each
level being read with the next tighter one.
-/

namespace ClassLang

namespace Parser

/-- A binary expression around two operands. -/
def binaryNode (op : BinaryOp) (lhs rhs : Expr) : Parser Expr := do
  return .binary (← newNode (lhs.span.join rhs.span)) op lhs rhs

/-- A unary expression from a place up to the token read last. -/
def unaryNode (op : UnaryOp) (start : Span) (operand : Expr) : Parser Expr := do
  return .unary (← nodeFrom start) op operand

/-- Reads one of some binary operators, if it is the current token. -/
def operatorOf? (ops : List BinaryOp) : Parser (Option BinaryOp) := do
  let kind ← kind
  match ops.find? fun op => op.token == kind with
  | some op =>
    let _ ← bump
    return some op
  | none => return none

/-! ## Binary levels -/

/-- How the operators of a level group: to the left, or as a chain of comparisons. -/
inductive Level where
  | leftAssoc (ops : List BinaryOp)
  | chain (ops : List BinaryOp)
deriving Repr

/-- The levels, the loosest first. -/
def levels : List Level :=
  [.leftAssoc [.or], .leftAssoc [.xor], .leftAssoc [.and], .leftAssoc [.bitOr],
    .leftAssoc [.bitXor], .leftAssoc [.bitAnd], .chain [.eq, .ne], .chain [.lt, .le, .gt, .ge],
    .leftAssoc [.shl, .shr], .leftAssoc [.add, .sub], .leftAssoc [.mul, .div, .mod]]

/-- Operands joined by operators that group to the left. -/
def leftAssoc (ops : List BinaryOp) (next : Parser Expr) : Parser Expr := do
  repeatFrom (← next) fun lhs => do
    match ← operatorOf? ops with
    | some op =>
      let rhs ← next
      return .inl (← binaryNode op lhs rhs)
    | none => return .inr lhs

/-- Operators, each with the operand after it. -/
def operations (ops : List BinaryOp) (next : Parser Expr) : Parser (List (BinaryOp × Expr)) :=
  repeatFrom [] fun read => do
    match ← operatorOf? ops with
    | some op =>
      let rhs ← next
      return .inl ((op, rhs) :: read)
    | none => return .inr read.reverse

/-- The comparisons of a chain. An operand between two operators stands in two comparisons, the
second time as a copy with nodes of its own. -/
def comparisons : Expr → List (BinaryOp × Expr) → Parser (List Expr)
  | _, [] => return []
  | lhs, (op, rhs) :: rest => do
    let shared ← freshCopy rhs
    let comparison ← binaryNode op lhs rhs
    return comparison :: (← comparisons shared rest)

/-- The conjunction of some expressions, grouped to the right. -/
def conjunction (first : Expr) : List Expr → Parser Expr
  | [] => return first
  | second :: rest => do
    let others ← conjunction second rest
    binaryNode .and first others

/-- Operands joined by comparisons: all of the comparisons hold. -/
def chain (ops : List BinaryOp) (next : Parser Expr) : Parser Expr := do
  let first ← next
  let others ← operations ops next
  match ← comparisons first others with
  | [] => return first
  | comparison :: rest => conjunction comparison rest

/-- One level, given how its operands are read. -/
def level : Level → Parser Expr → Parser Expr
  | .leftAssoc ops => leftAssoc ops
  | .chain ops => chain ops

/-- Some levels, given how the operands of the tightest are read. -/
def binary : List Level → Parser Expr → Parser Expr
  | [], operand => operand
  | l :: tighter, operand => level l (binary tighter operand)

/-! ## Unary operators and powers -/

/-- Reads unary operators with their places, the outermost first. -/
def unaryOps (op? : TokenKind → Option UnaryOp) : Parser (List (UnaryOp × Span)) :=
  repeatFrom [] fun read => do
    let start ← here
    match op? (← kind) with
    | some op =>
      let _ ← bump
      return .inl ((op, start) :: read)
    | none => return .inr read.reverse

/-- Applies unary operators to an operand, the innermost first. -/
def applyUnary (operand : Expr) : List (UnaryOp × Span) → Parser Expr
  | [] => return operand
  | (op, start) :: inner => do
    let operand ← applyUnary operand inner
    unaryNode op start operand

/-- The signs in front of an operand. -/
def sign? : TokenKind → Option UnaryOp
  | .punct .minus => some .neg
  | .punct .plus => some .pos
  | .punct .tilde => some .bitNot
  | .punct .ampersand => some .ref
  | _ => none

/-- The word for negation. -/
def negation? : TokenKind → Option UnaryOp
  | .keyword .kwNot => some .not
  | _ => none

/-- An operand with unary operators in front. -/
def unary (op? : TokenKind → Option UnaryOp) (operand : Parser Expr) : Parser Expr := do
  let ops ← unaryOps op?
  let operand ← operand
  applyUnary operand ops

/-- The power of a base to the power of the others, grouped to the right. -/
def powerOf (base : Expr) : List Expr → Parser Expr
  | [] => return base
  | second :: rest => do
    let exponent ← powerOf second rest
    binaryNode .pow base exponent

/-- Operands joined by powers. -/
def power (operand : Parser Expr) : Parser Expr := do
  let base ← operand
  let exponents ← operations [.pow] operand
  powerOf base (exponents.map Prod.snd)

/-! ## Operands -/

/-- A key with its value. -/
def keymapPair (nested : Parser Expr) : Parser KeymapPair := do
  let start ← here
  let key ← nested
  let _ ← expectPunct .colon
  let value ← nested
  return .mk (← nodeFrom start) key value

/-- A name, a literal, `this`, a collection, or an expression in parentheses. -/
def primary (nested : Parser Expr) : Parser Expr := do
  let start ← here
  let word (make : Node → Expr) : Parser Expr := do
    let _ ← bump
    return make (← nodeFrom start)
  match ← kind with
  | .ident _ =>
    let name ← expectIdent
    return .ident (← nodeFrom start) name
  | .literal value => word (.literal · value)
  | .keyword .kwThis => word .this
  | .keyword .kwTrue => word (.literal · (.bool true))
  | .keyword .kwFalse => word (.literal · (.bool false))
  | .keyword .kwNull => word (.literal · .null)
  | .keyword .kwUndefined => word (.literal · .undefined)
  | .punct .openParen =>
    let _ ← bump
    let inner ← nested
    let _ ← expectPunct .closeParen
    return inner
  | .punct .openBracket =>
    let _ ← bump
    let elems ← commaList .closeBracket .expectedCommaOrCloseBracket nested
    return .list (← nodeFrom start) elems
  | .punct .openBrace =>
    let _ ← bump
    let pairs ← commaList .closeBrace .expectedCommaOrCloseBrace (keymapPair nested)
    return .keymap (← nodeFrom start) pairs
  | .eof => fail .unexpectedEof
  | _ => fail .expectedExpression

/-- Reads one member access, index or call behind a target, if there is one. -/
def postfixStep (nested : Parser Expr) (start : Span) (target : Expr) :
    Parser (Expr ⊕ Expr) := do
  if ← accept .dot then
    let name ← expectIdent
    return .inl (.member (← nodeFrom start) target .dot name)
  else if ← accept .arrow then
    let name ← expectIdent
    return .inl (.member (← nodeFrom start) target .arrow name)
  else if ← accept .openBracket then
    let i ← nested
    let _ ← expectPunct .closeBracket
    return .inl (.index (← nodeFrom start) target i)
  else if ← accept .openParen then
    let args ← commaList .closeParen .expectedCommaOrCloseParen nested
    return .inl (.call (← nodeFrom start) target args)
  else return .inr target

/-- A primary expression with member accesses, indices and calls behind it. -/
def postfixed (nested : Parser Expr) : Parser Expr := do
  let start ← here
  repeatFrom (← primary nested) (postfixStep nested start)

/-- An allocation, a deletion, or an expression without either. -/
def allocation (nested : Parser Expr) : Parser Expr := do
  let start ← here
  if ← acceptKeyword .kwNew then
    let type ← typeRef
    return .new (← nodeFrom start) type
  else if ← acceptKeyword .kwDelete then
    if (← peekKeyword .kwNew) || (← peekKeyword .kwDelete) then fail .stackedAllocation
    else
      let operand ← postfixed nested
      unaryNode .delete start operand
  else postfixed nested

/-- An expression without assignment, given how expressions inside it are read. -/
def operation (nested : Parser Expr) : Parser Expr :=
  binary levels <| unary sign? <| power <| unary negation? <| allocation nested

/-! ## Assignments -/

/-- The marks that assign. -/
def assignmentPuncts : List Punct := Punct.longestFirst.filter Punct.isAssignment

/-- Reads an expression inside another, where nothing is assigned. -/
def inside (expr : Parser Expr) : Parser Expr := do
  within { ← context with inExpression := true } expr

/-- The kind of an assignment and the value that is stored. A compound assignment stores the result
of an operation on a copy of the target. -/
def storedValue (mark : Punct) (target value : Expr) : Parser (AssignKind × Expr) := do
  match mark.compoundOp? with
  | some op =>
    let lhs ← freshCopy target
    return (.value, ← binaryNode op lhs value)
  | none => return (if mark == .eq then .reference else .value, value)

/-- An expression or an assignment, given how expressions are read. -/
def assignment (expr : Parser Expr) : Parser Expr := do
  let target ← operation (inside expr)
  match ← takePunctOf? assignmentPuncts with
  | none => return target
  | some (mark, span) =>
    if (← context).inExpression then failAt span .nestedAssignment
    else if !target.isAssignable then failAt target.span .unassignable
    else
      let value ← expr
      let (kind, value) ← storedValue mark target value
      return .assign (← newNode (target.span.join value.span)) kind target value

/-- An expression, assignments included where the context allows them. -/
def expression : Parser Expr := recursive assignment

/-- An expression inside another construct. -/
def nestedExpression : Parser Expr := inside expression

end Parser

end ClassLang
