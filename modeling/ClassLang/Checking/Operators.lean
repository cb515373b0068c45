import ClassLang.Checking.Members
import ClassLang.Checking.Overloads
import ClassLang.Checking.Storing

/-!
Operators: what they do on built-in types, and the functions that give them a meaning on classes.
-/

namespace ClassLang

/-! ## Built-in operators -/

/-- Both types, if they are scalar and pass a test. -/
def bothPrimitive? (test : Primitive → Bool) (a b : Ty) : Option (Primitive × Primitive) := do
  let a ← a.primitive?
  let b ← b.primitive?
  guard (test a && test b)
  return (a, b)

/-- The common type of two scalar types that pass a test. -/
def commonType? (test : Primitive → Bool) (a b : Ty) : Option Ty := do
  let (a, b) ← bothPrimitive? test a b
  return .primitive .none (← a.common b)

/-- Whether values of a type are joined by `+`. -/
def Ty.isSequence (t : Ty) : Bool :=
  t.isCollection || t.primitive? == some .string || t.primitive? == some .bytes

/-- The truth values, if a condition holds. -/
def booleanIf (condition : Bool) : Option Ty := if condition then some .boolean else none

/-- Whether the values of two types are ordered. -/
def areOrdered (a b : Ty) : Bool :=
  (commonType? Primitive.isNumeric a b).isSome ||
    (bothPrimitive? (· == .string) a b).isSome || (bothPrimitive? (· == .char) a b).isSome

/-- Whether the values of two types may be compared for equality: scalars with a common type, equal
collections, and null with what may be null. -/
def areComparable : Ty → Ty → Bool
  | .primitive _ a, .primitive _ b => (a.common b).isSome
  | .array m a, b => .array m a == b
  | .keymap m k v, b => .keymap m k v == b
  | .null _, .null _ => true
  | .null _, b => b.isNullable
  | a, .null _ => a.isNullable
  | _, _ => false

/-- The result type of a binary operator on values of built-in types. -/
def BinaryOp.builtin? (op : BinaryOp) (a b : Ty) : Option Ty :=
  match op.family with
  | .arithmetic =>
    if op = .div then do
      let (p, q) ← bothPrimitive? Primitive.isNumeric a b
      return .primitive .none (← p.division q)
    else if op.isBitwise then commonType? Primitive.isIntegral a b
    else if (bothPrimitive? Primitive.isNumeric a b).isSome then
      commonType? Primitive.isNumeric a b
    else if op = .add && a == b && a.isSequence then some a
    else none
  | .logical => booleanIf (a.isBoolean && b.isBoolean)
  | .comparison => booleanIf (if op.isOrdering then areOrdered a b else areComparable a b)

/-- Whether a unary operator works on a scalar type. -/
def UnaryOp.worksOn : UnaryOp → Primitive → Bool
  | .neg, kind | .pos, kind => kind.isNumeric
  | .bitNot, kind => kind.isIntegral
  | .not, kind => kind == .boolean
  | .ref, _ | .delete, _ => false

/-- The result type of a unary operator on values of a built-in type. -/
def UnaryOp.builtin? (op : UnaryOp) (t : Ty) : Option Ty := do
  let kind ← t.primitive?
  guard (op.worksOn kind)
  return .primitive .none kind

/-! ## Operator functions -/

/-- The type parameters of the class that a function belongs to. -/
def Program.ownerParams (p : Program) (function : Function) : List String :=
  match function.owner.bind fun owner => p.theClass? owner.name with
  | some owner => (p.classAt owner).params
  | none => []

/-- The result type of a function as an operator, if it takes the operands. The type parameters of
its class are learned from them. -/
def Program.operatorResult? (p : Program) (f : Findings) (args : List Operand) (i : Nat) :
    Option Ty := do
  let function := p.functionAt i
  let params ← f.paramTypes? function.params
  let result ← f.typeOf function.returnType.id
  let learned := Substitution.learnAll (p.ownerParams function) params (args.map Operand.type) .empty
  guard (acceptsAll (params.map learned.apply) args)
  return learned.apply result

/-- The first function that gives an operator a meaning on some operands, with the result type. -/
def Program.findOperator? (p : Program) (f : Findings) (operator : Operator)
    (args : List Operand) : Option (Nat × Ty) :=
  (p.functionsNamed operator.overloadName).findSome? fun i =>
    (p.operatorResult? f args i).map fun type => (i, type)

/-- The result type of an operator function, or else an error. -/
def overloadType (id : Nat) (operator : Operator) (args : List Operand) (otherwise : CheckError) :
    Infer Ty := do
  let p := (← read).program
  match p.findOperator? (← findings) operator args with
  | some (i, type) =>
    refer id (.function i)
    note (.resolvedOperator operator (p.functionAt i).name.name)
    return type
  | none => settleBy (.error otherwise)

/-! ## Rules -/

/-- The type of a binary operation. -/
def binaryType (node : Node) (op : BinaryOp) (lhs rhs : Expr) (inferLhs inferRhs : Infer Ty) :
    Infer Ty := do
  let left ← attempt inferLhs
  let right ← attempt inferRhs
  let a ← settle left
  let b ← settle right
  match op.builtin? a.decay b.decay with
  | some type => return type
  | none =>
    overloadType node.id (.binary op) (operands [lhs, rhs] [a, b])
      ⟨node.span, .unsupportedOperator op.symbol [a, b]⟩

/-- The type of a unary operation. -/
def unaryType (node : Node) (op : UnaryOp) (operand : Expr) (infer : Infer Ty) : Infer Ty := do
  let type ← infer
  match op with
  | .ref =>
    match aliasType? operand type with
    | some presented => return presented
    | none => fail operand.span .referenceWithoutPlace
  | .delete =>
    if type.className?.isSome then return .void .none
    else fail operand.span (.deleteOfNonClass type)
  | .neg | .pos | .bitNot | .not =>
    match op.builtin? type with
    | some result => return result
    | none =>
      overloadType node.id (.unary op) (operands [operand] [type])
        ⟨node.span, .unsupportedOperator op.symbol [type]⟩

/-- The type of an element of a collection: read-only if the collection is. The index has to be a
whole number, or to fit the keys. -/
def elementType (collection index : Ty) (indexSpan : Span) (expected elem : Ty) (fits : Bool) :
    Except CheckError Ty :=
  if fits then .ok (elem.constIf collection.isConst)
  else .error ⟨indexSpan, .mismatchedType expected index (some .index)⟩

/-- The type of an indexed value. -/
def indexType (node : Node) (target index : Expr) (inferTarget inferIndex : Infer Ty) :
    Infer Ty := do
  let targetResult ← attempt inferTarget
  let indexResult ← attempt inferIndex
  let collection ← settle targetResult
  let place ← settle indexResult
  let notIndexable : CheckError := ⟨target.span, .notIndexable collection⟩
  match collection with
  | .array _ elem =>
    settleBy (elementType collection place index.span (.primitive .none .integer) elem
      (place.primitive?.any Primitive.isIntegral))
  | .keymap _ key value =>
    settleBy (elementType collection place index.span key value (place.decay.assignable key))
  | .plainClass .. | .genericClass .. =>
    overloadType node.id .index (operands [target, index] [collection, place]) notIndexable
  | _ => settleBy (.error notIndexable)

end ClassLang
