import ClassLang.Checking.Calls
import ClassLang.Checking.Literals
import ClassLang.Checking.Operators
import ClassLang.Checking.WrittenTypes

/-!
Types of expressions. The type found for an expression is recorded with its node. An expression with
a faulty part is faulty too, and not reported again.
-/

namespace ClassLang

/-! ## Rules -/

/-- The type of `this`: an alias of an instance of the class around. -/
def thisType (node : Node) : Infer Ty := do
  let scope ← read
  match scope.selfClass with
  | some owner =>
    if scope.isInstance then return (scope.program.typeWithin owner).asReference
    else fail node.span .thisWithoutInstance
  | none => fail node.span .thisWithoutInstance

/-- The type of a new value: a class type. -/
def newType (node : Node) (resolve : Infer Ty) : Infer Ty := do
  let type ← resolve
  if type.className?.isSome then return type
  else fail node.span (.newOfNonClass type)

/-- The type of a list literal. -/
def listType (elems : List Expr) (infer : Check (List Resolved)) : Infer Ty := do
  let types ← settle (allResolved (← infer))
  return .array .none (← settleBy (unify (types.zip (elems.map Expr.span))))

/-- The type of a pair in a keymap literal. -/
def pairType (inferKey inferValue : Infer Ty) : Infer (Ty × Ty) := do
  let key ← attempt inferKey
  let value ← attempt inferValue
  return (← settle key, ← settle value)

/-- Records a pair like a keymap that holds it alone. -/
def recordedPair (node : Node) (infer : Infer (Ty × Ty)) : Check (Except Reported (Ty × Ty)) := do
  let result ← infer.run
  learn (·.record node.id (result.map fun (key, value) => .keymap .none key value))
  return result

/-- The type of a keymap literal: keys and values are unified apart, keys first. -/
def keymapLiteralType (pairs : List KeymapPair)
    (infer : Check (List (Except Reported (Ty × Ty)))) : Infer Ty := do
  let types ← settle ((← infer).mapM id)
  let keys := (types.map Prod.fst).zip (pairs.map fun pair => pair.key.span)
  let values := (types.map Prod.snd).zip (pairs.map fun pair => pair.value.span)
  return .keymap .none (← settleBy (unify keys)) (← settleBy (unify values))

/-- The type of an assignment is that of its target. -/
def assignType (kind : AssignKind) (target value : Expr) (inferTarget inferValue : Infer Ty) :
    Infer Ty := do
  let targetResult ← attempt inferTarget
  let valueResult ← attempt inferValue
  let targetType ← settle targetResult
  let valueType ← settle valueResult
  if targetType.isConst then fail target.span (.assignmentToConst target.text)
  settleBy (checkStore kind targetType target.text value valueType)
  return targetType

/-! ## Inference -/

mutual

/-- Infers the type of an expression. -/
def Expr.infer : Expr → Infer Ty
  | .ident node name => remembered node.id (nameType node name.name)
  | .this node => remembered node.id (thisType node)
  | .literal node value => remembered node.id (pure value.type)
  | .list node elems => remembered node.id (listType elems (inferEach elems))
  | .keymap node pairs => remembered node.id (keymapLiteralType pairs (inferPairs pairs))
  | .binary node op lhs rhs =>
    remembered node.id (binaryType node op lhs rhs lhs.infer rhs.infer)
  | .unary node op operand => remembered node.id (unaryType node op operand operand.infer)
  | .new node type => remembered node.id (newType node type.resolve)
  | .member node target access name =>
    remembered node.id (memberType node name (receiver target access target.infer))
  | .index node target index =>
    remembered node.id (indexType node target index target.infer index.infer)
  | .call node callee args =>
    remembered node.id
      (callType (.call node callee args) callee args callee.infer callee.inferTarget
        (inferEach args))
  | .assign node kind target value =>
    remembered node.id (assignType kind target value target.infer value.infer)

/-- Infers the type of what a member is taken from. -/
def Expr.inferTarget : Expr → Infer Ty
  | .member _ target _ _ => target.infer
  | _ => throw ⟨⟩

/-- Infers the types of some expressions, each whether those before it are sound or not. -/
def inferEach : List Expr → Check (List Resolved)
  | [] => return []
  | e :: rest => do
    let result ← e.infer.run
    return result :: (← inferEach rest)

/-- Infers the types of some pairs, each whether those before it are sound or not. -/
def inferPairs : List KeymapPair → Check (List (Except Reported (Ty × Ty)))
  | [] => return []
  | .mk node key value :: rest => do
    let result ← recordedPair node (pairType key.infer value.infer)
    return result :: (← inferPairs rest)

end

end ClassLang
