import ClassLang.Checking.Fault
import ClassLang.Types.Assign

/-!
Storing values: what may be bound, assigned and passed.
-/

namespace ClassLang

/-- An argument: its type, and whether it denotes storage. -/
structure Operand where
  type : Ty
  isPlace : Bool
deriving Repr

/-- Expressions with the types found for them. -/
def operands (exprs : List Expr) (types : List Ty) : List Operand :=
  (exprs.zip types).map fun (e, type) => ⟨type, e.isPlace⟩

/-- Whether parameters take arguments, one by one. -/
def acceptsAll (params : List Ty) (args : List Operand) : Bool :=
  params.length == args.length &&
    (params.zip args).all fun (param, arg) => param.accepts arg.type arg.isPlace

/-- The type that an expression presents when it is bound as an alias, if it can be. -/
def aliasType? (e : Expr) (type : Ty) : Option Ty :=
  if e.isPlace then some type.asReference
  else if type.isReference then some type
  else none

/-- What an expression presents to a target when it is stored there. -/
def storedType (kind : AssignKind) (target : Ty) (targetName : String) (value : Expr)
    (valueType : Ty) : Except CheckError Ty :=
  match kind with
  | .value =>
    if target.isReference then .error ⟨value.span, .valueStoredInReference targetName⟩
    else .ok valueType.decay
  | .reference =>
    if !target.isReference then .error ⟨value.span, .referenceStoredInValue targetName⟩
    else match aliasType? value valueType with
      | some type => .ok type
      | none => .error ⟨value.span, .referenceWithoutPlace⟩

/-- Checks that an expression may be stored in a target. -/
def checkStore (kind : AssignKind) (target : Ty) (targetName : String) (value : Expr)
    (valueType : Ty) : Except CheckError Unit := do
  let stored ← storedType kind target targetName value valueType
  if stored.assignable target then .ok ()
  else .error ⟨value.span, .mismatchedType target stored none⟩

end ClassLang
