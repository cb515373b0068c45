import ClassLang.Checking.Exprs

/-!
Statements and blocks. A declaration is in scope from the next statement of its block on; every
statement is checked, also after a faulty one.
-/

namespace ClassLang

/-! ## Declarations -/

/-- Checks a first value against the type that it is stored in. -/
def checkInitializer (target : Resolved) (name : String) (init : Initializer) : Check Bool := do
  let value ← init.value.infer.run
  succeeds do
    let target ← settle target
    let type ← settle value
    settleBy (checkStore init.kind target name init.value type)

/-- What is wrong with a declaration that gives no first value. -/
def uninitializedFaults (name : Ident) : Resolved → List CheckError
  | .ok type =>
    if type.isConst then [⟨name.span, .constWithoutInitializer name.name⟩]
    else if type.isReference then [⟨name.span, .referenceWithoutInitializer name.name⟩]
    else []
  | .error _ => []

/-- The verdict on a statement, and the variable that it declares. -/
structure StatementOutcome where
  valid : Bool
  bound : Option (String × Resolved)

/-- Checks the declaration of a variable in a block with some variables. The first value is checked
before the variable is in scope. -/
def checkVarDecl (declared : List String) (decl : VarDecl) : Check StatementOutcome := do
  let type ← decl.type.resolve.run
  let initSound ← match decl.init with
    | some init => checkInitializer type decl.name.name init
    | none => reportAll (uninitializedFaults decl.name type)
  if declared.contains decl.name.name then
    report ⟨decl.name.span, .variableRedeclared decl.name.name⟩
    return ⟨false, none⟩
  return ⟨type.isOk && initSound, some (decl.name.name, type)⟩

/-! ## Rules -/

/-- Whether an expression may stand alone. -/
def Expr.hasEffect : Expr → Bool
  | .assign .. | .call .. | .unary _ .delete _ => true
  | _ => false

/-- Checks an expression that stands alone. -/
def checkEffect (e : Expr) : Check Bool := do
  let sound ← succeeds e.infer
  let useful ← reportAll (if e.hasEffect then [] else [⟨e.span, .unusedExpression⟩])
  return sound && useful

/-- Checks a condition. -/
def checkCondition (condition : Expr) : Check Bool :=
  succeeds do
    let type ← condition.infer
    if !type.isBoolean then fail condition.span (.nonBooleanCondition type)

/-- Checks that a jump has a loop around it. -/
def checkJump (span : Span) (word : Keyword) : Check Bool := do
  reportAll (if (← read).inLoop then [] else [⟨span, .jumpOutsideLoop word⟩])

/-- Checks what a return hands back. -/
def checkReturned (span : Span) (value : Option (Expr × Resolved)) : Infer Unit := do
  match (← read).returnType with
  | none => fail span .returnOutsideFunction
  | some type =>
    let expected ← settle type
    match value with
    | none => if !expected.isVoid then fail span (.missingReturnValue expected)
    | some (e, result) =>
      if expected.isVoid then fail span .returnValueInVoidFunction
      let type ← settle result
      if !expected.accepts type e.isPlace then fail e.span (.mismatchedType expected type none)

/-- Checks a return. -/
def checkReturn (span : Span) (value : Option Expr) : Check Bool := do
  match value with
  | none => succeeds (checkReturned span none)
  | some e =>
    let result ← e.infer.run
    succeeds (checkReturned span (some (e, result)))

/-- Warns about a statement that control does not reach, if that is wanted. -/
def warnUnreachable (span : Span) : Check Unit := do
  if (← read).settings.warnUnreachable then warn ⟨span, .unreachable⟩

/-- The outcome of a statement that declares nothing. -/
def undeclaring (check : Check Bool) : Check StatementOutcome := return ⟨← check, none⟩

/-- With the variable that a statement declares, if it does. -/
def Scope.bindAny (bound : Option (String × Resolved)) (scope : Scope) : Scope :=
  match bound with
  | some (name, type) => scope.bind name type
  | none => scope

/-! ## Checks -/

mutual

/-- Checks a statement of a block with some variables. -/
def Statement.check (declared : List String) : Statement → Check StatementOutcome
  | .varDecl _ decl => checkVarDecl declared decl
  | .expr _ value => undeclaring (checkEffect value)
  | .ifElse _ condition thenBlock alternative => undeclaring do
    let conditionSound ← checkCondition condition
    let thenSound ← thenBlock.check
    let alternativeSound ← alternative.check
    return conditionSound && thenSound && alternativeSound
  | .while _ condition body => undeclaring do
    let conditionSound ← checkCondition condition
    let bodySound ← withReader (fun scope => { scope with inLoop := true }) body.check
    return conditionSound && bodySound
  | .tryCatch _ body handler => undeclaring do
    let bodySound ← body.check
    let handlerSound ← handler.check
    return bodySound && handlerSound
  | .return node value => undeclaring (checkReturn node.span value)
  | .break node => undeclaring (checkJump node.span .kwBreak)
  | .continue node => undeclaring (checkJump node.span .kwContinue)
  | .block _ body => undeclaring body.check

/-- Checks an alternative. -/
def Alternative.check : Alternative → Check Bool
  | .none => return true
  | .block body => body.check
  | .elseIf condition thenBlock alternative => do
    let conditionSound ← checkCondition condition
    let thenSound ← thenBlock.check
    let alternativeSound ← alternative.check
    return conditionSound && thenSound && alternativeSound

/-- Checks a block; what it declares stays inside. -/
def Block.check : Block → Check Bool
  | .mk node statements => do judge node.id (← checkStatements [] false statements)

/-- Checks the statements that follow in a block with some variables, the first of them after a jump
or not. -/
def checkStatements (declared : List String) (afterJump : Bool) : List Statement → Check Bool
  | [] => return true
  | s :: rest => do
    if afterJump then warnUnreachable s.span
    let outcome ← s.check declared
    let sound ← judge s.id outcome.valid
    let declared := outcome.bound.elim declared fun (name, _) => name :: declared
    let restSound ← withReader (Scope.bindAny outcome.bound)
      (checkStatements declared s.isTerminator rest)
    return sound && restSound

end

/-! ## Bodies -/

/-- What is wrong with a body that never returns. -/
def missingReturnFaults (returnType : Option Resolved) (title : String) (body : Block) :
    List CheckError :=
  match returnType with
  | some (.ok type) =>
    if !type.isVoid && !body.containsReturn then [⟨body.span, .missingReturn title⟩] else []
  | _ => []

/-- Checks a body, whose parameters are in scope. -/
def checkBody (title : String) (body : Block) : Check Bool := do
  let bodySound ← body.check
  let returns ← reportAll (missingReturnFaults (← read).returnType title body)
  return bodySound && returns

end ClassLang
