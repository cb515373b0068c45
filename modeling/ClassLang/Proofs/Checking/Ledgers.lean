import ClassLang.Proofs.Checking.Ensures

/-!
The check of a program with its bookkeeping taken out: what is done at a node whose result is recorded
is left to a ledger. One ledger remembers results; with it the check is the one that is run. Another
asserts that this is right, and does the same at a node where it is.

* `Ledger.analyze_remembering`: the check that remembers results is the check of the program.
* `Ledger.type_fresh`, `Ledger.type_known`, `Ledger.expr_fresh`: where the assertions hold.
-/

namespace ClassLang

/-- What is done for a written type and for an expression, given the rule that finds its type. -/
structure Ledger where
  type : TypeRef → Infer Ty → Infer Ty
  expr : Expr → Infer Ty → Infer Ty

namespace Ledger

/-- A result that is there already is taken; any other is found by rule and recorded. -/
def remembering : Ledger := ⟨fun t => remembered t.id, fun e => remembered e.id⟩

variable (ledger : Ledger)

/-! ## Written types -/

mutual

def resolve : TypeRef → Infer Ty
  | .primitive node mods kind =>
    ledger.type (.primitive node mods kind) (pure (.primitive mods kind))
  | .void node mods => ledger.type (.void node mods) (pure (.void mods))
  | .array node mods args =>
    ledger.type (.array node mods args) (arrayType node mods (resolveEach args))
  | .keymap node mods args =>
    ledger.type (.keymap node mods args) (keymapType node mods (resolveEach args))
  | .named node mods name =>
    ledger.type (.named node mods name) (namedType node mods name.name)
  | .generic node mods name args =>
    ledger.type (.generic node mods name args) (genericType node mods name.name (resolveEach args))

def resolveEach : List TypeRef → Check (List Resolved)
  | [] => return []
  | t :: rest => do
    let result ← (resolve t).run
    return result :: (← resolveEach rest)

end

def resolveAll (types : List TypeRef) : Check Bool := do
  return (← ledger.resolveEach types).all Except.isOk

/-! ## Expressions -/

mutual

def infer : Expr → Infer Ty
  | .ident node name => ledger.expr (.ident node name) (nameType node name.name)
  | .this node => ledger.expr (.this node) (thisType node)
  | .literal node value => ledger.expr (.literal node value) (pure value.type)
  | .list node elems => ledger.expr (.list node elems) (listType elems (inferEach elems))
  | .keymap node pairs =>
    ledger.expr (.keymap node pairs) (keymapLiteralType pairs (inferPairs pairs))
  | .binary node op lhs rhs =>
    ledger.expr (.binary node op lhs rhs) (binaryType node op lhs rhs (infer lhs) (infer rhs))
  | .unary node op operand =>
    ledger.expr (.unary node op operand) (unaryType node op operand (infer operand))
  | .new node type => ledger.expr (.new node type) (newType node (ledger.resolve type))
  | .member node target access name =>
    ledger.expr (.member node target access name)
      (memberType node name (receiver target access (infer target)))
  | .index node target index =>
    ledger.expr (.index node target index) (indexType node target index (infer target) (infer index))
  | .call node callee args =>
    ledger.expr (.call node callee args)
      (callType (.call node callee args) callee args (infer callee) (inferTarget callee)
        (inferEach args))
  | .assign node kind target value =>
    ledger.expr (.assign node kind target value)
      (assignType kind target value (infer target) (infer value))

def inferTarget : Expr → Infer Ty
  | .member _ target _ _ => infer target
  | _ => throw ⟨⟩

def inferEach : List Expr → Check (List Resolved)
  | [] => return []
  | e :: rest => do
    let result ← (infer e).run
    return result :: (← inferEach rest)

def inferPairs : List KeymapPair → Check (List (Except Reported (Ty × Ty)))
  | [] => return []
  | .mk node key value :: rest => do
    let result ← recordedPair node (pairType (infer key) (infer value))
    return result :: (← inferPairs rest)

end

/-! ## Statements -/

def checkInitializer (target : Resolved) (name : String) (init : Initializer) : Check Bool := do
  let value ← (ledger.infer init.value).run
  succeeds do
    let target ← settle target
    let type ← settle value
    settleBy (checkStore init.kind target name init.value type)

def checkVarDecl (declared : List String) (decl : VarDecl) : Check StatementOutcome := do
  let type ← (ledger.resolve decl.type).run
  let initSound ← match decl.init with
    | some init => ledger.checkInitializer type decl.name.name init
    | none => reportAll (uninitializedFaults decl.name type)
  if declared.contains decl.name.name then
    report ⟨decl.name.span, .variableRedeclared decl.name.name⟩
    return ⟨false, none⟩
  return ⟨type.isOk && initSound, some (decl.name.name, type)⟩

def checkEffect (e : Expr) : Check Bool := do
  let sound ← succeeds (ledger.infer e)
  let useful ← reportAll (if e.hasEffect then [] else [⟨e.span, .unusedExpression⟩])
  return sound && useful

def checkCondition (condition : Expr) : Check Bool :=
  succeeds do
    let type ← ledger.infer condition
    if !type.isBoolean then fail condition.span (.nonBooleanCondition type)

def checkReturn (span : Span) (value : Option Expr) : Check Bool := do
  match value with
  | none => succeeds (checkReturned span none)
  | some e =>
    let result ← (ledger.infer e).run
    succeeds (checkReturned span (some (e, result)))

mutual

def checkStatement (declared : List String) : Statement → Check StatementOutcome
  | .varDecl _ decl => ledger.checkVarDecl declared decl
  | .expr _ value => undeclaring (ledger.checkEffect value)
  | .ifElse _ condition thenBlock alternative => undeclaring do
    let conditionSound ← ledger.checkCondition condition
    let thenSound ← checkBlock thenBlock
    let alternativeSound ← checkAlternative alternative
    return conditionSound && thenSound && alternativeSound
  | .while _ condition body => undeclaring do
    let conditionSound ← ledger.checkCondition condition
    let bodySound ← withReader (fun scope => { scope with inLoop := true }) (checkBlock body)
    return conditionSound && bodySound
  | .tryCatch _ body handler => undeclaring do
    let bodySound ← checkBlock body
    let handlerSound ← checkBlock handler
    return bodySound && handlerSound
  | .return node value => undeclaring (ledger.checkReturn node.span value)
  | .break node => undeclaring (checkJump node.span .kwBreak)
  | .continue node => undeclaring (checkJump node.span .kwContinue)
  | .block _ body => undeclaring (checkBlock body)

def checkAlternative : Alternative → Check Bool
  | .none => return true
  | .block body => checkBlock body
  | .elseIf condition thenBlock alternative => do
    let conditionSound ← ledger.checkCondition condition
    let thenSound ← checkBlock thenBlock
    let alternativeSound ← checkAlternative alternative
    return conditionSound && thenSound && alternativeSound

def checkBlock : Block → Check Bool
  | .mk node statements => do judge node.id (← checkStatements [] false statements)

def checkStatements (declared : List String) (afterJump : Bool) : List Statement → Check Bool
  | [] => return true
  | s :: rest => do
    if afterJump then warnUnreachable s.span
    let outcome ← checkStatement declared s
    let sound ← judge s.id outcome.valid
    let declared := outcome.bound.elim declared fun (name, _) => name :: declared
    let restSound ← withReader (Scope.bindAny outcome.bound)
      (checkStatements declared s.isTerminator rest)
    return sound && restSound

end

def checkBody (title : String) (body : Block) : Check Bool := do
  let bodySound ← ledger.checkBlock body
  let returns ← reportAll (missingReturnFaults (← read).returnType title body)
  return bodySound && returns

/-! ## Superclasses -/

def checkSuperclass (examine : Nat → Check Bool) (i : Nat) : Check Bool := do
  let p := (← read).program
  let c := p.classAt i
  match c.superclass with
  | none => return true
  | some written => succeeds do
    let name ← settleBy (p.superclassName i written)
    let type ← withReader (fun scope => { scope with generics := c.params }) (ledger.resolve written)
    match p.classOf? type with
    | none => throw ⟨⟩
    | some superclass =>
      if !(← examine superclass) then
        fail written.span (.invalidSuperclass c.name.name name)
      learn (·.setSuperclass i ⟨superclass, p.argsOf superclass type⟩)

def examineClass (examine : Nat → Check Bool) (i : Nat) : Check Bool := do
  learn (·.setMark i .inProgress)
  let superclassSound ← ledger.checkSuperclass examine i
  let membersSound ← checkMembers i superclassSound
  let valid := superclassSound && membersSound
  learn (·.setMark i (.done valid))
  note (.inheritance ((← read).program.classAt i).name.name valid)
  return valid

def checkInheritance : Nat → Nat → Check Bool
  | depth, i => do
    match (← findings).mark i with
    | .done valid => return valid
    | .inProgress => return false
    | .unvisited =>
      match depth with
      | 0 => return false
      | depth + 1 => ledger.examineClass (checkInheritance depth) i

/-! ## Declarations -/

def checkClassSignatures (i : Nat) : Check Bool := do
  let c := (← read).program.classAt i
  withReader (fun scope => { scope with generics := c.params }) do
    let fieldsSound ← ledger.resolveAll (c.fields.map Field.type)
    let methodsSound ← c.methods.mapM fun m =>
      ledger.resolveAll (m.params.map Param.type ++ [m.returnType])
    return fieldsSound && methodsSound.all id

def checkFunctionSignature (i : Nat) : Check Bool := do
  let function := (← read).program.functionAt i
  withReader (·.ofFunction function)
    (ledger.resolveAll (function.params.map Param.type ++ [function.returnType]))

def bindParams : Environment → List Param → Check (Environment × Bool)
  | env, [] => return (env, true)
  | env, param :: rest => do
    let name := param.name.name
    if env.contains name then
      report ⟨param.name.span, .variableRedeclared name⟩
      let (env, _) ← bindParams env rest
      return (env, false)
    else
      let type ← (ledger.resolve param.type).run
      bindParams (env.insert name type) rest

def checkCallable (title : String) (params : List Param) (returnType : TypeRef) (body : Block) :
    Check Bool := do
  let (env, paramsSound) ← ledger.bindParams .empty params
  let returnType ← (ledger.resolve returnType).run
  let bodySound ← withReader (·.inBody env returnType) (ledger.checkBody title body)
  return paramsSound && bodySound

def checkField (owner : Nat) (field : Field) : Check Bool :=
  match field.init with
  | none => return true
  | some init => withReader (·.inClass owner !field.isStatic) do
    let target ← (ledger.resolve field.type).run
    ledger.checkInitializer target field.name.name init

def checkMethod (owner : Nat) (m : Method) : Check Bool := do
  let c := (← read).program.classAt owner
  withReader (·.inClass owner !m.isStatic)
    (ledger.checkCallable (c.memberTitle m.name.name) m.params m.returnType m.body)

def checkClassBody (i : Nat) : Check Bool := do
  let c := (← read).program.classAt i
  note (.classBody c.name.name)
  let fieldsSound ← c.fields.mapM (ledger.checkField i)
  let methodsSound ← c.methods.mapM (ledger.checkMethod i)
  return fieldsSound.all id && methodsSound.all id

def checkFunctionBody (i : Nat) : Check Bool := do
  let function := (← read).program.functionAt i
  note (.functionBody function.name.name)
  withReader (·.ofFunction function)
    (ledger.checkCallable function.title function.params function.returnType function.body)

/-! ## Programs -/

def checkProgram : Check Verdict := do
  let p := (← read).program
  let classes := p.classIndices
  let functions := p.functionIndices
  let _ ← reportAll p.redeclarations
  let named ← classes.mapM checkNames
  note .resolvingSignatures
  let typed ← classes.mapM ledger.checkClassSignatures
  let functionsTyped ← functions.mapM ledger.checkFunctionSignature
  note .validatingInheritance
  let derived ← classes.mapM (ledger.checkInheritance classes.length)
  note .validatingOverloads
  let setsSound ← checkFunctionSets
  let overloaded ← classes.mapM checkMethodSets
  note .checkingBodies
  let implemented ← classes.mapM ledger.checkClassBody
  let functionsImplemented ← functions.mapM ledger.checkFunctionBody
  let statementsSound ← ledger.checkStatements [] false p.statements
  let classesValid :=
    bothValid (bothValid (bothValid (bothValid named typed) derived) overloaded) implemented
  let functionsValid := bothValid functionsTyped functionsImplemented
  judgeEach (p.classes.map Class.id) classesValid
  judgeEach (p.functions.map fun f => f.node.id) functionsValid
  let verdict : Verdict :=
    ⟨classesValid.all id, setsSound && functionsValid.all id, statementsSound⟩
  note (.finished (← get).errors.length verdict.valid)
  return verdict

def analyze (p : Program) (settings : Settings) : Analysis :=
  let (verdict, state) := (ledger.checkProgram.run (.top p settings)).run .empty
  ⟨verdict, state⟩

end Ledger

/-! ## Remembering -/

namespace Ledger

mutual

theorem resolve_remembering : ∀ t : TypeRef, remembering.resolve t = t.resolve
  | .primitive .. | .void .. | .named .. => rfl
  | .array _ _ args | .keymap _ _ args | .generic _ _ _ args => by
    rw [resolve, TypeRef.resolve, resolveEach_remembering args]
    rfl

theorem resolveEach_remembering : ∀ ts : List TypeRef,
    remembering.resolveEach ts = ClassLang.resolveEach ts
  | [] => rfl
  | t :: rest => by
    rw [resolveEach, ClassLang.resolveEach, resolve_remembering t, resolveEach_remembering rest]

end

theorem resolveAll_remembering (ts : List TypeRef) :
    remembering.resolveAll ts = ClassLang.resolveAll ts := by
  rw [resolveAll, ClassLang.resolveAll, resolveEach_remembering]

mutual

theorem infer_remembering : ∀ e : Expr, remembering.infer e = e.infer
  | .ident .. | .this .. | .literal .. => rfl
  | .list _ elems => by
    rw [infer, Expr.infer, inferEach_remembering elems]
    rfl
  | .keymap _ pairs => by
    rw [infer, Expr.infer, inferPairs_remembering pairs]
    rfl
  | .binary _ _ a b | .index _ a b | .assign _ _ a b => by
    rw [infer, Expr.infer, infer_remembering a, infer_remembering b]
    rfl
  | .unary _ _ operand => by
    rw [infer, Expr.infer, infer_remembering operand]
    rfl
  | .new _ type => by
    rw [infer, Expr.infer, resolve_remembering type]
    rfl
  | .member _ target _ _ => by
    rw [infer, Expr.infer, infer_remembering target]
    rfl
  | .call _ callee args => by
    rw [infer, Expr.infer, infer_remembering callee, inferTarget_remembering callee,
      inferEach_remembering args]
    rfl

theorem inferTarget_remembering : ∀ e : Expr, remembering.inferTarget e = e.inferTarget
  | .member _ target _ _ => by rw [inferTarget, Expr.inferTarget, infer_remembering target]
  | .ident .. | .this .. | .literal .. | .list .. | .keymap .. | .binary .. | .unary .. | .new ..
  | .index .. | .call .. | .assign .. => rfl

theorem inferEach_remembering : ∀ es : List Expr, remembering.inferEach es = ClassLang.inferEach es
  | [] => rfl
  | e :: rest => by
    rw [inferEach, ClassLang.inferEach, infer_remembering e, inferEach_remembering rest]

theorem inferPairs_remembering : ∀ pairs : List KeymapPair,
    remembering.inferPairs pairs = ClassLang.inferPairs pairs
  | [] => rfl
  | .mk _ key value :: rest => by
    rw [inferPairs, ClassLang.inferPairs, infer_remembering key, infer_remembering value,
      inferPairs_remembering rest]

end

theorem checkInitializer_remembering (target : Resolved) (name : String) (init : Initializer) :
    remembering.checkInitializer target name init = ClassLang.checkInitializer target name init := by
  rw [checkInitializer, ClassLang.checkInitializer, infer_remembering]

theorem checkVarDecl_remembering (declared : List String) (decl : VarDecl) :
    remembering.checkVarDecl declared decl = ClassLang.checkVarDecl declared decl := by
  rw [checkVarDecl, ClassLang.checkVarDecl, resolve_remembering]
  cases decl.init with
  | none => rfl
  | some init => simp only [checkInitializer_remembering]

theorem checkEffect_remembering (e : Expr) :
    remembering.checkEffect e = ClassLang.checkEffect e := by
  rw [checkEffect, ClassLang.checkEffect, infer_remembering]

theorem checkCondition_remembering (condition : Expr) :
    remembering.checkCondition condition = ClassLang.checkCondition condition := by
  rw [checkCondition, ClassLang.checkCondition, infer_remembering]

theorem checkReturn_remembering (span : Span) (value : Option Expr) :
    remembering.checkReturn span value = ClassLang.checkReturn span value := by
  cases value with
  | none => rfl
  | some e => rw [checkReturn, ClassLang.checkReturn, infer_remembering]

mutual

theorem checkStatement_remembering (declared : List String) : ∀ s : Statement,
    remembering.checkStatement declared s = s.check declared
  | .varDecl _ decl => checkVarDecl_remembering declared decl
  | .expr _ value => congrArg undeclaring (checkEffect_remembering value)
  | .ifElse _ condition thenBlock alternative => by
    rw [checkStatement, Statement.check, checkCondition_remembering,
      checkBlock_remembering thenBlock, checkAlternative_remembering alternative]
  | .while _ condition body => by
    rw [checkStatement, Statement.check, checkCondition_remembering, checkBlock_remembering body]
  | .tryCatch _ body handler => by
    rw [checkStatement, Statement.check, checkBlock_remembering body, checkBlock_remembering handler]
  | .return n value => congrArg undeclaring (checkReturn_remembering n.span value)
  | .break _ | .continue _ => rfl
  | .block _ body => congrArg undeclaring (checkBlock_remembering body)

theorem checkAlternative_remembering : ∀ a : Alternative,
    remembering.checkAlternative a = a.check
  | .none => rfl
  | .block body => checkBlock_remembering body
  | .elseIf condition thenBlock alternative => by
    rw [checkAlternative, Alternative.check, checkCondition_remembering,
      checkBlock_remembering thenBlock, checkAlternative_remembering alternative]

theorem checkBlock_remembering : ∀ b : Block, remembering.checkBlock b = b.check
  | .mk _ statements => by
    rw [checkBlock, Block.check, checkStatements_remembering [] false statements]

theorem checkStatements_remembering (declared : List String) (afterJump : Bool) :
    ∀ ss : List Statement, remembering.checkStatements declared afterJump ss =
      ClassLang.checkStatements declared afterJump ss
  | [] => rfl
  | s :: rest => by
    have following (declared : List String) :=
      checkStatements_remembering declared s.isTerminator rest
    simp only [checkStatements, ClassLang.checkStatements, checkStatement_remembering declared s,
      following]

end

theorem checkSuperclass_remembering (examine : Nat → Check Bool) (i : Nat) :
    remembering.checkSuperclass examine i = ClassLang.checkSuperclass examine i := by
  refine bind_congr fun scope => ?_
  dsimp only
  cases (scope.program.classAt i).superclass with
  | none => rfl
  | some written =>
    dsimp only
    have resolved := resolve_remembering written
    generalize remembering.resolve written = resolve at resolved ⊢
    subst resolved
    rfl

theorem checkInheritance_remembering (depth : Nat) :
    remembering.checkInheritance depth = ClassLang.checkInheritance depth := by
  induction depth with
  | zero =>
    funext i
    unfold checkInheritance ClassLang.checkInheritance
    refine bind_congr fun f => ?_
    cases f.mark i <;> rfl
  | succ depth ih =>
    funext i
    have examined : remembering.examineClass (remembering.checkInheritance depth) i =
        ClassLang.examineClass (ClassLang.checkInheritance depth) i := by
      rw [ih, examineClass, ClassLang.examineClass, checkSuperclass_remembering]
    unfold checkInheritance ClassLang.checkInheritance
    refine bind_congr fun f => ?_
    cases f.mark i with
    | done | inProgress => rfl
    | unvisited => exact examined

theorem checkClassSignatures_remembering :
    remembering.checkClassSignatures = ClassLang.checkClassSignatures := by
  funext i
  simp only [checkClassSignatures, ClassLang.checkClassSignatures, resolveAll_remembering]

theorem checkFunctionSignature_remembering :
    remembering.checkFunctionSignature = ClassLang.checkFunctionSignature := by
  funext i
  simp only [checkFunctionSignature, ClassLang.checkFunctionSignature, resolveAll_remembering]

theorem bindParams_remembering (env : Environment) (params : List Param) :
    remembering.bindParams env params = ClassLang.bindParams env params := by
  induction params generalizing env with
  | nil => rfl
  | cons param rest ih =>
    simp only [bindParams, ClassLang.bindParams, resolve_remembering, ih]

theorem checkCallable_remembering (title : String) (params : List Param) (returnType : TypeRef)
    (body : Block) : remembering.checkCallable title params returnType body =
      ClassLang.checkCallable title params returnType body := by
  simp only [checkCallable, ClassLang.checkCallable, checkBody, ClassLang.checkBody,
    bindParams_remembering, resolve_remembering, checkBlock_remembering]

theorem checkClassBody_remembering : remembering.checkClassBody = ClassLang.checkClassBody := by
  have field (owner : Nat) : remembering.checkField owner = ClassLang.checkField owner := by
    funext field
    rw [checkField, ClassLang.checkField]
    cases field.init with
    | none => rfl
    | some init => simp only [resolve_remembering, checkInitializer_remembering]
  have method (owner : Nat) : remembering.checkMethod owner = ClassLang.checkMethod owner := by
    funext m
    simp only [checkMethod, ClassLang.checkMethod, checkCallable_remembering]
  funext i
  simp only [checkClassBody, ClassLang.checkClassBody, field, method]

theorem checkFunctionBody_remembering :
    remembering.checkFunctionBody = ClassLang.checkFunctionBody := by
  funext i
  simp only [checkFunctionBody, ClassLang.checkFunctionBody, checkCallable_remembering]

theorem analyze_remembering (p : Program) (settings : Settings) :
    remembering.analyze p settings = p.analyze settings := by
  have check : remembering.checkProgram = ClassLang.checkProgram := by
    simp only [checkProgram, ClassLang.checkProgram, checkClassSignatures_remembering,
      checkFunctionSignature_remembering, checkInheritance_remembering, checkClassBody_remembering,
      checkFunctionBody_remembering, checkStatements_remembering]
  rw [analyze, check]
  rfl

end Ledger

/-! ## Assertions -/

/-- What resolving a written type gives here if nothing has been found out. -/
def TypeRef.afresh (t : TypeRef) (scope : Scope) : Resolved :=
  (Check.exec t.resolve.run scope .empty).1

/-- Asserts that results may be remembered. Nothing is looked up for an expression: there is no verdict
on it before or after its rule is followed, and from then on there is one for good, so it is entered once
at most. For a written type on which there is a verdict, the type on record is the one that it has
afresh, or there is none in both cases. -/
def Ledger.asserting (failed : Infer Ty) : Ledger where
  type t rule := do
    let afresh := t.afresh (← read)
    let f ← findings
    if f.validity t.id = none then recorded t.id rule
    else if (f.cached t.id).map Except.toOption = some afresh.toOption then settle afresh
    else failed
  expr e rule := do
    if (← findings).validity e.id ≠ none then failed
    else
      let result ← attempt rule
      if (← findings).validity e.id ≠ none then failed
      else
        learn (·.record e.id result)
        settle result

/-! ## Checks that coincide -/

section Coincide

variable {α β : Type} {scope : Scope} {f : Findings}

/-- Two checks do the same from given findings, whatever has been reported before. -/
def Coincide (x y : Check α) (scope : Scope) (f : Findings) : Prop :=
  ∀ s : CheckState, s.findings = f → x.exec scope s = y.exec scope s

namespace Coincide

variable {x y : Check α} {k k' : α → Check β}

theorem refl (x : Check α) : Coincide x x scope f := fun _ _ => rfl

theorem first (same : Coincide x y scope f) : Coincide (x >>= k) (y >>= k) scope f := by
  intro s known
  rw [Check.exec_bind, Check.exec_bind, same s known]

theorem bind {mid : α → Findings → Prop} (same : Coincide x y scope f) (after : Ensures y scope f mid)
    (rest : ∀ a g, mid a g → Coincide (k a) (k' a) scope g) :
    Coincide (x >>= k) (y >>= k') scope f := by
  intro s known
  rw [Check.exec_bind, Check.exec_bind, same s known]
  exact rest _ _ (after s known) _ rfl

/-- An action that adds nothing to what has been found out. -/
theorem silent (keeps : ∀ s, (x.exec scope s).2.findings = s.findings)
    (rest : ∀ a, Coincide (k a) (k' a) scope f) : Coincide (x >>= k) (x >>= k') scope f := by
  rintro s rfl
  exact rest _ _ (keeps s)

theorem read {k k' : Scope → Check β} (rest : Coincide (k scope) (k' scope) scope f) :
    Coincide ((MonadReader.read : Check Scope) >>= k) (MonadReader.read >>= k') scope f := rest

theorem withReader {h : Scope → Scope} (same : Coincide x y (h scope) f) :
    Coincide (MonadWithReader.withReader h x : Check α) (MonadWithReader.withReader h y) scope f := same

theorem findings {k k' : Findings → Check β} (rest : Coincide (k f) (k' f) scope f) :
    Coincide (ClassLang.findings >>= k) (ClassLang.findings >>= k') scope f := by
  rintro s rfl
  exact rest s rfl

theorem learn {h : Findings → Findings} {k k' : Unit → Check β}
    (rest : Coincide (k ()) (k' ()) scope (h f)) :
    Coincide (ClassLang.learn h >>= k) (ClassLang.learn h >>= k') scope f := by
  rintro s rfl
  exact rest _ rfl

section Infer

variable {x y : Infer α} {k k' : α → Infer β}

theorem infer_first (same : Coincide x.run y.run scope f) :
    Coincide (x >>= k).run (y >>= k).run scope f := by
  intro s known
  rw [Infer.exec_bind, Infer.exec_bind, same s known]

theorem infer_bind {mid : Except Reported α → Findings → Prop} (same : Coincide x.run y.run scope f)
    (after : Ensures y.run scope f mid)
    (rest : ∀ a g, mid (.ok a) g → Coincide (k a).run (k' a).run scope g) :
    Coincide (x >>= k).run (y >>= k').run scope f := by
  intro s known
  have here := after s known
  rw [Infer.exec_bind, Infer.exec_bind, same s known]
  rcases run : Check.exec y.run scope s with ⟨_ | a, t⟩
  · rfl
  · rw [run] at here
    exact rest a _ here t rfl

theorem infer_read {k k' : Scope → Infer β} (rest : Coincide (k scope).run (k' scope).run scope f) :
    Coincide ((MonadReader.read : Infer Scope) >>= k).run (MonadReader.read >>= k').run scope f := rest

theorem infer_findings {k k' : Findings → Infer β} (rest : Coincide (k f).run (k' f).run scope f) :
    Coincide ((liftM ClassLang.findings : Infer Findings) >>= k).run
      ((liftM ClassLang.findings : Infer Findings) >>= k').run scope f :=
  findings (k := fun f => (k f).run) rest

theorem infer_learn {h : Findings → Findings} {k k' : Unit → Infer β}
    (rest : Coincide (k ()).run (k' ()).run scope (h f)) :
    Coincide ((liftM (ClassLang.learn h) : Infer Unit) >>= k).run
      ((liftM (ClassLang.learn h) : Infer Unit) >>= k').run scope f :=
  learn (k := fun u => (k u).run) rest

theorem fail_bind {span : Span} {cause : CheckCause} {k k' : α → Infer β} :
    Coincide ((fail span cause : Infer α) >>= k).run ((fail span cause : Infer α) >>= k').run scope f :=
  fun _ _ => rfl

theorem settleBy_bind {r : Except CheckError α} {k k' : α → Infer β}
    (rest : ∀ a, Coincide (k a).run (k' a).run scope f) :
    Coincide (settleBy r >>= k).run (settleBy r >>= k').run scope f := by
  cases r with
  | error _ => exact fail_bind
  | ok a => exact rest a

/-- One of the checks looks at the findings. -/
theorem observing {k : Findings → Infer α} {y : Check (Except Reported α)}
    (rest : Coincide (k f).run y scope f) :
    Coincide ((liftM ClassLang.findings : Infer Findings) >>= k).run y scope f := by
  rintro s rfl
  exact rest s rfl

/-- One of the checks looks at its surroundings and at the findings. -/
theorem reading {k : Scope → Findings → Infer α} {y : Check (Except Reported α)}
    (rest : Coincide (k scope f).run y scope f) :
    Coincide ((MonadReader.read : Infer Scope) >>= fun scope =>
      (liftM ClassLang.findings : Infer Findings) >>= k scope).run y scope f :=
  observing rest

theorem attempt_first {k : Except Reported α → Infer β} (same : Coincide x.run y.run scope f) :
    Coincide (attempt x >>= k).run (attempt y >>= k).run scope f :=
  first same

theorem attempt_bind {mid : Except Reported α → Findings → Prop} {k k' : Except Reported α → Infer β}
    (same : Coincide x.run y.run scope f) (after : Ensures y.run scope f mid)
    (rest : ∀ r g, mid r g → Coincide (k r).run (k' r).run scope g) :
    Coincide (attempt x >>= k).run (attempt y >>= k').run scope f :=
  bind same after rest

theorem lift_first {x y : Check α} (same : Coincide x y scope f) :
    Coincide ((liftM x : Infer α) >>= k).run ((liftM y : Infer α) >>= k).run scope f :=
  first same

theorem lift_bind {x y : Check α} {mid : α → Findings → Prop} (same : Coincide x y scope f)
    (after : Ensures y scope f mid)
    (rest : ∀ a g, mid a g → Coincide (k a).run (k' a).run scope g) :
    Coincide ((liftM x : Infer α) >>= k).run ((liftM y : Infer α) >>= k').run scope f :=
  bind same after rest

theorem recorded (id : Nat) {x y : Infer Ty} (same : Coincide x.run y.run scope f) :
    Coincide (ClassLang.recorded id x).run (ClassLang.recorded id y).run scope f :=
  attempt_first same

end Infer

end Coincide

/-! ## The assertions of one node -/

namespace Ledger

variable {failed : Infer Ty} {x y : Infer Ty}

theorem type_fresh {t : TypeRef} (fresh : f.validity t.id = none)
    (same : Coincide x.run y.run scope f) :
    Coincide ((asserting failed).type t x).run (remembered t.id y).run scope f := by
  refine .reading ?_
  rw [if_pos fresh]
  rintro s rfl
  have unknown : s.findings.cached t.id = none := by simp [Findings.cached, fresh]
  rw [exec_remembered_unknown unknown]
  exact Coincide.recorded t.id same s rfl

theorem type_known {t : TypeRef} (known : f.cached t.id = some (t.afresh scope)) :
    Coincide ((asserting failed).type t x).run (remembered t.id y).run scope f := by
  have judged : f.validity t.id ≠ none := by
    intro fresh
    simp [Findings.cached, fresh] at known
  have same : (f.cached t.id).map Except.toOption = some (t.afresh scope).toOption :=
    congrArg (Option.map Except.toOption) known
  refine .reading ?_
  rw [if_neg judged, if_pos same]
  rintro s rfl
  rw [exec_remembered_known known]
  rfl

theorem expr_fresh {e : Expr} (fresh : f.validity e.id = none)
    (after : Ensures y.run scope f fun _ g => g.validity e.id = none)
    (same : Coincide x.run y.run scope f) :
    Coincide ((asserting failed).expr e x).run (remembered e.id y).run scope f := by
  refine .observing ?_
  rw [if_neg fun judged => judged fresh]
  rintro s rfl
  have unknown : s.findings.cached e.id = none := by simp [Findings.cached, fresh]
  rw [exec_remembered_unknown unknown]
  refine Coincide.attempt_bind same after (fun r g still => ?_) s rfl
  refine .observing ?_
  rw [if_neg fun judged => judged still]
  exact .refl _

end Ledger

end Coincide

end ClassLang
