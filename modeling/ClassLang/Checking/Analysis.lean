import ClassLang.Checking.Inheritance
import ClassLang.Checking.Overloads
import ClassLang.Checking.Statements

/-!
The check of a whole program: first what declarations say of themselves, then superclasses and
overload sets, then bodies. So a body may use any declaration, wherever it stands.
-/

namespace ClassLang

/-! ## Names -/

/-- An error for each class that has the name of an earlier one. -/
def Program.redeclarations (p : Program) : List CheckError :=
  (repeatedNames (fun c : Class => c.name.name) p.classes).map fun c =>
    ⟨c.name.span, .classRedeclared c.name.name⟩

/-- An error for each type parameter that has the name of an earlier one. -/
def Class.typeParameterFaults (c : Class) : List CheckError :=
  (repeatedNames Ident.name c.generics).map fun param =>
    ⟨param.span, .typeParameterRedeclared param.name⟩

/-- Checks that a class has a name of its own and so have its type parameters. The name has been
reported by then. -/
def checkNames (i : Nat) : Check Bool := do
  let p := (← read).program
  let c := p.classAt i
  let paramsSound ← reportAll c.typeParameterFaults
  return paramsSound && p.findClass c.name.name != .ambiguous

/-! ## Signatures -/

/-- Resolves the types of the fields and methods of a class. -/
def checkClassSignatures (i : Nat) : Check Bool := do
  let c := (← read).program.classAt i
  withReader (fun scope => { scope with generics := c.params }) do
    let fieldsSound ← resolveAll (c.fields.map Field.type)
    let methodsSound ← c.methods.mapM fun m => resolveAll (m.params.map Param.type ++ [m.returnType])
    return fieldsSound && methodsSound.all id

/-- Where a function stands: in its class, if it has exactly one, but without an instance of it. -/
def Scope.ofFunction (scope : Scope) (function : Function) : Scope :=
  match function.owner.bind fun owner => scope.program.theClass? owner.name with
  | some owner => scope.inClass owner false
  | none => scope

/-- Resolves the types of the parameters of a function and its return type. -/
def checkFunctionSignature (i : Nat) : Check Bool := do
  let function := (← read).program.functionAt i
  withReader (·.ofFunction function)
    (resolveAll (function.params.map Param.type ++ [function.returnType]))

/-! ## Bodies -/

/-- Puts parameters in scope; one with the name of an earlier one is reported and left out. -/
def bindParams : Environment → List Param → Check (Environment × Bool)
  | env, [] => return (env, true)
  | env, param :: rest => do
    let name := param.name.name
    if env.contains name then
      report ⟨param.name.span, .variableRedeclared name⟩
      let (env, _) ← bindParams env rest
      return (env, false)
    else
      let type ← param.type.resolve.run
      bindParams (env.insert name type) rest

/-- Checks parameters and body of a function or method. -/
def checkCallable (title : String) (params : List Param) (returnType : TypeRef) (body : Block) :
    Check Bool := do
  let (env, paramsSound) ← bindParams .empty params
  let returnType ← returnType.resolve.run
  let bodySound ← withReader (·.inBody env returnType) (checkBody title body)
  return paramsSound && bodySound

/-- Checks the first value of a field. -/
def checkField (owner : Nat) (field : Field) : Check Bool :=
  match field.init with
  | none => return true
  | some init => withReader (·.inClass owner !field.isStatic) do
    let target ← field.type.resolve.run
    checkInitializer target field.name.name init

/-- Checks the body of a method. -/
def checkMethod (owner : Nat) (m : Method) : Check Bool := do
  let c := (← read).program.classAt owner
  withReader (·.inClass owner !m.isStatic)
    (checkCallable (c.memberTitle m.name.name) m.params m.returnType m.body)

/-- Checks the first values and method bodies of a class. -/
def checkClassBody (i : Nat) : Check Bool := do
  let c := (← read).program.classAt i
  note (.classBody c.name.name)
  let fieldsSound ← c.fields.mapM (checkField i)
  let methodsSound ← c.methods.mapM (checkMethod i)
  return fieldsSound.all id && methodsSound.all id

/-- Checks the body of a function. -/
def checkFunctionBody (i : Nat) : Check Bool := do
  let function := (← read).program.functionAt i
  note (.functionBody function.name.name)
  withReader (·.ofFunction function)
    (checkCallable function.title function.params function.returnType function.body)

/-! ## Programs -/

/-- Whether the classes, the functions and the statements of a program are sound. -/
structure Verdict where
  classes : Bool
  functions : Bool
  statements : Bool
deriving DecidableEq, Repr

/-- Whether a program is sound. -/
def Verdict.valid (v : Verdict) : Bool := v.classes && v.functions && v.statements

/-- Verdicts on the same items, taken together. -/
def bothValid (a b : List Bool) : List Bool := a.zipWith (· && ·) b

/-- Sets verdicts on nodes. -/
def judgeEach (ids : List Nat) (verdicts : List Bool) : Check Unit :=
  (ids.zip verdicts).forM fun (id, valid) => learn (·.setValid id valid)

/-- Checks a program. -/
def checkProgram : Check Verdict := do
  let p := (← read).program
  let classes := p.classIndices
  let functions := p.functionIndices
  let _ ← reportAll p.redeclarations
  let named ← classes.mapM checkNames
  note .resolvingSignatures
  let typed ← classes.mapM checkClassSignatures
  let functionsTyped ← functions.mapM checkFunctionSignature
  note .validatingInheritance
  let derived ← classes.mapM (checkInheritance classes.length)
  note .validatingOverloads
  let setsSound ← checkFunctionSets
  let overloaded ← classes.mapM checkMethodSets
  note .checkingBodies
  let implemented ← classes.mapM checkClassBody
  let functionsImplemented ← functions.mapM checkFunctionBody
  let statementsSound ← checkStatements [] false p.statements
  let classesValid :=
    bothValid (bothValid (bothValid (bothValid named typed) derived) overloaded) implemented
  let functionsValid := bothValid functionsTyped functionsImplemented
  judgeEach (p.classes.map Class.id) classesValid
  judgeEach (p.functions.map fun f => f.node.id) functionsValid
  let verdict : Verdict :=
    ⟨classesValid.all id, setsSound && functionsValid.all id, statementsSound⟩
  note (.finished (← get).errors.length verdict.valid)
  return verdict

/-- What the check of a program has come to. -/
structure Analysis where
  verdict : Verdict
  state : CheckState
deriving Repr

/-- Checks a program. -/
def Program.analyze (p : Program) (settings : Settings) : Analysis :=
  let (verdict, state) := (checkProgram.run (.top p settings)).run .empty
  ⟨verdict, state⟩

end ClassLang
