import ClassLang.Checking.Members
import ClassLang.Checking.Overloads
import ClassLang.Checking.Storing

/-!
Calls: the declarations that a call may mean, and the choice among them. The first candidate that
takes the arguments is meant: methods before functions, near classes before far ones.
-/

namespace ClassLang

/-! ## Candidates -/

/-- A declaration that a call may mean, with its parameter types and return type as seen from the
call, if they are sound. -/
structure Candidate where
  decl : Decl
  signature : Except Reported (List Ty × Ty)

/-- A signature as seen through a substitution, once its types have been resolved. -/
def Findings.signatureThrough? (f : Findings) (params : List Param) (returnType : TypeRef)
    (s : Substitution) : Option (Except Reported (List Ty × Ty)) := do
  let params ← params.mapM fun param => f.cached param.type.id
  let result ← f.cached returnType.id
  return do
    let params ← allResolved params
    return (params.map s.apply, s.apply (← result))

/-- A method of a class or of one of its ancestors. -/
structure FoundMethod where
  owner : Nat
  index : Nat
  method : Method
  /-- What stands for the type parameters of the declaring class. -/
  args : Substitution

/-- The methods of a name in a class and its ancestors, nearest class first. -/
def Program.findMethods (p : Program) (f : Findings) (owner : Nat) (name : String)
    (receiver : Substitution) : List FoundMethod :=
  (f.chain owner).flatMap fun ancestor =>
    ((p.classAt ancestor.index).methods.zipIdx.filter fun m => m.1.name.name == name).map
      fun m => ⟨ancestor.index, m.2, m.1, ancestor.args.andThen receiver⟩

/-- A found method as a candidate, once its types have been resolved. -/
def FoundMethod.candidate? (f : Findings) (found : FoundMethod) : Option Candidate := do
  let m := found.method
  return ⟨.method found.owner found.index,
    ← f.signatureThrough? m.params m.returnType found.args⟩

/-- What a search for methods has come to. -/
structure MethodSearch where
  found : List FoundMethod
  /-- Those that code here may use. -/
  accessible : List FoundMethod
  hasInstance : Bool

namespace MethodSearch

/-- The search that finds nothing. -/
def none : MethodSearch := ⟨[], [], false⟩

/-- Those that need no instance, or have one. -/
def usable (search : MethodSearch) : List FoundMethod :=
  search.accessible.filter fun m => m.method.isStatic || search.hasInstance

/-- Whether a method was passed over because there is no instance. -/
def lacksInstance (search : MethodSearch) : Bool :=
  search.accessible.any fun m => !(m.method.isStatic || search.hasInstance)

/-- The candidates among the methods. -/
def candidates (search : MethodSearch) (f : Findings) : List Candidate :=
  search.usable.filterMap (FoundMethod.candidate? f)

end MethodSearch

/-- Searches a class and its ancestors for the methods of a name. -/
def Scope.searchMethods (scope : Scope) (f : Findings) (owner : Nat) (name : String)
    (receiver : Substitution) (hasInstance : Bool) : MethodSearch :=
  let found := scope.program.findMethods f owner name receiver
  ⟨found, found.filter fun m => scope.mayUse f m.owner m.method.access, hasInstance⟩

/-- The free functions of a name. An operator function is not called by name. -/
def Program.functionCandidates (p : Program) (f : Findings) (name : String) : List Candidate :=
  ((p.functionsNamed name).filter fun i => (p.functionAt i).operator.isNone).filterMap fun i =>
    let function := p.functionAt i
    (f.signatureThrough? function.params function.returnType .empty).map fun signature =>
      ⟨.function i, signature⟩

/-- What a call may mean, and the name that it goes by in messages. -/
structure Callee where
  title : String
  candidates : List Candidate

/-- A call by bare name means a method of the class around or a function, unless a variable has the
name. -/
def Scope.calleeNamed (scope : Scope) (f : Findings) (span : Span) (name : String) :
    Except CheckError Callee :=
  let methods := match scope.selfClass with
    | some owner => scope.searchMethods f owner name .empty scope.isInstance
    | none => .none
  let functions := scope.program.functionCandidates f name
  if scope.env.contains name then .error ⟨span, .notCallable⟩
  else if methods.found.isEmpty && functions.isEmpty then .error ⟨span, .unknownFunction name⟩
  else if (methods.candidates f).isEmpty && functions.isEmpty && methods.lacksInstance then
    .error ⟨span, .instanceMemberInStaticCode name⟩
  else .ok ⟨name, methods.candidates f ++ functions⟩

/-- A call of a member means a method of the receiver. -/
def Scope.calleeOf (scope : Scope) (f : Findings) (receiver : Receiver) (name : Ident) :
    Except CheckError Callee :=
  let p := scope.program
  let methods := scope.searchMethods f receiver.owner name.name receiver.args receiver.hasInstance
  let c := p.classAt receiver.owner
  if methods.found.isEmpty then .error ⟨name.span, .unknownMember c.name.name name.name⟩
  else if (methods.candidates f).isEmpty && methods.lacksInstance then
    .error ⟨name.span, .instanceMemberInStaticCode name.name⟩
  else match methods.found.find? fun m => !scope.mayUse f m.owner m.method.access with
    | some hidden =>
      if (methods.candidates f).isEmpty then
        .error ⟨name.span, .inaccessibleMember (p.classAt hidden.owner).name.name name.name
          hidden.method.access⟩
      else .ok ⟨c.memberTitle name.name, methods.candidates f⟩
    | none => .ok ⟨c.memberTitle name.name, methods.candidates f⟩

/-! ## Choice -/

/-- The declaration and return type of a candidate, if it takes the arguments. -/
def Candidate.take? (args : List Operand) (candidate : Candidate) : Option (Decl × Ty) :=
  match candidate.signature with
  | .ok (params, result) => if acceptsAll params args then some (candidate.decl, result) else none
  | .error _ => none

/-- The first candidate that takes the arguments. If none does, a candidate with faulty types might
have been meant, and those have been reported. -/
def Callee.choose (callee : Callee) (span : Span) (args : List Operand) : Infer (Decl × Ty) :=
  match callee.candidates.findSome? (Candidate.take? args) with
  | some chosen => pure chosen
  | none =>
    if callee.candidates.all fun candidate => candidate.signature.isOk then
      fail span (.noMatchingOverload callee.title (args.map Operand.type))
    else throw ⟨⟩

/-! ## The rule -/

/-- What a call may mean, given how to infer the type of the callee and of what a member is taken
from. -/
def findCallee (callee : Expr) (infer inferTarget : Infer Ty) : Infer Callee := do
  let scope ← read
  match callee with
  | .ident node name => settleBy (scope.calleeNamed (← findings) node.span name.name)
  | .member _ target access name =>
    let receiver ← receiver target access inferTarget
    settleBy (scope.calleeOf (← findings) receiver name)
  | _ =>
    let _ ← attempt infer
    fail callee.span .notCallable

/-- The type of a call: arguments are checked first, and a callee without a meaning is reported also
if they are faulty. -/
def callType (call : Expr) (callee : Expr) (args : List Expr) (infer inferTarget : Infer Ty)
    (inferArgs : Check (List Resolved)) : Infer Ty := do
  let results ← inferArgs
  let found ← attempt (findCallee callee infer inferTarget)
  learn (·.setValid callee.id found.isOk)
  let meaning ← settle found
  let types ← settle (allResolved results)
  let (decl, type) ← meaning.choose call.span (operands args types)
  note (.resolvedCall call decl)
  refer call.id decl
  return type

end ClassLang
