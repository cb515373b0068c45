import ClassLang.Checking.Check

/-!
Fields by name, and what stands in front of a member.
-/

namespace ClassLang

/-! ## Fields -/

/-- A field, the class that declares it, and its type as seen from where it was looked up. -/
structure FoundField where
  owner : Nat
  index : Nat
  field : Field
  type : Resolved

namespace FoundField

/-- The declaration of the field. -/
def decl (found : FoundField) : Decl := .field found.owner found.index

end FoundField

/-- The field of a name in a class or the nearest of its ancestors that has one. -/
def Program.findField? (p : Program) (f : Findings) (owner : Nat) (name : String)
    (receiver : Substitution) : Option FoundField :=
  (f.chain owner).findSome? fun ancestor => do
    let c := p.classAt ancestor.index
    let index ← c.fieldIndex? name
    let field ← c.fields[index]?
    let type ← f.cached field.type.id
    return ⟨ancestor.index, index, field, type.map (ancestor.args.andThen receiver).apply⟩

/-- The field that a bare name denotes in the class around. -/
def Scope.ownField? (scope : Scope) (f : Findings) (name : String) : Option FoundField := do
  scope.program.findField? f (← scope.selfClass) name .empty

/-- Checks that a member may be used here. -/
def Scope.checkAccess (scope : Scope) (f : Findings) (span : Span) (owner : Nat) (access : Access)
    (name : String) : Except CheckError Unit :=
  if scope.mayUse f owner access then .ok ()
  else .error ⟨span, .inaccessibleMember (scope.program.classAt owner).name.name name access⟩

/-- Checks that a member that needs an instance has one. -/
def checkInstance (span : Span) (name : String) (isStatic hasInstance : Bool) :
    Except CheckError Unit :=
  if isStatic || hasInstance then .ok () else .error ⟨span, .instanceMemberInStaticCode name⟩

/-- Counts the use of a declaration by a node. -/
def refer (id : Nat) (decl : Decl) : Check Unit :=
  learn fun f => (f.use decl).setResolution id decl

/-- Uses a field and gives its type. -/
def useField (id : Nat) (found : FoundField) : Infer Ty := do
  refer id found.decl
  settle found.type

/-! ## Names -/

/-- A bare name is a variable, or else a field of the class around. -/
def nameType (node : Node) (name : String) : Infer Ty := do
  let scope ← read
  let f ← findings
  match scope.env.get? name, scope.ownField? f name with
  | some bound, _ => settle bound
  | none, some found =>
    settleBy do
      scope.checkAccess f node.span found.owner found.field.access name
      checkInstance node.span name found.field.isStatic scope.isInstance
    useField node.id found
  | none, none =>
    fail node.span (if scope.program.hasClass name then .classAsValue name
      else .unknownVariable name)

/-! ## Receivers -/

/-- What a member is taken from. -/
inductive Receiver where
  /-- A class, by its name. -/
  | static (owner : Nat)
  /-- A value of a class type. -/
  | instance (owner : Nat) (args : Substitution) (mods : Modifiers)

namespace Receiver

/-- The class that is searched. -/
def owner : Receiver → Nat
  | static owner | «instance» owner .. => owner

/-- What stands for the type parameters of the class. -/
def args : Receiver → Substitution
  | static _ => .empty
  | «instance» _ args _ => args

/-- Whether there is an instance. -/
def hasInstance : Receiver → Bool
  | static _ => false
  | «instance» .. => true

/-- Whether the members are read-only. -/
def isConst : Receiver → Bool
  | static _ => false
  | «instance» _ _ mods => mods.const

end Receiver

/-- The class that an expression names: a bare name that is neither a variable nor a field. -/
def Scope.namedClass? (scope : Scope) (f : Findings) : Expr → Option Nat
  | .ident _ name =>
    if scope.env.contains name.name || (scope.ownField? f name.name).isSome then none
    else scope.program.theClass? name.name
  | _ => none

/-- The class of a value that members are taken from. -/
def Scope.instanceReceiver (scope : Scope) (target : Expr) (access : MemberAccess) (type : Ty) :
    Except CheckError Receiver :=
  if access = .arrow && !type.isReference then .error ⟨target.span, .arrowWithoutReference type⟩
  else match scope.program.classOf? type with
    | some owner => .ok (.instance owner (scope.program.argsOf owner type) type.mods)
    | none => .error ⟨target.span, .memberOfNonClass type⟩

/-- What a member is taken from, given how to infer the type of the expression there. -/
def receiver (target : Expr) (access : MemberAccess) (infer : Infer Ty) : Infer Receiver := do
  let scope ← read
  match scope.namedClass? (← findings) target with
  | some owner =>
    learn (·.record target.id (.ok (scope.program.typeWithin owner)))
    refer target.id (.class owner)
    return .static owner
  | none => settleBy (scope.instanceReceiver target access (← infer))

/-! ## Member access -/

/-- The field of a name that a receiver offers here. -/
def Scope.memberOf (scope : Scope) (f : Findings) (receiver : Receiver) (name : Ident) :
    Except CheckError FoundField := do
  let p := scope.program
  match p.findField? f receiver.owner name.name receiver.args with
  | none =>
    .error ⟨name.span, .unknownMember (p.classAt receiver.owner).name.name name.name⟩
  | some found =>
    scope.checkAccess f name.span found.owner found.field.access name.name
    checkInstance name.span name.name found.field.isStatic receiver.hasInstance
    return found

/-- The type of a member: read-only if its object is. -/
def memberType (node : Node) (name : Ident) (receiver : Infer Receiver) : Infer Ty := do
  let receiver ← receiver
  let found ← settleBy ((← read).memberOf (← findings) receiver name)
  return (← useField node.id found).constIf receiver.isConst

end ClassLang
