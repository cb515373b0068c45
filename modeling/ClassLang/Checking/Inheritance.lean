import ClassLang.Checking.WrittenTypes

/-!
Superclasses and what a class inherits. A class is examined after its superclass, and each class
once. A class that is reached again while it is examined lies on a cycle; every class on a cycle is
faulty.
-/

namespace ClassLang

/-! ## Declared superclasses -/

/-- The name of a class as written, with or without arguments. -/
def TypeRef.className? : TypeRef → Option String
  | .named _ _ name | .generic _ _ name _ => some name.name
  | _ => none

namespace Program

/-- The class that the extends clause of a class names. -/
def declaredSuperclass? (p : Program) (i : Nat) : Option Nat :=
  ((p.classAt i).superclass.bind TypeRef.className?).bind p.theClass?

/-- Whether extends clauses lead from a class to another within some steps, and at least one. -/
def leadsTo (p : Program) (target : Nat) : Nat → Nat → Bool
  | 0, _ => false
  | steps + 1, i =>
    match p.declaredSuperclass? i with
    | none => false
    | some next => next == target || p.leadsTo target steps next

/-- Whether extends clauses lead from a class back to itself. A cycle is no longer than the list of
classes. -/
def inCycle (p : Program) (i : Nat) : Bool := p.leadsTo i p.classes.length i

/-- The name of the superclass of a class, if its extends clause is in order: it names a class, with
no modifiers, that exists and does not lead back here. -/
def superclassName (p : Program) (i : Nat) (written : TypeRef) : Except CheckError String :=
  let c := p.classAt i
  let notAClass := .error ⟨written.span, .superclassNotAClass c.name.name written.text⟩
  match written.className? with
  | none => notAClass
  | some name =>
    if written.mods ≠ .none || c.params.contains name then notAClass
    else if !p.hasClass name then .error ⟨written.span, .unknownSuperclass c.name.name name⟩
    else if p.inCycle i then .error ⟨c.name.span, .inheritanceCycle c.name.name⟩
    else .ok name

end Program

/-! ## Inherited members -/

/-- The parameter types and return type of a method, if all are sound. -/
def Findings.signature? (f : Findings) (m : Method) : Option (List Ty × Ty) := do
  let params ← m.params.mapM fun param => f.typeOf param.type.id
  return (params, ← f.typeOf m.returnType.id)

/-- Members of one class need different names: fields among each other, and methods other names
than the fields. -/
def Class.memberNameFaults (c : Class) : List CheckError :=
  let fault (name : Ident) : CheckError := ⟨name.span, .memberRedeclared c.name.name name.name⟩
  (repeatedNames (fun field : Field => field.name.name) c.fields).map (fun field => fault field.name) ++
    (c.methods.filter fun m => (c.fieldIndex? m.name.name).isSome).map fun m => fault m.name

/-- The nearest ancestor that hands down a field of a name. -/
def Program.inheritedField? (p : Program) (ancestors : List Ancestor) (name : String) :
    Option Class :=
  (ancestors.map fun ancestor => p.classAt ancestor.index).find? fun c =>
    (c.fields.find? fun field => field.name.name == name).any fun field =>
      field.access != .private

/-- A class declares no field that it inherits. -/
def Program.inheritedFieldFaults (p : Program) (c : Class) (ancestors : List Ancestor) :
    List CheckError :=
  c.fields.filterMap fun field =>
    (p.inheritedField? ancestors field.name.name).map fun ancestor =>
      ⟨field.name.span, .fieldRedeclared c.name.name field.name.name ancestor.name.name⟩

/-- The method that a signature overrides: the nearest method of its name that may be overridden
and has the same parameters, seen from the subclass. It comes with its return type. -/
def Program.overridden? (p : Program) (f : Findings) (ancestors : List Ancestor) (name : String)
    (params : List Ty) : Option (Method × Ty) :=
  ancestors.findSome? fun ancestor =>
    (p.classAt ancestor.index).methods.findSome? fun m => do
      guard (m.name.name == name && m.isOverridable && !m.isStatic)
      let (inherited, result) ← f.signature? m
      guard (inherited.map ancestor.args.apply == params)
      return (m, ancestor.args.apply result)

/-- What is wrong with a method as an override. A method with faulty types is left alone. -/
def Program.overrideFaults (p : Program) (f : Findings) (ancestors : List Ancestor) (m : Method) :
    List CheckError :=
  match f.signature? m with
  | none => []
  | some (params, result) =>
    if !m.isOverload then []
    else match p.overridden? f ancestors m.name.name params with
    | none => [⟨m.name.span, .overrideOfNothing m.name.name⟩]
    | some (base, inherited) =>
      (if base.access = m.access then []
        else [⟨m.name.span, .overrideAccess m.name.name base.access m.access⟩]) ++
      (if inherited = result then []
        else [⟨m.returnType.span, .overrideReturnType m.name.name inherited result⟩])

/-- Whether a method has the place of a virtual one without saying so. -/
def Program.shadowsVirtual (p : Program) (f : Findings) (ancestors : List Ancestor) (m : Method) :
    Bool :=
  !m.isOverload && (f.signature? m).any fun (params, _) =>
    (p.overridden? f ancestors m.name.name params).isSome

/-- Whether a method is compared with inherited ones. -/
def Class.comparesWithInherited (c : Class) (superclassSound : Bool) (m : Method) : Bool :=
  !m.isStatic && superclassSound && c.superclass.isSome

/-- What is wrong with the marks of a method and with what it overrides. -/
def Program.methodFaults (p : Program) (f : Findings) (c : Class) (superclassSound : Bool)
    (ancestors : List Ancestor) (m : Method) : List CheckError :=
  (if m.access = .private && m.isVirtual then [⟨m.name.span, .privateVirtual m.name.name⟩]
    else []) ++
  (if m.isOverload && m.isVirtual then [⟨m.name.span, .overrideAlsoVirtual m.name.name⟩]
    else []) ++
  (if m.isOverload && c.superclass.isNone then
      [⟨m.name.span, .overrideInRootClass c.name.name m.name.name⟩]
    else if c.comparesWithInherited superclassSound m then p.overrideFaults f ancestors m
    else [])

/-- What is wrong with the members of a class. Its ancestors are taken into account if its
superclass is sound. -/
def Program.memberFaults (p : Program) (f : Findings) (i : Nat) (superclassSound : Bool) :
    List CheckError :=
  let c := p.classAt i
  let ancestors := if superclassSound then f.ancestors i else []
  c.memberNameFaults ++ p.inheritedFieldFaults c ancestors ++
    c.methods.flatMap (p.methodFaults f c superclassSound ancestors)

/-- A warning for each method of a class that has the place of a virtual one without saying so. -/
def Program.shadowWarnings (p : Program) (f : Findings) (i : Nat) (superclassSound : Bool) :
    List Warning :=
  let c := p.classAt i
  let ancestors := if superclassSound then f.ancestors i else []
  (c.methods.filter fun m =>
    c.comparesWithInherited superclassSound m && p.shadowsVirtual f ancestors m).map fun m =>
      ⟨m.name.span, .shadowedVirtual c.name.name m.name.name⟩

/-! ## Examination -/

/-- Examines the superclass of a class, given how to examine a class, and links the class to it if
it is sound. -/
def checkSuperclass (examine : Nat → Check Bool) (i : Nat) : Check Bool := do
  let p := (← read).program
  let c := p.classAt i
  match c.superclass with
  | none => return true
  | some written => succeeds do
    let name ← settleBy (p.superclassName i written)
    let type ← withReader (fun scope => { scope with generics := c.params }) written.resolve
    match p.classOf? type with
    | none => throw ⟨⟩
    | some superclass =>
      if !(← examine superclass) then
        fail written.span (.invalidSuperclass c.name.name name)
      learn (·.setSuperclass i ⟨superclass, p.argsOf superclass type⟩)

/-- Examines the members of a class, its own and those it inherits. -/
def checkMembers (i : Nat) (superclassSound : Bool) : Check Bool := do
  let p := (← read).program
  let f ← findings
  (p.shadowWarnings f i superclassSound).forM warn
  reportAll (p.memberFaults f i superclassSound)

/-- Examines a class that has not been examined, given how to examine its superclass. -/
def examineClass (examine : Nat → Check Bool) (i : Nat) : Check Bool := do
  learn (·.setMark i .inProgress)
  let superclassSound ← checkSuperclass examine i
  let membersSound ← checkMembers i superclassSound
  let valid := superclassSound && membersSound
  learn (·.setMark i (.done valid))
  note (.inheritance ((← read).program.classAt i).name.name valid)
  return valid

/-- Examines a class unless that has been done. The classes under examination are all different, so
their number bounds the depth of the recursion. -/
def checkInheritance : Nat → Nat → Check Bool
  | depth, i => do
    match (← findings).mark i with
    | .done valid => return valid
    | .inProgress => return false
    | .unvisited =>
      match depth with
      | 0 => return false
      | depth + 1 => examineClass (checkInheritance depth) i

end ClassLang
