import ClassLang.Checking.Check

/-!
Overload sets: the functions, or the methods of a class, that share a name. No two of them have the
same signature, modifiers included.
-/

namespace ClassLang

/-- A declaration in an overload set. -/
structure OverloadMember where
  decl : Decl
  /-- The parameter types, if all are sound. -/
  signature : Option (List Ty)
  span : Span
deriving Repr

/-- Declarations that share a name, and the name as it is shown. -/
structure OverloadSet where
  title : String
  members : List OverloadMember
deriving Repr

/-! ## Sets -/

/-- The parameter types of a declaration, if all are sound. -/
def Findings.paramTypes? (f : Findings) (params : List Param) : Option (List Ty) :=
  params.mapM fun param => f.typeOf param.type.id

/-- The name under which a function is shown: an operator by its symbol. -/
def Function.title (function : Function) : String :=
  match function.operator with
  | some operator => operatorTitle operator
  | none => function.name.name

/-- The name under which a member of a class is shown. -/
def Class.memberTitle (c : Class) (name : String) : String := c.name.name ++ "." ++ name

/-- The overload sets of the functions. -/
def Program.functionSets (p : Program) (f : Findings) : List OverloadSet :=
  p.functionGroups.map fun (name, indices) =>
    ⟨(indices.head?.map fun i => (p.functionAt i).title).getD name,
      indices.map fun i =>
        let function := p.functionAt i
        ⟨.function i, f.paramTypes? function.params, function.name.span⟩⟩

/-- The overload sets of the methods of a class. -/
def Program.methodSets (p : Program) (f : Findings) (owner : Nat) : List OverloadSet :=
  let c := p.classAt owner
  (c.methods.map fun m => m.name.name).eraseDups.map fun name =>
    ⟨c.memberTitle name,
      (c.methods.zipIdx.filter fun m => m.1.name.name == name).map fun m =>
        ⟨.method owner m.2, f.paramTypes? m.1.params, m.1.name.span⟩⟩

/-! ## Rules -/

/-- What is wrong with a set: each member whose signature an earlier member has, by signature. -/
def OverloadSet.faults (set : OverloadSet) : List CheckError :=
  (set.members.filterMap OverloadMember.signature).eraseDups.flatMap fun signature =>
    ((set.members.filter fun m => m.signature == some signature).drop 1).map fun m =>
      ⟨m.span, .duplicateOverload set.title signature⟩

/-- What is wrong with the marks of a static method: it is public, and never overrides or is
overridden. -/
def Method.staticFaults (m : Method) : List CheckError :=
  if m.isStatic then
    (if m.access = .public then [] else [⟨m.name.span, .staticMethodNotPublic m.name.name⟩]) ++
    (if m.isVirtual then [⟨m.name.span, .staticMethodVirtual m.name.name⟩] else []) ++
    (if m.isOverload then [⟨m.name.span, .staticMethodOverride m.name.name⟩] else [])
  else []

/-- Numbers the members of a set. -/
def OverloadSet.number (set : OverloadSet) (f : Findings) : Findings :=
  set.members.zipIdx.foldl (fun f m => f.setOverloadIndex m.1.decl m.2) f

/-! ## Checks -/

/-- Numbers the members of some sets and says whether they all differ. -/
def checkSets (sets : List OverloadSet) : Check Bool := do
  learn fun f => sets.foldl (fun f set => set.number f) f
  reportAll (sets.flatMap OverloadSet.faults)

/-- Checks the overload sets of the functions. -/
def checkFunctionSets : Check Bool := do
  checkSets ((← read).program.functionSets (← findings))

/-- Checks the methods of a class: the static ones, and the overload sets. -/
def checkMethodSets (owner : Nat) : Check Bool := do
  let p := (← read).program
  let staticsSound ← reportAll ((p.classAt owner).methods.flatMap Method.staticFaults)
  let setsSound ← checkSets (p.methodSets (← findings) owner)
  return staticsSound && setsSound

end ClassLang
