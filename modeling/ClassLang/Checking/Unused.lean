import ClassLang.Checking.Check

/-!
Declarations that nothing uses: functions, classes, and methods that are not overridable. A call may
reach an overridable method through a subclass.
-/

namespace ClassLang

namespace Program

/-- The warning about an unused function. -/
def unusedFunctionWarning (p : Program) (i : Nat) : Warning :=
  let function := p.functionAt i
  match function.operator with
  | some operator => ⟨function.name.span, .unusedOperator operator⟩
  | none => ⟨function.name.span, .unusedFunction function.name.name⟩

/-- The unused functions, each with the warning about it. -/
def unusedFunctions (p : Program) (f : Findings) : List (Decl × Warning) :=
  (p.functionIndices.filter fun i => f.usage (.function i) == 0).map fun i =>
    (.function i, p.unusedFunctionWarning i)

/-- The unused methods of a class, each with the warning about it. -/
def unusedMethods (p : Program) (f : Findings) (owner : Nat) : List (Decl × Warning) :=
  let c := p.classAt owner
  (c.methods.zipIdx.filter fun m =>
    !m.1.isOverridable && f.usage (.method owner m.2) == 0).map fun m =>
      (.method owner m.2, ⟨m.1.name.span, .unusedMethod c.name.name m.1.name.name⟩)

/-- A class, if it is unused, and its unused methods. -/
def unusedInClass (p : Program) (f : Findings) (i : Nat) : List (Decl × Warning) :=
  let c := p.classAt i
  (if f.usage (.class i) = 0 then [(.class i, ⟨c.name.span, .unusedClass c.name.name⟩)] else []) ++
    p.unusedMethods f i

/-- Everything unused, each with the warning about it: functions, then class by class. -/
def unused (p : Program) (f : Findings) : List (Decl × Warning) :=
  p.unusedFunctions f ++ p.classIndices.flatMap (p.unusedInClass f)

end Program

end ClassLang
