import ClassLang.Checking.Event
import ClassLang.Checking.Fault
import ClassLang.Checking.Findings

/-!
Checks: actions that see the surroundings of a piece of a program, add to what has been found out,
and report what is wrong. An inference is a check whose result may be missing, and then the reason
has been reported.
-/

namespace ClassLang

/-! ## Surroundings and state -/

/-- Which warnings are wanted. -/
structure Settings where
  warnUnused : Bool
  warnUnreachable : Bool
deriving DecidableEq, Repr

/-- The surroundings of a piece of a program. -/
structure Scope where
  program : Program
  settings : Settings
  env : Environment
  inLoop : Bool
  /-- The return type of the function around, if there is one. -/
  returnType : Option Resolved
  /-- The class around. -/
  selfClass : Option Nat
  /-- Whether there is an instance of the class around. -/
  isInstance : Bool
  /-- The type parameters that may be named. -/
  generics : List String

namespace Scope

/-- The surroundings of the statements of a program. -/
def top (program : Program) (settings : Settings) : Scope :=
  ⟨program, settings, .empty, false, none, none, false, []⟩

/-- Inside a class, with or without an instance of it. -/
def inClass (scope : Scope) (owner : Nat) (isInstance : Bool) : Scope :=
  { scope with
    selfClass := some owner
    isInstance
    generics := (scope.program.classAt owner).params }

/-- Inside the body of a function. -/
def inBody (scope : Scope) (params : Environment) (returnType : Resolved) : Scope :=
  { scope with env := params, returnType := some returnType }

/-- With one more variable. -/
def bind (scope : Scope) (name : String) (type : Resolved) : Scope :=
  { scope with env := scope.env.insert name type }

/-- Whether code here may use a member of a class. -/
def mayUse (scope : Scope) (findings : Findings) (owner : Nat) : Access → Bool
  | .public => true
  | .private => scope.selfClass == some owner
  | .protected => scope.selfClass.any fun here =>
    (findings.chain here).any fun ancestor => ancestor.index == owner

end Scope

/-- What has been found out and reported so far. -/
structure CheckState where
  findings : Findings
  errors : List CheckError
  warnings : List Warning
  events : List Event
deriving Repr, Inhabited

/-- Nothing found out and nothing reported. -/
def CheckState.empty : CheckState := ⟨.empty, [], [], []⟩

/-- An action of the checker. -/
abbrev Check := ReaderT Scope (StateM CheckState)

/-- An action of the checker whose result may be missing. -/
abbrev Infer := ExceptT Reported Check

/-! ## Findings -/

/-- What has been found out so far. -/
def findings : Check Findings := return (← get).findings

/-- Adds to what has been found out. -/
def learn (f : Findings → Findings) : Check Unit :=
  modify fun s => { s with findings := f s.findings }

/-- Sets the verdict on a node and gives the verdict that counts. -/
def judge (id : Nat) (valid : Bool) : Check Bool := do
  learn (·.setValid id valid)
  return (← findings).validity id == some true

/-! ## Reports -/

/-- Reports an error. -/
def report (error : CheckError) : Check Unit :=
  modify fun s => { s with errors := s.errors ++ [error] }

/-- Reports errors and says whether there are none. -/
def reportAll (errors : List CheckError) : Check Bool := do
  modify fun s => { s with errors := s.errors ++ errors }
  return errors.isEmpty

/-- Reports a warning. -/
def warn (warning : Warning) : Check Unit :=
  modify fun s => { s with warnings := s.warnings ++ [warning] }

/-- Notes a step of the run. -/
def note (event : Event) : Check Unit :=
  modify fun s => { s with events := s.events ++ [event] }

/-! ## Inferences -/

/-- A result that is at hand. -/
def settle (result : Except Reported α) : Infer α := ExceptT.mk (pure result)

/-- Reports an error in place of a result. -/
def fail (span : Span) (cause : CheckCause) : Infer α := do
  report ⟨span, cause⟩
  throw ⟨⟩

/-- A result by rule: if the rule finds an error, it is reported. -/
def settleBy (result : Except CheckError α) : Infer α :=
  match result with
  | .ok value => pure value
  | .error e => fail e.span e.cause

/-- Runs an inference and says whether it has a result. -/
def succeeds (inference : Infer α) : Check Bool := return (← inference.run).isOk

/-- Runs an inference and goes on whether it has a result or not. -/
def attempt (inference : Infer α) : Infer (Except Reported α) := ExceptT.lift inference.run

/-- Records the result of an inference for a node. -/
def recorded (id : Nat) (inference : Infer Ty) : Infer Ty := do
  let result ← attempt inference
  learn (·.record id result)
  settle result

/-- The result for a node: the one recorded, or that of an inference, which is then recorded. -/
def remembered (id : Nat) (inference : Infer Ty) : Infer Ty := do
  match (← findings).cached id with
  | some result => settle result
  | none => recorded id inference

/-- All results, unless one is missing. -/
def allResolved (results : List Resolved) : Except Reported (List Ty) := results.mapM id

end ClassLang
