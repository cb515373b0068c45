import ClassLang.Checking.Declaration

/-!
What a run tells about its progress.
-/

namespace ClassLang

/-- How closely a reader must follow a run to see an event. -/
inductive Detail where
  | info | debug | trace
deriving DecidableEq, Repr

/-- A step of a run. -/
inductive Event where
  | parsed (classes functions statements : Nat)
  | resolvingSignatures
  | validatingInheritance
  | validatingOverloads
  | checkingBodies
  | inheritance (className : String) (valid : Bool)
  | classBody (name : String)
  | functionBody (name : String)
  | resolvedCall (call : Expr) (decl : Decl)
  | resolvedOperator (operator : Operator) (name : String)
  | finished (errors : Nat) (valid : Bool)
  | countedUnused (count : Nat)
deriving Repr

/-- Who sees the event. -/
def Event.detail : Event → Detail
  | finished .. => .info
  | parsed .. | resolvingSignatures | validatingInheritance | validatingOverloads | checkingBodies
  | countedUnused _ => .debug
  | inheritance .. | classBody _ | functionBody _ | resolvedCall .. | resolvedOperator .. => .trace

end ClassLang
