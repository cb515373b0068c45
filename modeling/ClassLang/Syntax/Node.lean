import ClassLang.Source

/-!
What every node of a syntax tree carries beside its content: a number of its own and its place.
Two trees count as equal when they differ in these at most.
-/

namespace ClassLang

/-- The number and the place of a node. -/
structure Node where
  id : Nat
  span : Span
deriving DecidableEq, Repr, Inhabited

/-- A name as written at a place. Names are compared by their text. -/
structure Ident where
  name : String
  span : Span
deriving DecidableEq, Repr, Inhabited

/-- Whether two names have the same text. -/
def Ident.same (a b : Ident) : Bool := a.name == b.name

/-- Whether two lists agree item by item. -/
def sameBy (same : α → α → Bool) : List α → List α → Bool
  | [], [] => true
  | a :: as, b :: bs => same a b && sameBy same as bs
  | _, _ => false

/-- Whether two optional values agree. -/
def sameOption (same : α → α → Bool) : Option α → Option α → Bool
  | none, none => true
  | some a, some b => same a b
  | _, _ => false

end ClassLang
