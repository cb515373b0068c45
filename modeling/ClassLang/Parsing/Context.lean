/-!
The syntactic positions that a construct can stand in. Several hold at once.
-/

namespace ClassLang

/-- A set of positions. -/
structure Context where
  inGlobal : Bool
  inLocal : Bool
  inClass : Bool
  inFunction : Bool
  inLoop : Bool
  inIf : Bool
  inTry : Bool
  /-- Inside another expression. -/
  inExpression : Bool
deriving DecidableEq, Repr

namespace Context

/-- No position. -/
def none : Context := ⟨false, false, false, false, false, false, false, false⟩

/-- The level of the program. -/
def global : Context := { none with inGlobal := true }

/-- The body of a function or method. -/
def functionBody : Context := { none with inLocal := true, inFunction := true }

/-- The inside of a class. -/
def classBody : Context := { none with inClass := true }

/-- Combines two sets position by position. -/
def combine (f : Bool → Bool → Bool) (a b : Context) : Context :=
  ⟨f a.inGlobal b.inGlobal, f a.inLocal b.inLocal, f a.inClass b.inClass,
    f a.inFunction b.inFunction, f a.inLoop b.inLoop, f a.inIf b.inIf, f a.inTry b.inTry,
    f a.inExpression b.inExpression⟩

/-- The positions of either set. -/
def union (a b : Context) : Context := combine or a b

/-- The positions of the first set that are not in the second. -/
def without (a b : Context) : Context := combine (fun x y => x && !y) a b

/-- Whether all positions of the second set are in the first. -/
def contains (a b : Context) : Bool := b.without a == none

/-- Whether a position is in both sets. -/
def intersects (a b : Context) : Bool := combine and a b != none

/-- The context of a block inside another: no longer at the level of the program. -/
def nested (outer extra : Context) : Context :=
  { outer with inGlobal := false, inLocal := true }.union extra

theorem contains_refl (a : Context) : a.contains a = true := by
  simp [contains, without, combine, none]

theorem contains_union_left (a b : Context) : (a.union b).contains a = true := by
  simp [contains, without, combine, union, none]
  grind

end Context

end ClassLang
