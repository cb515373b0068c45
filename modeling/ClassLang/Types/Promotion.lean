import ClassLang.Syntax.Primitive

/-!
The order in which scalar types widen: the whole numbers up to `extended`, the floating numbers up
to `complex`, and every whole number below `extended` into the floating numbers.

* `Primitive.common_comm`, `Primitive.common_isSome_iff`: two types have a common one, in either
  order, exactly if there is one that both widen to.
* `Primitive.widensTo_refl`, `Primitive.widensTo_trans`, `Primitive.widensTo_antisymm`: widening
  is a partial order.
-/

namespace ClassLang

namespace Primitive

/-- The height of a numeric type in its own family. -/
def rank : Primitive → Nat
  | byte | float => 0
  | short | double => 1
  | integer | complex => 2
  | long => 3
  | extended => 4
  | _ => 0

/-- The wider of two types that mix. -/
def common (a b : Primitive) : Option Primitive :=
  if a = b then some a
  else if !(a.isNumeric && b.isNumeric) then none
  else if a.isIntegral == b.isIntegral then some (if b.rank ≤ a.rank then a else b)
  else if a = extended || b = extended then none
  else some (if a.isFloating then a else b)

/-- Whether every value of one type has a place in the other. -/
def widensTo (source target : Primitive) : Bool := common source target = some target

/-- The type of a quotient, which is always a floating one. -/
def division (a b : Primitive) : Option Primitive := do
  common (← common a b) float

theorem common_comm (a b : Primitive) : common a b = common b a := by
  cases a <;> cases b <;> rfl

theorem widensTo_refl (a : Primitive) : widensTo a a = true := by cases a <;> rfl

theorem widensTo_antisymm {a b : Primitive} (hab : widensTo a b = true)
    (hba : widensTo b a = true) : a = b := by
  revert hab hba; cases a <;> cases b <;> decide

theorem widensTo_trans {a b c : Primitive} (hab : widensTo a b = true)
    (hbc : widensTo b c = true) : widensTo a c = true := by
  have table : ∀ a ∈ all, ∀ b ∈ all, ∀ c ∈ all,
      widensTo a b = true → widensTo b c = true → widensTo a c = true := by decide +kernel
  exact table a a.mem_all b b.mem_all c c.mem_all hab hbc

theorem common_isSome_iff {a b : Primitive} :
    (common a b).isSome = true ↔ ∃ c ∈ all, widensTo a c = true ∧ widensTo b c = true := by
  have table : ∀ a ∈ all, ∀ b ∈ all, (common a b).isSome = true ↔
      ∃ c ∈ all, widensTo a c = true ∧ widensTo b c = true := by decide +kernel
  exact table a a.mem_all b b.mem_all

end Primitive

end ClassLang
