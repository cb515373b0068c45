import ClassLang.Checking.Fault
import ClassLang.Types.Assign

/-!
Types of literals, and the common type of the elements of a collection.
-/

namespace ClassLang

/-- The narrowest of the wider whole types that holds a number. -/
def integerKind (value : Nat) : Primitive :=
  if value < twoTo 31 then .integer else if value < twoTo 63 then .long else .extended

/-- The type of a literal. -/
def Literal.type : Literal → Ty
  | .int value => .primitive .none (integerKind value)
  | .float _ => .primitive .none .float
  | .imaginary _ => .primitive .none .complex
  | .string _ => .primitive .none .string
  | .char _ => .primitive .none .char
  | .bytes _ => .primitive .none .bytes
  | .bool _ => .boolean
  | .null => .null .none
  | .undefined => .undefined .none

/-- The scalar type that two equally nullable scalar types share, modifiers included. -/
def Ty.widened? (a b : Ty) : Option Ty := do
  guard (b.mods = a.mods)
  return .primitive a.mods (← (← a.primitive?).common (← b.primitive?))

/-- The common type of some elements, beginning with the type of those before. Scalar types widen;
any other element has to fit what came before. -/
def unifyFrom : Ty → List (Ty × Span) → Except CheckError Ty
  | common, [] => .ok common
  | common, (type, span) :: rest =>
    match common.widened? type.decay with
    | some wider => unifyFrom wider rest
    | none =>
      if type.decay.assignable common then unifyFrom common rest
      else .error ⟨span, .mismatchedType common type.decay (some .element)⟩

/-- The common type of the elements of a collection. Without elements it is undefined. -/
def unify : List (Ty × Span) → Except CheckError Ty
  | [] => .ok (.undefined .none)
  | (type, _) :: rest => unifyFrom type.decay rest

end ClassLang
