import ClassLang.Types.Promotion
import ClassLang.Types.Ty

/-!
When a value of one type may be stored in a place of another.

* `Ty.assignable_refl`: a place takes values of its own type.
-/

namespace ClassLang

namespace Ty

mutual

/-- Whether a value of the first type may be stored in a place of the second.

Null needs a nullable place, and an undefined value any place that is no alias. Otherwise the
outer modifiers must fit and the bases agree: scalars up to widening, classes by name, and the
parts of collections and generic classes one by one. -/
def assignable : Ty → Ty → Bool
  | null m, target => target == null m || target.isNullable
  | undefined m, target => target == undefined m || !target.isReference
  | primitive m s, primitive n t => m.fits n && s.widensTo t
  | array m s, array n t => m.fits n && assignable s t
  | keymap m sk sv, keymap n tk tv => m.fits n && assignable sk tk && assignable sv tv
  | plainClass m s, plainClass n t => m.fits n && s == t
  | genericClass m s as, genericClass n t bs => m.fits n && s == t && assignableAll as bs
  | param m s, param n t => m.fits n && s == t
  | void m, void n => m.fits n
  | _, _ => false

/-- Whether the values of a list of types may be stored in places of another, one by one. -/
def assignableAll : List Ty → List Ty → Bool
  | [], [] => true
  | a :: as, b :: bs => assignable a b && assignableAll as bs
  | _, _ => false

end

mutual

theorem assignable_refl : ∀ t : Ty, assignable t t = true
  | null m => by simp [assignable]
  | undefined m => by simp [assignable]
  | primitive m k => by simp [assignable, Modifiers.fits_refl, Primitive.widensTo_refl]
  | array m e => by simp [assignable, Modifiers.fits_refl, assignable_refl e]
  | keymap m k v => by simp [assignable, Modifiers.fits_refl, assignable_refl k, assignable_refl v]
  | plainClass m n => by simp [assignable, Modifiers.fits_refl]
  | genericClass m n as => by simp [assignable, Modifiers.fits_refl, assignableAll_refl as]
  | param m n => by simp [assignable, Modifiers.fits_refl]
  | void m => by simp [assignable, Modifiers.fits_refl]

theorem assignableAll_refl : ∀ ts : List Ty, assignableAll ts ts = true
  | [] => by simp [assignableAll]
  | t :: ts => by simp [assignableAll, assignable_refl t, assignableAll_refl ts]

end

/-- Whether an argument may be passed for a parameter. A reference parameter binds a place as an
alias and takes other arguments only if they are aliases already; a value parameter gets a copy. -/
def accepts (param arg : Ty) (isPlace : Bool) : Bool :=
  if param.isReference then assignable (if isPlace then arg.asReference else arg) param
  else assignable arg.decay param

end Ty

end ClassLang
