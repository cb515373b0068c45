import ClassLang.Syntax.Modifiers
import ClassLang.Syntax.Primitive

/-!
Resolved types. Equality is structural, modifiers included.

* `Ty.instDecidableEq`: equality of types can be decided, also under nested argument lists.
-/

namespace ClassLang

/-- A type after its names have been looked up. -/
inductive Ty where
  | primitive (mods : Modifiers) (kind : Primitive)
  | array (mods : Modifiers) (elem : Ty)
  | keymap (mods : Modifiers) (key value : Ty)
  /-- A class without type parameters. -/
  | plainClass (mods : Modifiers) (name : String)
  /-- A class with arguments for its type parameters. -/
  | genericClass (mods : Modifiers) (name : String) (args : List Ty)
  /-- A type parameter of the class around it. -/
  | param (mods : Modifiers) (name : String)
  /-- The type of the literal `null`. -/
  | null (mods : Modifiers)
  /-- The type of the literal `undefined`. -/
  | undefined (mods : Modifiers)
  | void (mods : Modifiers)
deriving Repr, Inhabited

namespace Ty

/-! ## Equality -/

mutual

/-- Whether two types are the same. -/
def same : Ty → Ty → Bool
  | primitive m k, primitive m' k' => m == m' && k == k'
  | array m e, array m' e' => m == m' && same e e'
  | keymap m k v, keymap m' k' v' => m == m' && same k k' && same v v'
  | plainClass m n, plainClass m' n' => m == m' && n == n'
  | genericClass m n as, genericClass m' n' as' => m == m' && n == n' && sameAll as as'
  | param m n, param m' n' => m == m' && n == n'
  | null m, null m' => m == m'
  | undefined m, undefined m' => m == m'
  | void m, void m' => m == m'
  | _, _ => false

/-- Whether two lists of types are the same. -/
def sameAll : List Ty → List Ty → Bool
  | [], [] => true
  | a :: as, b :: bs => same a b && sameAll as bs
  | _, _ => false

end

mutual

theorem same_iff : ∀ a b : Ty, same a b = true ↔ a = b
  | primitive m k, b => by cases b <;> simp [same]
  | array m e, b => by cases b <;> simp [same, same_iff e]
  | keymap m k v, b => by cases b <;> simp [same, same_iff k, same_iff v, and_assoc]
  | plainClass m n, b => by cases b <;> simp [same]
  | genericClass m n as, b => by cases b <;> simp [same, sameAll_iff as, and_assoc]
  | param m n, b => by cases b <;> simp [same]
  | null m, b => by cases b <;> simp [same]
  | undefined m, b => by cases b <;> simp [same]
  | void m, b => by cases b <;> simp [same]

theorem sameAll_iff : ∀ as bs : List Ty, sameAll as bs = true ↔ as = bs
  | [], bs => by cases bs <;> simp [sameAll]
  | a :: as, bs => by cases bs <;> simp [sameAll, same_iff a, sameAll_iff as]

end

instance instDecidableEq : DecidableEq Ty := fun a b =>
  decidable_of_iff (same a b = true) (same_iff a b)

/-! ## Modifiers -/

/-- The outermost modifiers. -/
def mods : Ty → Modifiers
  | primitive m _ | array m _ | keymap m _ _ | plainClass m _ | genericClass m _ _ | param m _
  | null m | undefined m | void m => m

/-- The same type with other outermost modifiers. -/
def withMods (m : Modifiers) : Ty → Ty
  | primitive _ k => primitive m k
  | array _ e => array m e
  | keymap _ k v => keymap m k v
  | plainClass _ n => plainClass m n
  | genericClass _ n as => genericClass m n as
  | param _ n => param m n
  | null _ => null m
  | undefined _ => undefined m
  | void _ => void m

@[simp] theorem mods_withMods (m : Modifiers) (t : Ty) : (t.withMods m).mods = m := by
  cases t <;> rfl

@[simp] theorem withMods_mods (t : Ty) : t.withMods t.mods = t := by cases t <;> rfl

@[simp] theorem withMods_withMods (m n : Modifiers) (t : Ty) :
    (t.withMods m).withMods n = t.withMods n := by cases t <;> rfl

/-- Read-only. -/
def isConst (t : Ty) : Bool := t.mods.const

/-- An alias of a place. -/
def isReference (t : Ty) : Bool := t.mods.reference

/-- May hold null. -/
def isNullable (t : Ty) : Bool := t.mods.nullable

/-- The type of a fresh copy. -/
def decay (t : Ty) : Ty := t.withMods t.mods.decay

/-- The type seen through an alias. -/
def asReference (t : Ty) : Ty := t.withMods t.mods.asReference

/-- The type as part of something read-only, if `readOnly` is set. -/
def constIf (readOnly : Bool) (t : Ty) : Ty :=
  t.withMods { t.mods with const := t.mods.const || readOnly }

/-! ## Kinds -/

/-- The truth values. -/
def boolean : Ty := primitive .none .boolean

/-- The scalar type behind the modifiers, if the type is scalar. -/
def primitive? : Ty → Option Primitive
  | primitive _ kind => some kind
  | _ => none

/-- Truth values, whatever the modifiers. -/
def isBoolean (t : Ty) : Bool := t.primitive? == some .boolean

/-- An array or a keymap. -/
def isCollection : Ty → Bool
  | array .. | keymap .. => true
  | _ => false

/-- No value. -/
def isVoid : Ty → Bool
  | void _ => true
  | _ => false

/-- The class of a class type. -/
def className? : Ty → Option String
  | plainClass _ name | genericClass _ name _ => some name
  | _ => none

/-- The arguments of a class type. -/
def classArgs : Ty → List Ty
  | genericClass _ _ args => args
  | _ => []

mutual

/-- Whether no type parameter occurs. -/
def isConcrete : Ty → Bool
  | param .. => false
  | array _ elem => elem.isConcrete
  | keymap _ key value => key.isConcrete && value.isConcrete
  | genericClass _ _ args => allConcrete args
  | _ => true

/-- Whether no type parameter occurs in any of the types. -/
def allConcrete : List Ty → Bool
  | [] => true
  | t :: rest => t.isConcrete && allConcrete rest

end

theorem allConcrete_eq (args : List Ty) : allConcrete args = args.all isConcrete := by
  induction args with
  | nil => rfl
  | cons t rest ih => simp [allConcrete, ih]

/-! ## Text -/

mutual

/-- The type as written in source. -/
def text : Ty → String
  | primitive m kind => m.text ++ kind.spelling
  | array m elem => m.text ++ "array[" ++ elem.text ++ "]"
  | keymap m key value => m.text ++ "keymap[" ++ key.text ++ ", " ++ value.text ++ "]"
  | plainClass m name | param m name => m.text ++ name
  | genericClass m name args => m.text ++ name ++ "[" ++ String.intercalate ", " (texts args) ++ "]"
  | null m => m.text ++ "null"
  | undefined m => m.text ++ "undefined"
  | void m => m.text ++ "void"

/-- Each type as written in source. -/
def texts : List Ty → List String
  | [] => []
  | t :: rest => t.text :: texts rest

end

theorem texts_eq (ts : List Ty) : texts ts = ts.map text := by
  induction ts with
  | nil => rfl
  | cons t rest ih => simp [texts, ih]

/-- A list of types as written in a signature. -/
def listText (ts : List Ty) : String := String.intercalate ", " (ts.map text)

end Ty

end ClassLang
