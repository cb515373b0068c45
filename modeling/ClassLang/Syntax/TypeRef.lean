import ClassLang.Syntax.Ink
import ClassLang.Syntax.Modifiers
import ClassLang.Syntax.Node

/-!
Types as written in source, before their names are looked up.
-/

namespace ClassLang

/-- A written type. The argument lists of arrays and keymaps may have any length. -/
inductive TypeRef where
  | primitive (node : Node) (mods : Modifiers) (kind : Primitive)
  | array (node : Node) (mods : Modifiers) (args : List TypeRef)
  | keymap (node : Node) (mods : Modifiers) (args : List TypeRef)
  /-- A class, or a type parameter, without arguments. -/
  | named (node : Node) (mods : Modifiers) (name : Ident)
  | generic (node : Node) (mods : Modifiers) (name : Ident) (args : List TypeRef)
  | void (node : Node) (mods : Modifiers)
deriving Repr, Inhabited

/-- The sorts of written types. -/
inductive TypeCategory where
  | primitive | collection | plainClass | genericClass | void
deriving DecidableEq, Repr

namespace TypeRef

/-- The number and place of the type. -/
def node : TypeRef → Node
  | primitive n .. | array n .. | keymap n .. | named n .. | generic n .. | void n _ => n

/-- The number of the type. -/
def id (t : TypeRef) : Nat := t.node.id

/-- The place of the type. -/
def span (t : TypeRef) : Span := t.node.span

/-- The modifiers in front of the type. -/
def mods : TypeRef → Modifiers
  | primitive _ m _ | array _ m _ | keymap _ m _ | named _ m _ | generic _ m _ _ | void _ m => m

/-- The sort of the type. -/
def category : TypeRef → TypeCategory
  | primitive .. => .primitive
  | array .. | keymap .. => .collection
  | named .. => .plainClass
  | generic .. => .genericClass
  | void .. => .void

/-- The word or name that the type is built on. -/
def baseName : TypeRef → String
  | primitive _ _ kind => kind.spelling
  | array .. => "array"
  | keymap .. => "keymap"
  | named _ _ name | generic _ _ name _ => name.name
  | void .. => "void"

/-- The arguments in brackets. -/
def args : TypeRef → List TypeRef
  | array _ _ args | keymap _ _ args | generic _ _ _ args => args
  | _ => []

/-- Whether the type is `void`. -/
def isVoid : TypeRef → Bool
  | void .. => true
  | _ => false

/-! ## Nodes -/

mutual

/-- The nodes of the type and of its arguments, outermost first. -/
def nodes : TypeRef → List Node
  | array n _ args | keymap n _ args | generic n _ _ args => n :: nodesAll args
  | primitive n .. | named n .. | void n _ => [n]

/-- The nodes of some types in order. -/
def nodesAll : List TypeRef → List Node
  | [] => []
  | t :: rest => t.nodes ++ nodesAll rest

end

mutual

/-- Numbers the nodes anew in the order of `nodes`, from a given number on. The second part of the
result is the next number. -/
def renumber : TypeRef → Nat → TypeRef × Nat
  | primitive n m kind, next => (primitive ⟨next, n.span⟩ m kind, next + 1)
  | named n m name, next => (named ⟨next, n.span⟩ m name, next + 1)
  | void n m, next => (void ⟨next, n.span⟩ m, next + 1)
  | array n m args, next =>
    let (args, after) := renumberAll args (next + 1)
    (array ⟨next, n.span⟩ m args, after)
  | keymap n m args, next =>
    let (args, after) := renumberAll args (next + 1)
    (keymap ⟨next, n.span⟩ m args, after)
  | generic n m name args, next =>
    let (args, after) := renumberAll args (next + 1)
    (generic ⟨next, n.span⟩ m name args, after)

/-- Numbers the nodes of some types anew. -/
def renumberAll : List TypeRef → Nat → List TypeRef × Nat
  | [], next => ([], next)
  | t :: rest, next =>
    let (t, next) := t.renumber next
    let (rest, next) := renumberAll rest next
    (t :: rest, next)

end

/-! ## Equality -/

mutual

/-- Equality up to numbers and places. -/
def same : TypeRef → TypeRef → Bool
  | primitive _ m k, primitive _ m' k' => m == m' && k == k'
  | array _ m as, array _ m' as' => m == m' && sameAll as as'
  | keymap _ m as, keymap _ m' as' => m == m' && sameAll as as'
  | named _ m n, named _ m' n' => m == m' && n.same n'
  | generic _ m n as, generic _ m' n' as' => m == m' && n.same n' && sameAll as as'
  | void _ m, void _ m' => m == m'
  | _, _ => false

/-- Equality of lists up to numbers and places. -/
def sameAll : List TypeRef → List TypeRef → Bool
  | [], [] => true
  | a :: as, b :: bs => a.same b && sameAll as bs
  | _, _ => false

end

/-! ## Printing -/

/-- Modifiers, each with a blank after it. -/
def modifierInk (m : Modifiers) : List Ink :=
  (if m.const then [.word .kwConst, .space] else []) ++
    (if m.reference then [.word .kwReference, .space] else []) ++
    (if m.nullable then [.word .kwNullable, .space] else [])

mutual

/-- The type in printed form. -/
def ink : TypeRef → List Ink
  | primitive _ m kind => modifierInk m ++ [.word (.primitive kind)]
  | array _ m args =>
    modifierInk m ++ .word .kwArray :: Ink.enclosed .openBracket .closeBracket (inkAll args)
  | keymap _ m args =>
    modifierInk m ++ .word .kwKeymap :: Ink.enclosed .openBracket .closeBracket (inkAll args)
  | named _ m name => modifierInk m ++ [.name name.name]
  | generic _ m name args =>
    modifierInk m ++ .name name.name :: Ink.enclosed .openBracket .closeBracket (inkAll args)
  | void _ m => modifierInk m ++ [.word .kwVoid]

/-- Each type in printed form. -/
def inkAll : List TypeRef → List (List Ink)
  | [] => []
  | t :: rest => t.ink :: inkAll rest

end

/-- The text of the type. -/
def text (t : TypeRef) : String := Ink.textOf t.ink

end TypeRef

end ClassLang
