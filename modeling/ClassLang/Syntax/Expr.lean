import ClassLang.Syntax.TypeRef

/-!
Expressions. A comparison chain and a compound assignment are already taken apart here; the parts
that they share stand in the tree twice, with nodes of their own.
-/

namespace ClassLang

/-- How an assignment stores: into the place, or by making the place an alias. -/
inductive AssignKind where
  | value | reference
deriving DecidableEq, Repr, Inhabited

/-- The mark of an assignment. -/
def AssignKind.punct : AssignKind → Punct
  | value => .colonEq
  | reference => .eq

/-- How a member is reached. -/
inductive MemberAccess where
  | dot | arrow
deriving DecidableEq, Repr

/-- The mark of a member access. -/
def MemberAccess.punct : MemberAccess → Punct
  | dot => .dot
  | arrow => .arrow

mutual

/-- An expression. -/
inductive Expr where
  | ident (node : Node) (name : Ident)
  | this (node : Node)
  | literal (node : Node) (value : Literal)
  | list (node : Node) (elems : List Expr)
  | keymap (node : Node) (pairs : List KeymapPair)
  | binary (node : Node) (op : BinaryOp) (lhs rhs : Expr)
  | unary (node : Node) (op : UnaryOp) (operand : Expr)
  /-- Allocates a value of a type. -/
  | new (node : Node) (type : TypeRef)
  | member (node : Node) (target : Expr) (access : MemberAccess) (name : Ident)
  | index (node : Node) (target index : Expr)
  | call (node : Node) (callee : Expr) (args : List Expr)
  | assign (node : Node) (kind : AssignKind) (target value : Expr)

/-- A key with its value. -/
inductive KeymapPair where
  | mk (node : Node) (key value : Expr)

end

deriving instance Repr for Expr, KeymapPair

instance : Inhabited Expr := ⟨.this default⟩

namespace KeymapPair

/-- The number and place of the pair. -/
def node : KeymapPair → Node
  | mk n .. => n

/-- The key of the pair. -/
def key : KeymapPair → Expr
  | mk _ key _ => key

/-- The value of the pair. -/
def value : KeymapPair → Expr
  | mk _ _ value => value

end KeymapPair

namespace Expr

/-- The number and place of the expression. -/
def node : Expr → Node
  | ident n _ | this n | literal n _ | list n _ | keymap n _ | binary n .. | unary n .. | new n _
  | member n .. | index n .. | call n .. | assign n .. => n

/-- The number of the expression. -/
def id (e : Expr) : Nat := e.node.id

/-- The place of the expression. -/
def span (e : Expr) : Span := e.node.span

/-- Whether the expression denotes storage. -/
def isPlace : Expr → Bool
  | ident .. | this _ | member .. | index .. => true
  | _ => false

/-- Whether the expression may stand to the left of an assignment. -/
def isAssignable : Expr → Bool
  | ident .. | member .. | index .. => true
  | _ => false

/-- Whether the expression is an assignment. -/
def isAssignment : Expr → Bool
  | assign .. => true
  | _ => false

/-! ## Nodes -/

mutual

/-- The nodes of the expression and of what is below it, types included, outermost first. -/
def nodes : Expr → List Node
  | ident n _ | this n | literal n _ => [n]
  | list n elems => n :: nodesAll elems
  | keymap n pairs => n :: nodesPairs pairs
  | binary n _ lhs rhs => n :: (lhs.nodes ++ rhs.nodes)
  | unary n _ operand => n :: operand.nodes
  | new n type => n :: type.nodes
  | member n target _ _ => n :: target.nodes
  | index n target i => n :: (target.nodes ++ i.nodes)
  | call n callee args => n :: (callee.nodes ++ nodesAll args)
  | assign n _ target value => n :: (target.nodes ++ value.nodes)

/-- The nodes of some expressions in order. -/
def nodesAll : List Expr → List Node
  | [] => []
  | e :: rest => e.nodes ++ nodesAll rest

/-- The nodes of some pairs in order, a pair before its key. -/
def nodesPairs : List KeymapPair → List Node
  | [] => []
  | .mk n key value :: rest => n :: (key.nodes ++ value.nodes) ++ nodesPairs rest

end

mutual

/-- Numbers the nodes anew in the order of `nodes`, from a given number on. The second part of the
result is the next number. -/
def renumber : Expr → Nat → Expr × Nat
  | ident n name, next => (ident ⟨next, n.span⟩ name, next + 1)
  | this n, next => (this ⟨next, n.span⟩, next + 1)
  | literal n value, next => (literal ⟨next, n.span⟩ value, next + 1)
  | list n elems, next =>
    let (elems, after) := renumberAll elems (next + 1)
    (list ⟨next, n.span⟩ elems, after)
  | keymap n pairs, next =>
    let (pairs, after) := renumberPairs pairs (next + 1)
    (keymap ⟨next, n.span⟩ pairs, after)
  | binary n op lhs rhs, next =>
    let (lhs, middle) := lhs.renumber (next + 1)
    let (rhs, after) := rhs.renumber middle
    (binary ⟨next, n.span⟩ op lhs rhs, after)
  | unary n op operand, next =>
    let (operand, after) := operand.renumber (next + 1)
    (unary ⟨next, n.span⟩ op operand, after)
  | new n type, next =>
    let (type, after) := type.renumber (next + 1)
    (new ⟨next, n.span⟩ type, after)
  | member n target access name, next =>
    let (target, after) := target.renumber (next + 1)
    (member ⟨next, n.span⟩ target access name, after)
  | index n target i, next =>
    let (target, middle) := target.renumber (next + 1)
    let (i, after) := i.renumber middle
    (index ⟨next, n.span⟩ target i, after)
  | call n callee args, next =>
    let (callee, middle) := callee.renumber (next + 1)
    let (args, after) := renumberAll args middle
    (call ⟨next, n.span⟩ callee args, after)
  | assign n kind target value, next =>
    let (target, middle) := target.renumber (next + 1)
    let (value, after) := value.renumber middle
    (assign ⟨next, n.span⟩ kind target value, after)

/-- Numbers the nodes of some expressions anew. -/
def renumberAll : List Expr → Nat → List Expr × Nat
  | [], next => ([], next)
  | e :: rest, next =>
    let (e, next) := e.renumber next
    let (rest, next) := renumberAll rest next
    (e :: rest, next)

/-- Numbers the nodes of some pairs anew. -/
def renumberPairs : List KeymapPair → Nat → List KeymapPair × Nat
  | [], next => ([], next)
  | .mk n key value :: rest, next =>
    let (key, middle) := key.renumber (next + 1)
    let (value, after) := value.renumber middle
    let (rest, last) := renumberPairs rest after
    (.mk ⟨next, n.span⟩ key value :: rest, last)

end

/-! ## Equality -/

mutual

/-- Equality up to numbers and places. -/
def same : Expr → Expr → Bool
  | ident _ a, ident _ b => a.same b
  | this _, this _ => true
  | literal _ a, literal _ b => a == b
  | list _ as, list _ bs => sameAll as bs
  | keymap _ as, keymap _ bs => samePairs as bs
  | binary _ op a b, binary _ op' a' b' => op == op' && a.same a' && b.same b'
  | unary _ op a, unary _ op' a' => op == op' && a.same a'
  | new _ t, new _ t' => t.same t'
  | member _ a access n, member _ a' access' n' => a.same a' && access == access' && n.same n'
  | index _ a i, index _ a' i' => a.same a' && i.same i'
  | call _ f as, call _ f' as' => f.same f' && sameAll as as'
  | assign _ k a v, assign _ k' a' v' => k == k' && a.same a' && v.same v'
  | _, _ => false

/-- Equality of lists up to numbers and places. -/
def sameAll : List Expr → List Expr → Bool
  | [], [] => true
  | a :: as, b :: bs => a.same b && sameAll as bs
  | _, _ => false

/-- Equality of lists of pairs up to numbers and places. -/
def samePairs : List KeymapPair → List KeymapPair → Bool
  | [], [] => true
  | .mk _ k v :: as, .mk _ k' v' :: bs => k.same k' && v.same v' && samePairs as bs
  | _, _ => false

end

/-! ## Printing -/

mutual

/-- The expression in printed form. Every binary, unary and allocating expression stands in
parentheses, so the form parses back. -/
def ink : Expr → List Ink
  | ident _ name => [.name name.name]
  | this _ => [.word .kwThis]
  | literal _ value => [.token value.token]
  | list _ elems => Ink.enclosed .openBracket .closeBracket (inkAll elems)
  | keymap _ pairs => Ink.enclosed .openBrace .closeBrace (inkPairs pairs)
  | binary _ op lhs rhs =>
    .mark .openParen :: lhs.ink ++ .space :: .token op.token :: .space :: rhs.ink ++
      [.mark .closeParen]
  | unary _ op operand =>
    .mark .openParen :: .token op.token :: (if op.isWord then [.space] else []) ++ operand.ink ++
      [.mark .closeParen]
  | new _ type => .mark .openParen :: .word .kwNew :: .space :: type.ink ++ [.mark .closeParen]
  | member _ target access name => target.ink ++ [.mark access.punct, .name name.name]
  | index _ target i => target.ink ++ .mark .openBracket :: i.ink ++ [.mark .closeBracket]
  | call _ callee args => callee.ink ++ Ink.enclosed .openParen .closeParen (inkAll args)
  | assign _ kind target value =>
    target.ink ++ .space :: .mark kind.punct :: .space :: value.ink

/-- Each expression in printed form. -/
def inkAll : List Expr → List (List Ink)
  | [] => []
  | e :: rest => e.ink :: inkAll rest

/-- Each pair in printed form. -/
def inkPairs : List KeymapPair → List (List Ink)
  | [] => []
  | .mk _ key value :: rest => (key.ink ++ .mark .colon :: .space :: value.ink) :: inkPairs rest

end

/-- The text of the expression. -/
def text (e : Expr) : String := Ink.textOf e.ink

end Expr

end ClassLang
