import ClassLang.Proofs.Syntax.Subtrees

/-!
Syntax trees whose places have been changed. Numbers, names and the shape stay, and with them all that
is read off a tree but its places.

* `Program.relocate_relocate`: places that are changed twice are changed once.
-/

namespace ClassLang

variable (f g : Span → Span)

/-! ## Trees -/

def Node.relocate (n : Node) : Node := ⟨n.id, f n.span⟩

def Ident.relocate (name : Ident) : Ident := ⟨name.name, f name.span⟩

namespace TypeRef

mutual

/-- Changes the places in a type. -/
def relocate : TypeRef → TypeRef
  | primitive n m kind => primitive (n.relocate f) m kind
  | array n m args => array (n.relocate f) m (relocateAll args)
  | keymap n m args => keymap (n.relocate f) m (relocateAll args)
  | named n m name => named (n.relocate f) m (name.relocate f)
  | generic n m name args => generic (n.relocate f) m (name.relocate f) (relocateAll args)
  | void n m => void (n.relocate f) m

def relocateAll : List TypeRef → List TypeRef
  | [] => []
  | t :: rest => t.relocate :: relocateAll rest

end

end TypeRef

namespace Expr

mutual

/-- Changes the places in an expression. -/
def relocate : Expr → Expr
  | ident n name => ident (n.relocate f) (name.relocate f)
  | this n => this (n.relocate f)
  | literal n value => literal (n.relocate f) value
  | list n elems => list (n.relocate f) (relocateAll elems)
  | keymap n pairs => keymap (n.relocate f) (relocatePairs pairs)
  | binary n op lhs rhs => binary (n.relocate f) op lhs.relocate rhs.relocate
  | unary n op operand => unary (n.relocate f) op operand.relocate
  | new n type => new (n.relocate f) (type.relocate f)
  | member n target access name =>
    member (n.relocate f) target.relocate access (name.relocate f)
  | index n target i => index (n.relocate f) target.relocate i.relocate
  | call n callee args => call (n.relocate f) callee.relocate (relocateAll args)
  | assign n kind target value => assign (n.relocate f) kind target.relocate value.relocate

def relocateAll : List Expr → List Expr
  | [] => []
  | e :: rest => e.relocate :: relocateAll rest

def relocatePairs : List KeymapPair → List KeymapPair
  | [] => []
  | .mk n key value :: rest =>
    .mk (n.relocate f) key.relocate value.relocate :: relocatePairs rest

end

end Expr

def KeymapPair.relocate : KeymapPair → KeymapPair
  | mk n key value => mk (n.relocate f) (key.relocate f) (value.relocate f)

def Initializer.relocate (i : Initializer) : Initializer := ⟨i.kind, i.value.relocate f⟩

def VarDecl.relocate (d : VarDecl) : VarDecl :=
  ⟨d.type.relocate f, d.name.relocate f, d.init.map (.relocate f)⟩

mutual

/-- Changes the places in a statement. -/
def Statement.relocate : Statement → Statement
  | .varDecl n decl => .varDecl (n.relocate f) (decl.relocate f)
  | .expr n value => .expr (n.relocate f) (value.relocate f)
  | .ifElse n condition thenBlock alternative =>
    .ifElse (n.relocate f) (condition.relocate f) thenBlock.relocate alternative.relocate
  | .while n condition body => .while (n.relocate f) (condition.relocate f) body.relocate
  | .tryCatch n body handler => .tryCatch (n.relocate f) body.relocate handler.relocate
  | .return n value => .return (n.relocate f) (value.map (.relocate f))
  | .break n => .break (n.relocate f)
  | .continue n => .continue (n.relocate f)
  | .block n body => .block (n.relocate f) body.relocate

def Alternative.relocate : Alternative → Alternative
  | .none => .none
  | .block body => .block body.relocate
  | .elseIf condition thenBlock alternative =>
    .elseIf (condition.relocate f) thenBlock.relocate alternative.relocate

def Block.relocate : Block → Block
  | .mk n statements => .mk (n.relocate f) (relocateStatements statements)

def relocateStatements : List Statement → List Statement
  | [] => []
  | s :: rest => s.relocate :: relocateStatements rest

end

def Param.relocate (p : Param) : Param := ⟨p.node.relocate f, p.type.relocate f, p.name.relocate f⟩

def Field.relocate (field : Field) : Field :=
  { field with
    node := field.node.relocate f
    type := field.type.relocate f
    name := field.name.relocate f
    init := field.init.map (.relocate f) }

def Method.relocate (m : Method) : Method :=
  { m with
    node := m.node.relocate f
    returnType := m.returnType.relocate f
    name := m.name.relocate f
    params := m.params.map (.relocate f)
    body := m.body.relocate f }

def Function.relocate (function : Function) : Function :=
  { function with
    node := function.node.relocate f
    returnType := function.returnType.relocate f
    name := function.name.relocate f
    params := function.params.map (.relocate f)
    body := function.body.relocate f
    owner := function.owner.map (.relocate f) }

def Class.relocate (c : Class) : Class where
  node := c.node.relocate f
  name := c.name.relocate f
  generics := c.generics.map (.relocate f)
  superclass := c.superclass.map (.relocate f)
  fields := c.fields.map (.relocate f)
  methods := c.methods.map (.relocate f)

/-- Changes the places in a program. -/
def Program.relocate (p : Program) : Program :=
  ⟨p.classes.map (.relocate f), p.functions.map (.relocate f), p.statements.map (.relocate f),
    p.nodeCount⟩

/-! ## Lists -/

@[simp] theorem TypeRef.relocateAll_eq (ts : List TypeRef) :
    relocateAll f ts = ts.map (relocate f) := by
  induction ts with
  | nil => rfl
  | cons t rest ih => rw [relocateAll, ih, List.map_cons]

@[simp] theorem Expr.relocateAll_eq (es : List Expr) : relocateAll f es = es.map (relocate f) := by
  induction es with
  | nil => rfl
  | cons e rest ih => rw [relocateAll, ih, List.map_cons]

@[simp] theorem Expr.relocatePairs_eq (pairs : List KeymapPair) :
    relocatePairs f pairs = pairs.map (.relocate f) := by
  induction pairs with
  | nil => rfl
  | cons pair rest ih =>
    cases pair
    rw [relocatePairs, ih, List.map_cons, KeymapPair.relocate]

@[simp] theorem relocateStatements_eq (ss : List Statement) :
    relocateStatements f ss = ss.map (.relocate f) := by
  induction ss with
  | nil => rfl
  | cons s rest ih => rw [relocateStatements, ih, List.map_cons]

/-! ## What stays -/

namespace TypeRef

variable (t : TypeRef)

theorem node_relocate : (t.relocate f).node = t.node.relocate f := by cases t <;> rfl

@[simp] theorem id_relocate : (t.relocate f).id = t.id := by
  rw [id, node_relocate]
  rfl

@[simp] theorem span_relocate : (t.relocate f).span = f t.span :=
  congrArg Node.span (t.node_relocate f)

@[simp] theorem mods_relocate : (t.relocate f).mods = t.mods := by cases t <;> rfl

@[simp] theorem isVoid_relocate : (t.relocate f).isVoid = t.isVoid := by cases t <;> rfl

mutual

theorem ink_relocate : ∀ t : TypeRef, (t.relocate f).ink = t.ink
  | primitive .. | named .. | void .. => rfl
  | array n m args => by simp only [relocate, ink, inkAll_relocate args]
  | keymap n m args => by simp only [relocate, ink, inkAll_relocate args]
  | generic n m name args => by simp only [relocate, ink, inkAll_relocate args, Ident.relocate]

theorem inkAll_relocate : ∀ ts : List TypeRef, inkAll (relocateAll f ts) = inkAll ts
  | [] => rfl
  | t :: rest => by simp only [relocateAll, inkAll, ink_relocate t, inkAll_relocate rest]

end

@[simp] theorem text_relocate : (t.relocate f).text = t.text := congrArg Ink.textOf (ink_relocate f t)

mutual

theorem renumber_relocate : ∀ (t : TypeRef) (next : Nat),
    (t.relocate f).renumber next = ((t.renumber next).1.relocate f, (t.renumber next).2)
  | primitive .., _ | named .., _ | void .., _ => rfl
  | array n m args, next => by
    simp only [relocate, renumber, renumberAll_relocate args, Node.relocate]
  | keymap n m args, next => by
    simp only [relocate, renumber, renumberAll_relocate args, Node.relocate]
  | generic n m name args, next => by
    simp only [relocate, renumber, renumberAll_relocate args, Node.relocate]

theorem renumberAll_relocate : ∀ (ts : List TypeRef) (next : Nat),
    renumberAll (relocateAll f ts) next =
      (relocateAll f (renumberAll ts next).1, (renumberAll ts next).2)
  | [], _ => rfl
  | t :: rest, next => by
    simp only [relocateAll, renumberAll, renumber_relocate t, renumberAll_relocate rest]

end

end TypeRef

namespace Expr

variable (e : Expr)

theorem node_relocate : (e.relocate f).node = e.node.relocate f := by cases e <;> rfl

@[simp] theorem id_relocate : (e.relocate f).id = e.id := by
  rw [id, node_relocate]
  rfl

@[simp] theorem span_relocate : (e.relocate f).span = f e.span :=
  congrArg Node.span (e.node_relocate f)

@[simp] theorem isPlace_relocate : (e.relocate f).isPlace = e.isPlace := by cases e <;> rfl

@[simp] theorem isAssignable_relocate : (e.relocate f).isAssignable = e.isAssignable := by
  cases e <;> rfl

mutual

theorem ink_relocate : ∀ e : Expr, (e.relocate f).ink = e.ink
  | ident .. | this .. | literal .. => rfl
  | list n elems => by simp only [relocate, ink, inkAll_relocate elems]
  | keymap n pairs => by simp only [relocate, ink, inkPairs_relocate pairs]
  | binary n op lhs rhs => by simp only [relocate, ink, ink_relocate lhs, ink_relocate rhs]
  | unary n op operand => by simp only [relocate, ink, ink_relocate operand]
  | new n type => by simp only [relocate, ink, type.ink_relocate]
  | member n target access name => by simp only [relocate, ink, ink_relocate target, Ident.relocate]
  | index n target i => by simp only [relocate, ink, ink_relocate target, ink_relocate i]
  | call n callee args => by simp only [relocate, ink, ink_relocate callee, inkAll_relocate args]
  | assign n kind target value => by
    simp only [relocate, ink, ink_relocate target, ink_relocate value]

theorem inkAll_relocate : ∀ es : List Expr, inkAll (relocateAll f es) = inkAll es
  | [] => rfl
  | e :: rest => by simp only [relocateAll, inkAll, ink_relocate e, inkAll_relocate rest]

theorem inkPairs_relocate : ∀ pairs : List KeymapPair,
    inkPairs (relocatePairs f pairs) = inkPairs pairs
  | [] => rfl
  | .mk n key value :: rest => by
    simp only [relocatePairs, inkPairs, ink_relocate key, ink_relocate value, inkPairs_relocate rest]

end

@[simp] theorem text_relocate : (e.relocate f).text = e.text := congrArg Ink.textOf (ink_relocate f e)

mutual

theorem renumber_relocate : ∀ (e : Expr) (next : Nat),
    (e.relocate f).renumber next = ((e.renumber next).1.relocate f, (e.renumber next).2)
  | ident .., _ | this .., _ | literal .., _ => rfl
  | list n elems, next => by
    simp only [relocate, renumber, renumberAll_relocate elems, Node.relocate]
  | keymap n pairs, next => by
    simp only [relocate, renumber, renumberPairs_relocate pairs, Node.relocate]
  | binary n op lhs rhs, next => by
    simp only [relocate, renumber, renumber_relocate lhs, renumber_relocate rhs, Node.relocate]
  | unary n op operand, next => by
    simp only [relocate, renumber, renumber_relocate operand, Node.relocate]
  | new n type, next => by simp only [relocate, renumber, type.renumber_relocate, Node.relocate]
  | member n target access name, next => by
    simp only [relocate, renumber, renumber_relocate target, Node.relocate]
  | index n target i, next => by
    simp only [relocate, renumber, renumber_relocate target, renumber_relocate i, Node.relocate]
  | call n callee args, next => by
    simp only [relocate, renumber, renumber_relocate callee, renumberAll_relocate args,
      Node.relocate]
  | assign n kind target value, next => by
    simp only [relocate, renumber, renumber_relocate target, renumber_relocate value, Node.relocate]

theorem renumberAll_relocate : ∀ (es : List Expr) (next : Nat),
    renumberAll (relocateAll f es) next =
      (relocateAll f (renumberAll es next).1, (renumberAll es next).2)
  | [], _ => rfl
  | e :: rest, next => by
    simp only [relocateAll, renumberAll, renumber_relocate e, renumberAll_relocate rest]

theorem renumberPairs_relocate : ∀ (pairs : List KeymapPair) (next : Nat),
    renumberPairs (relocatePairs f pairs) next =
      (relocatePairs f (renumberPairs pairs next).1, (renumberPairs pairs next).2)
  | [], _ => rfl
  | .mk n key value :: rest, next => by
    simp only [relocatePairs, renumberPairs, renumber_relocate key, renumber_relocate value,
      renumberPairs_relocate rest, Node.relocate]

end

end Expr

namespace Statement

variable (s : Statement)

theorem node_relocate : (s.relocate f).node = s.node.relocate f := by cases s <;> rfl

@[simp] theorem id_relocate : (s.relocate f).id = s.id := by
  rw [id, node_relocate]
  rfl

@[simp] theorem span_relocate : (s.relocate f).span = f s.span :=
  congrArg Node.span (s.node_relocate f)

@[simp] theorem isTerminator_relocate : (s.relocate f).isTerminator = s.isTerminator := by
  cases s <;> rfl

end Statement

mutual

theorem Statement.containsReturn_relocate : ∀ s : Statement,
    (s.relocate f).containsReturn = s.containsReturn
  | .return .. | .varDecl .. | .expr .. | .break _ | .continue _ => rfl
  | .ifElse _ _ thenBlock alternative => by
    simp only [Statement.relocate, Statement.containsReturn, thenBlock.containsReturn_relocate,
      alternative.containsReturn_relocate]
  | .while _ _ body | .block _ body => by
    simp only [Statement.relocate, Statement.containsReturn, body.containsReturn_relocate]
  | .tryCatch _ body handler => by
    simp only [Statement.relocate, Statement.containsReturn, body.containsReturn_relocate,
      handler.containsReturn_relocate]

theorem Alternative.containsReturn_relocate : ∀ a : Alternative,
    (a.relocate f).containsReturn = a.containsReturn
  | .none => rfl
  | .block body => by
    simp only [Alternative.relocate, Alternative.containsReturn, body.containsReturn_relocate]
  | .elseIf _ thenBlock alternative => by
    simp only [Alternative.relocate, Alternative.containsReturn, thenBlock.containsReturn_relocate,
      alternative.containsReturn_relocate]

theorem Block.containsReturn_relocate : ∀ b : Block,
    (b.relocate f).containsReturn = b.containsReturn
  | .mk _ statements => by
    simp only [Block.relocate, Block.containsReturn, anyContainsReturn_relocate statements]

theorem anyContainsReturn_relocate : ∀ ss : List Statement,
    anyContainsReturn (relocateStatements f ss) = anyContainsReturn ss
  | [] => rfl
  | s :: rest => by
    simp only [relocateStatements, anyContainsReturn, s.containsReturn_relocate,
      anyContainsReturn_relocate rest]

end

/-! ## Composition -/

mutual

theorem TypeRef.relocate_relocate : ∀ t : TypeRef, (t.relocate f).relocate g = t.relocate (g ∘ f)
  | .primitive .. | .named .. | .void .. => rfl
  | .array n m args | .keymap n m args | .generic n m name args => by
    simp only [relocate, TypeRef.relocateAll_relocateAll args]
    rfl

theorem TypeRef.relocateAll_relocateAll : ∀ ts : List TypeRef,
    relocateAll g (relocateAll f ts) = relocateAll (g ∘ f) ts
  | [] => rfl
  | t :: rest => by
    simp only [relocateAll, TypeRef.relocate_relocate t, TypeRef.relocateAll_relocateAll rest]

end

mutual

theorem Expr.relocate_relocate : ∀ e : Expr, (e.relocate f).relocate g = e.relocate (g ∘ f)
  | .ident .. | .this .. | .literal .. => rfl
  | .list n elems => by
    simp only [relocate, Expr.relocateAll_relocateAll elems]
    rfl
  | .keymap n pairs => by
    simp only [relocate, Expr.relocatePairs_relocatePairs pairs]
    rfl
  | .new n type => by
    simp only [relocate, type.relocate_relocate]
    rfl
  | .unary n _ e | .member n e _ _ => by
    simp only [relocate, Expr.relocate_relocate e]
    rfl
  | .binary n _ a b | .index n a b | .assign n _ a b => by
    simp only [relocate, Expr.relocate_relocate a, Expr.relocate_relocate b]
    rfl
  | .call n callee args => by
    simp only [relocate, Expr.relocate_relocate callee, Expr.relocateAll_relocateAll args]
    rfl

theorem Expr.relocateAll_relocateAll : ∀ es : List Expr,
    relocateAll g (relocateAll f es) = relocateAll (g ∘ f) es
  | [] => rfl
  | e :: rest => by
    simp only [relocateAll, Expr.relocate_relocate e, Expr.relocateAll_relocateAll rest]

theorem Expr.relocatePairs_relocatePairs : ∀ pairs : List KeymapPair,
    relocatePairs g (relocatePairs f pairs) = relocatePairs (g ∘ f) pairs
  | [] => rfl
  | .mk n key value :: rest => by
    simp only [relocatePairs, Expr.relocate_relocate key, Expr.relocate_relocate value,
      Expr.relocatePairs_relocatePairs rest]
    rfl

end

/-- What comes of changing each part twice comes of changing it once. -/
theorem comp_of_relocate {α : Type} {move : (Span → Span) → α → α}
    (twice : ∀ a, move g (move f a) = move (g ∘ f) a) : move g ∘ move f = move (g ∘ f) :=
  funext twice

theorem Initializer.relocate_relocate (i : Initializer) :
    (i.relocate f).relocate g = i.relocate (g ∘ f) := by
  simp only [relocate, Expr.relocate_relocate]

theorem VarDecl.relocate_relocate (d : VarDecl) :
    (d.relocate f).relocate g = d.relocate (g ∘ f) := by
  simp only [relocate, TypeRef.relocate_relocate, Option.map_map,
    comp_of_relocate f g (Initializer.relocate_relocate f g)]
  rfl

mutual

theorem Statement.relocate_relocate : ∀ s : Statement,
    (s.relocate f).relocate g = s.relocate (g ∘ f)
  | .break _ | .continue _ => rfl
  | .varDecl n decl => by
    simp only [Statement.relocate, decl.relocate_relocate]
    rfl
  | .expr n value => by
    simp only [Statement.relocate, value.relocate_relocate]
    rfl
  | .ifElse n condition thenBlock alternative => by
    simp only [Statement.relocate, condition.relocate_relocate, thenBlock.relocate_relocate,
      alternative.relocate_relocate]
    rfl
  | .while n condition body => by
    simp only [Statement.relocate, condition.relocate_relocate, body.relocate_relocate]
    rfl
  | .tryCatch n body handler => by
    simp only [Statement.relocate, body.relocate_relocate, handler.relocate_relocate]
    rfl
  | .return n value => by
    simp only [Statement.relocate, Option.map_map,
      comp_of_relocate f g (Expr.relocate_relocate f g)]
    rfl
  | .block n body => by
    simp only [Statement.relocate, body.relocate_relocate]
    rfl

theorem Alternative.relocate_relocate : ∀ a : Alternative,
    (a.relocate f).relocate g = a.relocate (g ∘ f)
  | .none => rfl
  | .block body => by simp only [Alternative.relocate, body.relocate_relocate]
  | .elseIf condition thenBlock alternative => by
    simp only [Alternative.relocate, condition.relocate_relocate, thenBlock.relocate_relocate,
      alternative.relocate_relocate]

theorem Block.relocate_relocate : ∀ b : Block, (b.relocate f).relocate g = b.relocate (g ∘ f)
  | .mk n statements => by
    simp only [Block.relocate, relocateStatements_relocateStatements statements]
    rfl

theorem relocateStatements_relocateStatements : ∀ ss : List Statement,
    relocateStatements g (relocateStatements f ss) = relocateStatements (g ∘ f) ss
  | [] => rfl
  | s :: rest => by
    simp only [relocateStatements, s.relocate_relocate, relocateStatements_relocateStatements rest]

end

theorem Param.relocate_relocate (p : Param) : (p.relocate f).relocate g = p.relocate (g ∘ f) := by
  simp only [relocate, TypeRef.relocate_relocate]
  rfl

theorem Field.relocate_relocate (field : Field) :
    (field.relocate f).relocate g = field.relocate (g ∘ f) := by
  simp only [relocate, TypeRef.relocate_relocate, Option.map_map,
    comp_of_relocate f g (Initializer.relocate_relocate f g)]
  rfl

theorem Method.relocate_relocate (m : Method) :
    (m.relocate f).relocate g = m.relocate (g ∘ f) := by
  simp only [relocate, TypeRef.relocate_relocate, Block.relocate_relocate, List.map_map,
    comp_of_relocate f g (Param.relocate_relocate f g)]
  rfl

theorem Function.relocate_relocate (function : Function) :
    (function.relocate f).relocate g = function.relocate (g ∘ f) := by
  simp only [relocate, TypeRef.relocate_relocate, Block.relocate_relocate, List.map_map,
    Option.map_map, comp_of_relocate f g (Param.relocate_relocate f g)]
  rfl

theorem Class.relocate_relocate (c : Class) : (c.relocate f).relocate g = c.relocate (g ∘ f) := by
  simp only [relocate, List.map_map, Option.map_map,
    comp_of_relocate f g (TypeRef.relocate_relocate f g),
    comp_of_relocate f g (Field.relocate_relocate f g),
    comp_of_relocate f g (Method.relocate_relocate f g)]
  rfl

theorem Program.relocate_relocate (p : Program) :
    (p.relocate f).relocate g = p.relocate (g ∘ f) := by
  simp only [relocate, List.map_map, comp_of_relocate f g (Class.relocate_relocate f g),
    comp_of_relocate f g (Function.relocate_relocate f g),
    comp_of_relocate f g (Statement.relocate_relocate f g)]

/-! ## Places that stay -/

mutual

theorem type_relocate_id : ∀ t : TypeRef, t.relocate id = t
  | .primitive .. | .named .. | .void .. => rfl
  | .array n m args | .keymap n m args | .generic n m name args => by
    simp only [TypeRef.relocate, types_relocateAll_id args]
    rfl

theorem types_relocateAll_id : ∀ ts : List TypeRef, TypeRef.relocateAll id ts = ts
  | [] => rfl
  | t :: rest => by rw [TypeRef.relocateAll, type_relocate_id t, types_relocateAll_id rest]

end

mutual

theorem expr_relocate_id : ∀ e : Expr, e.relocate id = e
  | .ident .. | .this .. | .literal .. => rfl
  | .list n elems => by
    simp only [Expr.relocate, exprs_relocateAll_id elems]
    rfl
  | .keymap n pairs => by
    simp only [Expr.relocate, pairs_relocatePairs_id pairs]
    rfl
  | .new n type => by
    simp only [Expr.relocate, type_relocate_id type]
    rfl
  | .unary n _ e | .member n e _ _ => by
    simp only [Expr.relocate, expr_relocate_id e]
    rfl
  | .binary n _ a b | .index n a b | .assign n _ a b => by
    simp only [Expr.relocate, expr_relocate_id a, expr_relocate_id b]
    rfl
  | .call n callee args => by
    simp only [Expr.relocate, expr_relocate_id callee, exprs_relocateAll_id args]
    rfl

theorem exprs_relocateAll_id : ∀ es : List Expr, Expr.relocateAll id es = es
  | [] => rfl
  | e :: rest => by rw [Expr.relocateAll, expr_relocate_id e, exprs_relocateAll_id rest]

theorem pairs_relocatePairs_id : ∀ pairs : List KeymapPair,
    Expr.relocatePairs id pairs = pairs
  | [] => rfl
  | .mk n key value :: rest => by
    rw [Expr.relocatePairs, expr_relocate_id key, expr_relocate_id value, pairs_relocatePairs_id rest]
    rfl

end

/-! ## Subtrees -/

def Subtree.relocate : Subtree → Subtree
  | expr e => expr (e.relocate f)
  | type t => type (t.relocate f)
  | pair both => pair (both.relocate f)
  | head n => head (n.relocate f)

theorem Subtree.node_relocate (x : Subtree) : (x.relocate f).node = x.node.relocate f := by
  cases x with
  | expr e => exact e.node_relocate f
  | type t => exact t.node_relocate f
  | pair both =>
    cases both
    rfl
  | head n => rfl

section Subtrees

variable (f : Span → Span)

mutual

theorem TypeRef.subtrees_relocate : ∀ t : TypeRef,
    (t.relocate f).subtrees = t.subtrees.map (.relocate f)
  | .primitive .. | .named .. | .void .. => rfl
  | .array n m args | .keymap n m args | .generic n m name args => by
    simp only [relocate, subtrees, TypeRef.subtreesAll_relocateAll args, List.map_cons,
      Subtree.relocate]

theorem TypeRef.subtreesAll_relocateAll : ∀ ts : List TypeRef,
    subtreesAll (relocateAll f ts) = (subtreesAll ts).map (.relocate f)
  | [] => rfl
  | t :: rest => by
    simp only [relocateAll, subtreesAll, TypeRef.subtrees_relocate t,
      TypeRef.subtreesAll_relocateAll rest, List.map_append]

end

mutual

theorem Expr.subtrees_relocate : ∀ e : Expr, (e.relocate f).subtrees = e.subtrees.map (.relocate f)
  | .ident .. | .this .. | .literal .. => rfl
  | .list n elems => by
    simp only [relocate, subtrees, Expr.subtreesAll_relocateAll elems, List.map_cons,
      Subtree.relocate]
  | .keymap n pairs => by
    simp only [relocate, subtrees, Expr.subtreesPairs_relocatePairs pairs, List.map_cons,
      Subtree.relocate]
  | .new n type => by
    simp only [relocate, subtrees, type.subtrees_relocate, List.map_cons, Subtree.relocate]
  | .unary n _ e | .member n e _ _ => by
    simp only [relocate, subtrees, Expr.subtrees_relocate e, List.map_cons, Subtree.relocate]
  | .binary n _ a b | .index n a b | .assign n _ a b => by
    simp only [relocate, subtrees, Expr.subtrees_relocate a, Expr.subtrees_relocate b,
      List.map_cons, List.map_append, Subtree.relocate]
  | .call n callee args => by
    simp only [relocate, subtrees, Expr.subtrees_relocate callee,
      Expr.subtreesAll_relocateAll args, List.map_cons, List.map_append, Subtree.relocate]

theorem Expr.subtreesAll_relocateAll : ∀ es : List Expr,
    subtreesAll (relocateAll f es) = (subtreesAll es).map (.relocate f)
  | [] => rfl
  | e :: rest => by
    simp only [relocateAll, subtreesAll, Expr.subtrees_relocate e,
      Expr.subtreesAll_relocateAll rest, List.map_append]

theorem Expr.subtreesPairs_relocatePairs : ∀ pairs : List KeymapPair,
    subtreesPairs (relocatePairs f pairs) = (subtreesPairs pairs).map (.relocate f)
  | [] => rfl
  | .mk n key value :: rest => by
    simp only [relocatePairs, subtreesPairs, Expr.subtrees_relocate key,
      Expr.subtrees_relocate value, Expr.subtreesPairs_relocatePairs rest, List.map_cons,
      List.map_append, Subtree.relocate, KeymapPair.relocate]

end

theorem initializerSubtrees_relocate (init : Option Initializer) :
    initializerSubtrees (init.map (.relocate f)) = (initializerSubtrees init).map (.relocate f) := by
  cases init with
  | none => rfl
  | some init => exact init.value.subtrees_relocate f

theorem VarDecl.subtrees_relocate (d : VarDecl) :
    (d.relocate f).subtrees = d.subtrees.map (.relocate f) := by
  simp only [relocate, subtrees, TypeRef.subtrees_relocate, initializerSubtrees_relocate,
    List.map_append]

mutual

theorem Statement.subtrees_relocate : ∀ s : Statement,
    (s.relocate f).subtrees = s.subtrees.map (.relocate f)
  | .break _ | .continue _ | .return _ none => rfl
  | .varDecl n decl => by
    simp only [Statement.relocate, Statement.subtrees, decl.subtrees_relocate, List.map_cons,
      Subtree.relocate]
  | .expr n value => by
    simp only [Statement.relocate, Statement.subtrees, value.subtrees_relocate, List.map_cons,
      Subtree.relocate]
  | .ifElse n condition thenBlock alternative => by
    simp only [Statement.relocate, Statement.subtrees, condition.subtrees_relocate,
      thenBlock.subtrees_relocate, alternative.subtrees_relocate, List.map_cons, List.map_append,
      Subtree.relocate]
  | .while n condition body => by
    simp only [Statement.relocate, Statement.subtrees, condition.subtrees_relocate,
      body.subtrees_relocate, List.map_cons, List.map_append, Subtree.relocate]
  | .tryCatch n body handler => by
    simp only [Statement.relocate, Statement.subtrees, body.subtrees_relocate,
      handler.subtrees_relocate, List.map_cons, List.map_append, Subtree.relocate]
  | .return n (some value) => by
    simp only [Statement.relocate, Statement.subtrees, Option.map_some, Option.elim_some,
      value.subtrees_relocate, List.map_cons, Subtree.relocate]
  | .block n body => by
    simp only [Statement.relocate, Statement.subtrees, body.subtrees_relocate, List.map_cons,
      Subtree.relocate]

theorem Alternative.subtrees_relocate : ∀ a : Alternative,
    (a.relocate f).subtrees = a.subtrees.map (.relocate f)
  | .none => rfl
  | .block body => by
    simp only [Alternative.relocate, Alternative.subtrees, body.subtrees_relocate]
  | .elseIf condition thenBlock alternative => by
    simp only [Alternative.relocate, Alternative.subtrees, condition.subtrees_relocate,
      thenBlock.subtrees_relocate, alternative.subtrees_relocate, List.map_append]

theorem Block.subtrees_relocate : ∀ b : Block,
    (b.relocate f).subtrees = b.subtrees.map (.relocate f)
  | .mk n statements => by
    simp only [Block.relocate, Block.subtrees, statementSubtrees_relocate statements, List.map_cons,
      Subtree.relocate]

theorem statementSubtrees_relocate : ∀ ss : List Statement,
    statementSubtrees (relocateStatements f ss) = (statementSubtrees ss).map (.relocate f)
  | [] => rfl
  | s :: rest => by
    simp only [relocateStatements, statementSubtrees, s.subtrees_relocate,
      statementSubtrees_relocate rest, List.map_append]

end

theorem paramSubtrees_relocate (params : List Param) :
    (params.map (Param.relocate f)).flatMap Param.subtrees =
      (params.flatMap Param.subtrees).map (.relocate f) := by
  simp only [List.flatMap_map, List.map_flatMap, Param.subtrees, Param.relocate, List.map_cons,
    TypeRef.subtrees_relocate, Subtree.relocate]

theorem Field.subtrees_relocate (field : Field) :
    (field.relocate f).subtrees = field.subtrees.map (.relocate f) := by
  simp only [relocate, subtrees, TypeRef.subtrees_relocate, initializerSubtrees_relocate,
    List.map_cons, List.map_append, Subtree.relocate]

theorem Method.subtrees_relocate (m : Method) :
    (m.relocate f).subtrees = m.subtrees.map (.relocate f) := by
  simp only [relocate, subtrees, TypeRef.subtrees_relocate, Block.subtrees_relocate,
    paramSubtrees_relocate, List.map_cons, List.map_append, Subtree.relocate]

theorem Function.subtrees_relocate (function : Function) :
    (function.relocate f).subtrees = function.subtrees.map (.relocate f) := by
  simp only [relocate, subtrees, TypeRef.subtrees_relocate, Block.subtrees_relocate,
    paramSubtrees_relocate, List.map_cons, List.map_append, Subtree.relocate]

theorem Class.subtrees_relocate (c : Class) :
    (c.relocate f).subtrees = c.subtrees.map (.relocate f) := by
  have superclass : (c.superclass.map (.relocate f)).elim [] TypeRef.subtrees =
      (c.superclass.elim [] TypeRef.subtrees).map (.relocate f) := by
    cases c.superclass with
    | none => rfl
    | some type => exact type.subtrees_relocate f
  simp only [relocate, subtrees, superclass, List.flatMap_map, List.map_flatMap,
    Field.subtrees_relocate, Method.subtrees_relocate, List.map_cons, List.map_append,
    Subtree.relocate]

theorem Program.subtrees_relocate (p : Program) :
    (p.relocate f).subtrees = p.subtrees.map (.relocate f) := by
  have statements := statementSubtrees_relocate f p.statements
  rw [relocateStatements_eq] at statements
  simp only [relocate, subtrees, statements, List.flatMap_map, List.map_flatMap,
    Class.subtrees_relocate, Function.subtrees_relocate, List.map_append]

theorem Program.nodes_relocate (p : Program) : (p.relocate f).nodes = p.nodes.map (.relocate f) := by
  rw [← subtrees_nodes, ← subtrees_nodes, subtrees_relocate, List.map_map, List.map_map]
  exact List.map_congr_left fun x _ => x.node_relocate f

theorem Program.distinct_relocate {p : Program} (distinct : Distinct p.nodes) :
    Distinct (p.relocate f).nodes := by
  unfold Distinct
  rw [p.nodes_relocate f, List.map_map]
  exact distinct

end Subtrees

end ClassLang
