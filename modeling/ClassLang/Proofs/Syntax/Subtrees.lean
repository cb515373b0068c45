import ClassLang.Proofs.Syntax.Nodes

/-!
What stands at the nodes of a program: expressions, written types, pairs of keymap literals, and the
heads of declarations, statements and blocks.
-/

namespace ClassLang

inductive Subtree where
  | expr (e : Expr)
  | type (t : TypeRef)
  | pair (both : KeymapPair)
  | head (n : Node)

namespace Subtree

def node : Subtree → Node
  | expr e => e.node
  | type t => t.node
  | pair both => both.node
  | head n => n

def id (x : Subtree) : Nat := x.node.id

def expr? : Subtree → Option Expr
  | expr e => some e
  | _ => none

def type? : Subtree → Option TypeRef
  | type t => some t
  | _ => none

end Subtree

/-! ## Types and expressions -/

mutual

def TypeRef.subtrees : TypeRef → List Subtree
  | .primitive n m kind => [.type (.primitive n m kind)]
  | .named n m name => [.type (.named n m name)]
  | .void n m => [.type (.void n m)]
  | .array n m args => .type (.array n m args) :: subtreesAll args
  | .keymap n m args => .type (.keymap n m args) :: subtreesAll args
  | .generic n m name args => .type (.generic n m name args) :: subtreesAll args

def TypeRef.subtreesAll : List TypeRef → List Subtree
  | [] => []
  | t :: rest => t.subtrees ++ subtreesAll rest

end

mutual

def Expr.subtrees : Expr → List Subtree
  | .ident n name => [.expr (.ident n name)]
  | .this n => [.expr (.this n)]
  | .literal n value => [.expr (.literal n value)]
  | .list n elems => .expr (.list n elems) :: subtreesAll elems
  | .keymap n pairs => .expr (.keymap n pairs) :: subtreesPairs pairs
  | .binary n op lhs rhs => .expr (.binary n op lhs rhs) :: (lhs.subtrees ++ rhs.subtrees)
  | .unary n op operand => .expr (.unary n op operand) :: operand.subtrees
  | .new n type => .expr (.new n type) :: type.subtrees
  | .member n target access name => .expr (.member n target access name) :: target.subtrees
  | .index n target i => .expr (.index n target i) :: (target.subtrees ++ i.subtrees)
  | .call n callee args => .expr (.call n callee args) :: (callee.subtrees ++ subtreesAll args)
  | .assign n kind target value =>
    .expr (.assign n kind target value) :: (target.subtrees ++ value.subtrees)

def Expr.subtreesAll : List Expr → List Subtree
  | [] => []
  | e :: rest => e.subtrees ++ subtreesAll rest

def Expr.subtreesPairs : List KeymapPair → List Subtree
  | [] => []
  | .mk n key value :: rest =>
    .pair (.mk n key value) :: (key.subtrees ++ value.subtrees) ++ subtreesPairs rest

end

namespace TypeRef

mutual

theorem subtrees_nodes : ∀ t : TypeRef, t.subtrees.map Subtree.node = t.nodes
  | .primitive .. | .named .. | .void .. => rfl
  | .array n _ args | .keymap n _ args | .generic n _ _ args =>
    congrArg (n :: ·) (subtreesAll_nodes args)

theorem subtreesAll_nodes : ∀ ts : List TypeRef, (subtreesAll ts).map Subtree.node = nodesAll ts
  | [] => rfl
  | t :: rest => by
    rw [subtreesAll, nodesAll, List.map_append, subtrees_nodes t, subtreesAll_nodes rest]

end

theorem subtree_mem_subtrees (t : TypeRef) : .type t ∈ t.subtrees := by
  cases t <;> simp [subtrees]

theorem subtreesAll_eq (ts : List TypeRef) : subtreesAll ts = ts.flatMap subtrees := by
  induction ts with
  | nil => rfl
  | cons t rest ih => rw [subtreesAll, ih, List.flatMap_cons]

mutual

theorem subtrees_types {x : Subtree} : ∀ t : TypeRef, x ∈ t.subtrees → ∃ t', x = .type t'
  | .primitive .., listed | .named .., listed | .void .., listed =>
    ⟨_, List.mem_singleton.1 listed⟩
  | .array _ _ args, listed | .keymap _ _ args, listed | .generic _ _ _ args, listed => by
    rcases List.mem_cons.1 listed with rfl | inside
    · exact ⟨_, rfl⟩
    · exact subtreesAll_types args inside

theorem subtreesAll_types {x : Subtree} :
    ∀ ts : List TypeRef, x ∈ subtreesAll ts → ∃ t', x = .type t'
  | t :: rest, listed => by
    rcases List.mem_append.1 listed with inside | inside
    · exact subtrees_types t inside
    · exact subtreesAll_types rest inside

end

theorem expr_not_mem_subtrees {e : Expr} (t : TypeRef) : .expr e ∉ t.subtrees := by
  intro listed
  obtain ⟨_, same⟩ := t.subtrees_types listed
  cases same

end TypeRef

namespace Expr

mutual

theorem subtrees_nodes : ∀ e : Expr, e.subtrees.map Subtree.node = e.nodes
  | .ident .. | .this _ | .literal .. => rfl
  | .list n elems => congrArg (n :: ·) (subtreesAll_nodes elems)
  | .keymap n pairs => congrArg (n :: ·) (subtreesPairs_nodes pairs)
  | .unary n _ operand => congrArg (n :: ·) (subtrees_nodes operand)
  | .new n type => congrArg (n :: ·) type.subtrees_nodes
  | .member n target _ _ => congrArg (n :: ·) (subtrees_nodes target)
  | .binary n _ lhs rhs | .index n lhs rhs | .assign n _ lhs rhs => by
    simp only [subtrees, nodes, List.map_cons, List.map_append, subtrees_nodes lhs, subtrees_nodes rhs]
    rfl
  | .call n callee args => by
    simp only [subtrees, nodes, List.map_cons, List.map_append, subtrees_nodes callee,
      subtreesAll_nodes args]
    rfl

theorem subtreesAll_nodes : ∀ es : List Expr, (subtreesAll es).map Subtree.node = nodesAll es
  | [] => rfl
  | e :: rest => by
    rw [subtreesAll, nodesAll, List.map_append, subtrees_nodes e, subtreesAll_nodes rest]

theorem subtreesPairs_nodes : ∀ pairs : List KeymapPair,
    (subtreesPairs pairs).map Subtree.node = nodesPairs pairs
  | [] => rfl
  | .mk n key value :: rest => by
    simp only [subtreesPairs, nodesPairs, List.map_append, List.map_cons, subtrees_nodes key,
      subtrees_nodes value, subtreesPairs_nodes rest]
    rfl

end

theorem subtree_mem_subtrees (e : Expr) : .expr e ∈ e.subtrees := by
  cases e <;> simp [subtrees]

theorem subtreesAll_eq (es : List Expr) : subtreesAll es = es.flatMap subtrees := by
  induction es with
  | nil => rfl
  | cons e rest ih => rw [subtreesAll, ih, List.flatMap_cons]

theorem mem_subtreesAll {e : Expr} {es : List Expr} (listed : e ∈ es) : .expr e ∈ subtreesAll es := by
  rw [subtreesAll_eq]
  exact List.mem_flatMap.2 ⟨e, listed, e.subtree_mem_subtrees⟩

/-- The two sides of a pair are below it. -/
theorem mem_subtreesPairs {pair : KeymapPair} {pairs : List KeymapPair} (listed : pair ∈ pairs) :
    .expr pair.key ∈ subtreesPairs pairs ∧ .expr pair.value ∈ subtreesPairs pairs := by
  induction pairs with
  | nil => cases listed
  | cons first rest ih =>
    obtain ⟨n, key, value⟩ := first
    rcases List.mem_cons.1 listed with rfl | listed
    · refine ⟨List.mem_append_left _ (List.mem_cons_of_mem _ ?_),
        List.mem_append_left _ (List.mem_cons_of_mem _ ?_)⟩
      · exact List.mem_append_left _ key.subtree_mem_subtrees
      · exact List.mem_append_right _ value.subtree_mem_subtrees
    · exact (ih listed).imp (List.mem_append_right _) (List.mem_append_right _)

end Expr

/-! ## Statements -/

def initializerSubtrees (i : Option Initializer) : List Subtree := i.elim [] fun i => i.value.subtrees

def VarDecl.subtrees (d : VarDecl) : List Subtree := d.type.subtrees ++ initializerSubtrees d.init

mutual

def Statement.subtrees : Statement → List Subtree
  | .varDecl n decl => .head n :: decl.subtrees
  | .expr n value => .head n :: value.subtrees
  | .ifElse n condition thenBlock alternative =>
    .head n :: (condition.subtrees ++ thenBlock.subtrees ++ alternative.subtrees)
  | .while n condition body => .head n :: (condition.subtrees ++ body.subtrees)
  | .tryCatch n body handler => .head n :: (body.subtrees ++ handler.subtrees)
  | .return n value => .head n :: value.elim [] Expr.subtrees
  | .break n | .continue n => [.head n]
  | .block n body => .head n :: body.subtrees

def Alternative.subtrees : Alternative → List Subtree
  | .none => []
  | .block body => body.subtrees
  | .elseIf condition thenBlock alternative =>
    condition.subtrees ++ thenBlock.subtrees ++ alternative.subtrees

def Block.subtrees : Block → List Subtree
  | .mk n statements => .head n :: statementSubtrees statements

def statementSubtrees : List Statement → List Subtree
  | [] => []
  | s :: rest => s.subtrees ++ statementSubtrees rest

end

theorem initializerSubtrees_nodes (i : Option Initializer) :
    (initializerSubtrees i).map Subtree.node = initializerNodes i := by
  cases i with
  | none => rfl
  | some i => exact i.value.subtrees_nodes

theorem VarDecl.subtrees_nodes (d : VarDecl) : d.subtrees.map Subtree.node = d.nodes := by
  rw [subtrees, nodes, List.map_append, d.type.subtrees_nodes, initializerSubtrees_nodes]

mutual

theorem Statement.subtrees_nodes : ∀ s : Statement, s.subtrees.map Subtree.node = s.nodes
  | .varDecl n decl => congrArg (n :: ·) decl.subtrees_nodes
  | .expr n value => congrArg (n :: ·) value.subtrees_nodes
  | .ifElse n condition thenBlock alternative => by
    simp only [Statement.subtrees, Statement.nodes, List.map_cons, List.map_append,
      condition.subtrees_nodes, thenBlock.subtrees_nodes, alternative.subtrees_nodes]
    rfl
  | .while n condition body => by
    simp only [Statement.subtrees, Statement.nodes, List.map_cons, List.map_append,
      condition.subtrees_nodes, body.subtrees_nodes]
    rfl
  | .tryCatch n body handler => by
    simp only [Statement.subtrees, Statement.nodes, List.map_cons, List.map_append, body.subtrees_nodes,
      handler.subtrees_nodes]
    rfl
  | .return _ none | .break _ | .continue _ => rfl
  | .return n (some value) => congrArg (n :: ·) value.subtrees_nodes
  | .block n body => congrArg (n :: ·) body.subtrees_nodes

theorem Alternative.subtrees_nodes : ∀ a : Alternative, a.subtrees.map Subtree.node = a.nodes
  | .none => rfl
  | .block body => body.subtrees_nodes
  | .elseIf condition thenBlock alternative => by
    simp only [Alternative.subtrees, Alternative.nodes, List.map_append, condition.subtrees_nodes,
      thenBlock.subtrees_nodes, alternative.subtrees_nodes]

theorem Block.subtrees_nodes : ∀ b : Block, b.subtrees.map Subtree.node = b.nodes
  | .mk n statements => congrArg (n :: ·) (statementSubtrees_nodes statements)

theorem statementSubtrees_nodes : ∀ ss : List Statement,
    (statementSubtrees ss).map Subtree.node = statementNodes ss
  | [] => rfl
  | s :: rest => by
    rw [statementSubtrees, statementNodes, List.map_append, s.subtrees_nodes,
      statementSubtrees_nodes rest]

end

/-! ## Subtrees of subtrees -/

/-- A subtree and those below it. -/
def Subtree.subtrees : Subtree → List Subtree
  | expr e => e.subtrees
  | type t => t.subtrees
  | pair (.mk n key value) => .pair (.mk n key value) :: (key.subtrees ++ value.subtrees)
  | head n => [.head n]

/-- Some subtrees, with all those below them. -/
def Closed (xs : List Subtree) : Prop := ∀ x ∈ xs, x.subtrees.Sublist xs

namespace Closed

variable {xs ys : List Subtree}

theorem subset {x : Subtree} (closed : Closed xs) (inside : x ∈ xs) : x.subtrees ⊆ xs :=
  (closed x inside).subset

theorem nil : Closed [] := fun _ => nofun

theorem cons {x : Subtree} (whole : x.subtrees.Sublist (x :: xs)) (rest : Closed xs) :
    Closed (x :: xs) :=
  List.forall_mem_cons.2 ⟨whole, fun y inside => (rest y inside).cons x⟩

theorem append (left : Closed xs) (right : Closed ys) : Closed (xs ++ ys) :=
  List.forall_mem_append.2 ⟨fun x inside => (left x inside).trans (List.sublist_append_left _ _),
    fun x inside => (right x inside).trans (List.sublist_append_right _ _)⟩

theorem flatMap {α : Type} {view : α → List Subtree} {items : List α}
    (each : ∀ a ∈ items, Closed (view a)) : Closed (items.flatMap view) := by
  induction items with
  | nil => exact .nil
  | cons a rest ih =>
    obtain ⟨first, others⟩ := List.forall_mem_cons.1 each
    exact .append first (ih others)

theorem headed {n : Node} (rest : Closed xs) : Closed (.head n :: xs) :=
  .cons (List.singleton_sublist.2 (List.mem_cons_self ..)) rest

end Closed

mutual

theorem TypeRef.subtrees_closed : ∀ t : TypeRef, Closed t.subtrees
  | .primitive .. | .named .. | .void .. => .cons (List.Sublist.refl _) .nil
  | .array _ _ args | .keymap _ _ args | .generic _ _ _ args =>
    .cons (List.Sublist.refl _) (subtreesAll_closed args)

theorem TypeRef.subtreesAll_closed : ∀ ts : List TypeRef, Closed (subtreesAll ts)
  | [] => .nil
  | t :: rest => .append t.subtrees_closed (subtreesAll_closed rest)

end

mutual

theorem Expr.subtrees_closed : ∀ e : Expr, Closed e.subtrees
  | .ident .. | .this _ | .literal .. => .cons (List.Sublist.refl _) .nil
  | .list _ elems => .cons (List.Sublist.refl _) (subtreesAll_closed elems)
  | .keymap _ pairs => .cons (List.Sublist.refl _) (subtreesPairs_closed pairs)
  | .binary _ _ a b | .index _ a b | .assign _ _ a b =>
    .cons (List.Sublist.refl _) (.append a.subtrees_closed b.subtrees_closed)
  | .unary _ _ operand => .cons (List.Sublist.refl _) operand.subtrees_closed
  | .new _ type => .cons (List.Sublist.refl _) type.subtrees_closed
  | .member _ target _ _ => .cons (List.Sublist.refl _) target.subtrees_closed
  | .call _ callee args =>
    .cons (List.Sublist.refl _) (.append callee.subtrees_closed (subtreesAll_closed args))

theorem Expr.subtreesAll_closed : ∀ es : List Expr, Closed (subtreesAll es)
  | [] => .nil
  | e :: rest => .append e.subtrees_closed (subtreesAll_closed rest)

theorem Expr.subtreesPairs_closed : ∀ pairs : List KeymapPair, Closed (subtreesPairs pairs)
  | [] => .nil
  | .mk _ key value :: rest => .append
    (.cons (List.Sublist.refl _) (.append key.subtrees_closed value.subtrees_closed))
    (subtreesPairs_closed rest)

end

theorem initializerSubtrees_closed : ∀ i : Option Initializer, Closed (initializerSubtrees i)
  | none => .nil
  | some i => i.value.subtrees_closed

mutual

theorem Statement.subtrees_closed : ∀ s : Statement, Closed s.subtrees
  | .varDecl _ decl =>
    .headed (.append decl.type.subtrees_closed (initializerSubtrees_closed decl.init))
  | .expr _ value => .headed value.subtrees_closed
  | .ifElse _ condition thenBlock alternative => .headed (.append
    (.append condition.subtrees_closed thenBlock.subtrees_closed) alternative.subtrees_closed)
  | .while _ condition body => .headed (.append condition.subtrees_closed body.subtrees_closed)
  | .tryCatch _ body handler => .headed (.append body.subtrees_closed handler.subtrees_closed)
  | .return _ none | .break _ | .continue _ => .headed .nil
  | .return _ (some value) => .headed value.subtrees_closed
  | .block _ body => .headed body.subtrees_closed

theorem Alternative.subtrees_closed : ∀ a : Alternative, Closed a.subtrees
  | .none => .nil
  | .block body => body.subtrees_closed
  | .elseIf condition thenBlock alternative =>
    .append (.append condition.subtrees_closed thenBlock.subtrees_closed) alternative.subtrees_closed

theorem Block.subtrees_closed : ∀ b : Block, Closed b.subtrees
  | .mk _ statements => .headed (statementSubtrees_closed statements)

theorem statementSubtrees_closed : ∀ ss : List Statement, Closed (statementSubtrees ss)
  | [] => .nil
  | s :: rest => .append s.subtrees_closed (statementSubtrees_closed rest)

end

/-! ## Declarations and programs -/

def Param.subtrees (p : Param) : List Subtree := .head p.node :: p.type.subtrees

def Field.subtrees (f : Field) : List Subtree :=
  .head f.node :: (f.type.subtrees ++ initializerSubtrees f.init)

def Method.subtrees (m : Method) : List Subtree :=
  .head m.node :: (m.returnType.subtrees ++ m.params.flatMap Param.subtrees ++ m.body.subtrees)

def Function.subtrees (f : Function) : List Subtree :=
  .head f.node :: (f.returnType.subtrees ++ f.params.flatMap Param.subtrees ++ f.body.subtrees)

def Class.subtrees (c : Class) : List Subtree :=
  .head c.node :: (c.superclass.elim [] TypeRef.subtrees ++ c.fields.flatMap Field.subtrees ++
    c.methods.flatMap Method.subtrees)

def Program.subtrees (p : Program) : List Subtree :=
  p.classes.flatMap Class.subtrees ++ p.functions.flatMap Function.subtrees ++
    statementSubtrees p.statements

/-- The expressions of a program, those inside others too. -/
def Program.exprs (p : Program) : List Expr := p.subtrees.filterMap Subtree.expr?

/-- The written types of a program, their arguments too. -/
def Program.typeRefs (p : Program) : List TypeRef := p.subtrees.filterMap Subtree.type?

theorem Program.mem_exprs {p : Program} {e : Expr} : e ∈ p.exprs ↔ .expr e ∈ p.subtrees := by
  rw [exprs, List.mem_filterMap]
  constructor
  · rintro ⟨x, listed, isExpr⟩
    cases x <;> cases isExpr
    exact listed
  · exact fun listed => ⟨_, listed, rfl⟩

theorem Program.mem_typeRefs {p : Program} {t : TypeRef} : t ∈ p.typeRefs ↔ .type t ∈ p.subtrees := by
  rw [typeRefs, List.mem_filterMap]
  constructor
  · rintro ⟨x, listed, isType⟩
    cases x <;> cases isType
    exact listed
  · exact fun listed => ⟨_, listed, rfl⟩

theorem Param.subtrees_closed (p : Param) : Closed p.subtrees := .headed p.type.subtrees_closed

theorem Field.subtrees_closed (f : Field) : Closed f.subtrees :=
  .headed (.append f.type.subtrees_closed (initializerSubtrees_closed f.init))

theorem Method.subtrees_closed (m : Method) : Closed m.subtrees :=
  .headed (.append (.append m.returnType.subtrees_closed
    (.flatMap fun p _ => p.subtrees_closed)) m.body.subtrees_closed)

theorem Function.subtrees_closed (f : Function) : Closed f.subtrees :=
  .headed (.append (.append f.returnType.subtrees_closed
    (.flatMap fun p _ => p.subtrees_closed)) f.body.subtrees_closed)

theorem Class.subtrees_closed (c : Class) : Closed c.subtrees := by
  refine .headed (.append (.append ?_ (.flatMap fun f _ => f.subtrees_closed))
    (.flatMap fun m _ => m.subtrees_closed))
  cases c.superclass with
  | none => exact .nil
  | some t => exact t.subtrees_closed

theorem Program.subtrees_closed (p : Program) : Closed p.subtrees :=
  .append (.append (.flatMap fun c _ => c.subtrees_closed) (.flatMap fun f _ => f.subtrees_closed))
    (statementSubtrees_closed p.statements)

theorem Param.subtrees_nodes (p : Param) : p.subtrees.map Subtree.node = p.nodes :=
  congrArg (p.node :: ·) p.type.subtrees_nodes

theorem Field.subtrees_nodes (f : Field) : f.subtrees.map Subtree.node = f.nodes := by
  rw [subtrees, nodes, List.map_cons, List.map_append, f.type.subtrees_nodes, initializerSubtrees_nodes]
  rfl

theorem Method.subtrees_nodes (m : Method) : m.subtrees.map Subtree.node = m.nodes := by
  simp only [subtrees, nodes, List.map_cons, List.map_append, List.map_flatMap,
    m.returnType.subtrees_nodes, m.body.subtrees_nodes, Param.subtrees_nodes]
  rfl

theorem Function.subtrees_nodes (f : Function) : f.subtrees.map Subtree.node = f.nodes := by
  simp only [subtrees, nodes, List.map_cons, List.map_append, List.map_flatMap,
    f.returnType.subtrees_nodes, f.body.subtrees_nodes, Param.subtrees_nodes]
  rfl

theorem Class.subtrees_nodes (c : Class) : c.subtrees.map Subtree.node = c.nodes := by
  have superclass : (c.superclass.elim [] TypeRef.subtrees).map Subtree.node =
      c.superclass.elim [] TypeRef.nodes := by
    cases c.superclass with
    | none => rfl
    | some type => exact type.subtrees_nodes
  simp only [subtrees, nodes, List.map_cons, List.map_append, List.map_flatMap, superclass,
    Field.subtrees_nodes, Method.subtrees_nodes]
  rfl

/-- There is one subtree at each node. -/
theorem Program.subtrees_nodes (p : Program) : p.subtrees.map Subtree.node = p.nodes := by
  simp only [subtrees, nodes, List.map_append, List.map_flatMap, Class.subtrees_nodes,
    Function.subtrees_nodes, statementSubtrees_nodes]

theorem Program.subtrees_distinct {p : Program} (distinct : Distinct p.nodes) :
    (p.subtrees.map Subtree.id).Nodup := by
  have distinct : (p.nodes.map Node.id).Nodup := distinct
  rw [← p.subtrees_nodes, List.map_map] at distinct
  exact distinct

/-- A written type in a program has no node twice, if the program has none. -/
theorem Program.typeRef_distinct {p : Program} (distinct : Distinct p.nodes) {t : TypeRef}
    (listed : t ∈ p.typeRefs) : Distinct t.nodes := by
  have inside := p.subtrees_closed _ (mem_typeRefs.1 listed)
  rw [Distinct, ← t.subtrees_nodes, List.map_map]
  exact (subtrees_distinct distinct).sublist (inside.map Subtree.id)

end ClassLang
