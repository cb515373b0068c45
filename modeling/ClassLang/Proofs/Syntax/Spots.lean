import ClassLang.Proofs.Syntax.Relocation

/-!
The spots of a syntax tree. Each node and each written name has one: where it stands, and where all that
is below it stands. The name of the class around an operator function is not below the function.

* `Program.nodes_spots`: each node has a spot.
* `Program.spots_relocate`: a changed tree has the changed spots.
* `Program.relocate_eq_self`: a tree with no spot that changes stays as it is.
-/

namespace ClassLang

/-- A place in a tree and the places below it. -/
structure Spot where
  span : Span
  below : List Span
deriving DecidableEq, Repr

def Spot.relocate (f : Span → Span) (spot : Spot) : Spot := ⟨f spot.span, spot.below.map f⟩

/-- The spots of a node with some spots below it. -/
def Node.atop (n : Node) (inner : List Spot) : List Spot := ⟨n.span, inner.map Spot.span⟩ :: inner

theorem Node.map_over {f : Span → Span} (n : Node) (inner : List Spot) :
    (n.atop inner).map (.relocate f) = (n.relocate f).atop (inner.map (.relocate f)) := by
  simp [atop, relocate, Spot.relocate, Function.comp_def]

/-! ## Trees -/

def Ident.spots (name : Ident) : List Spot := [⟨name.span, []⟩]

mutual

def TypeRef.spots : TypeRef → List Spot
  | .primitive n .. | .void n _ => n.atop []
  | .named n _ name => n.atop name.spots
  | .array n _ args | .keymap n _ args => n.atop (spotsAll args)
  | .generic n _ name args => n.atop (name.spots ++ spotsAll args)

def TypeRef.spotsAll : List TypeRef → List Spot
  | [] => []
  | t :: rest => t.spots ++ spotsAll rest

end

mutual

def Expr.spots : Expr → List Spot
  | .ident n name => n.atop name.spots
  | .this n | .literal n _ => n.atop []
  | .list n elems => n.atop (spotsAll elems)
  | .keymap n pairs => n.atop (spotsPairs pairs)
  | .binary n _ a b | .index n a b | .assign n _ a b => n.atop (a.spots ++ b.spots)
  | .unary n _ operand => n.atop operand.spots
  | .new n type => n.atop type.spots
  | .member n target _ name => n.atop (target.spots ++ name.spots)
  | .call n callee args => n.atop (callee.spots ++ spotsAll args)

def Expr.spotsAll : List Expr → List Spot
  | [] => []
  | e :: rest => e.spots ++ spotsAll rest

def Expr.spotsPairs : List KeymapPair → List Spot
  | [] => []
  | .mk n key value :: rest => n.atop (key.spots ++ value.spots) ++ spotsPairs rest

end

def KeymapPair.spots : KeymapPair → List Spot
  | .mk n key value => n.atop (key.spots ++ value.spots)

def initializerSpots (init : Option Initializer) : List Spot := init.elim [] fun i => i.value.spots

def VarDecl.spots (d : VarDecl) : List Spot :=
  d.type.spots ++ d.name.spots ++ initializerSpots d.init

mutual

def Statement.spots : Statement → List Spot
  | .varDecl n decl => n.atop decl.spots
  | .expr n value => n.atop value.spots
  | .ifElse n condition thenBlock alternative =>
    n.atop (condition.spots ++ thenBlock.spots ++ alternative.spots)
  | .while n condition body => n.atop (condition.spots ++ body.spots)
  | .tryCatch n body handler => n.atop (body.spots ++ handler.spots)
  | .return n value => n.atop (value.elim [] Expr.spots)
  | .break n | .continue n => n.atop []
  | .block n body => n.atop body.spots

def Alternative.spots : Alternative → List Spot
  | .none => []
  | .block body => body.spots
  | .elseIf condition thenBlock alternative =>
    condition.spots ++ thenBlock.spots ++ alternative.spots

def Block.spots : Block → List Spot
  | .mk n statements => n.atop (statementSpots statements)

def statementSpots : List Statement → List Spot
  | [] => []
  | s :: rest => s.spots ++ statementSpots rest

end

def Param.spots (p : Param) : List Spot := p.node.atop (p.type.spots ++ p.name.spots)

def Field.spots (f : Field) : List Spot :=
  f.node.atop (f.type.spots ++ f.name.spots ++ initializerSpots f.init)

def Method.spots (m : Method) : List Spot :=
  m.node.atop
    (m.returnType.spots ++ m.name.spots ++ m.params.flatMap Param.spots ++ m.body.spots)

def Function.spots (f : Function) : List Spot :=
  f.node.atop
      (f.returnType.spots ++ f.name.spots ++ f.params.flatMap Param.spots ++ f.body.spots) ++
    f.owner.elim [] Ident.spots

def Class.spots (c : Class) : List Spot :=
  c.node.atop (c.name.spots ++ c.generics.flatMap Ident.spots ++
    c.superclass.elim [] TypeRef.spots ++ c.fields.flatMap Field.spots ++
    c.methods.flatMap Method.spots)

def Program.spots (p : Program) : List Spot :=
  p.classes.flatMap Class.spots ++ p.functions.flatMap Function.spots ++
    statementSpots p.statements

/-! ## Lists of trees -/

theorem TypeRef.spotsAll_eq (ts : List TypeRef) : spotsAll ts = ts.flatMap spots := by
  induction ts with
  | nil => rfl
  | cons t rest ih => rw [spotsAll, ih, List.flatMap_cons]

theorem Expr.spotsAll_eq (es : List Expr) : spotsAll es = es.flatMap spots := by
  induction es with
  | nil => rfl
  | cons e rest ih => rw [spotsAll, ih, List.flatMap_cons]

theorem Expr.spotsPairs_eq (pairs : List KeymapPair) :
    spotsPairs pairs = pairs.flatMap KeymapPair.spots := by
  induction pairs with
  | nil => rfl
  | cons pair rest ih =>
    obtain ⟨n, key, value⟩ := pair
    rw [spotsPairs, ih, List.flatMap_cons, KeymapPair.spots]

theorem statementSpots_eq (ss : List Statement) : statementSpots ss = ss.flatMap Statement.spots := by
  induction ss with
  | nil => rfl
  | cons s rest ih => rw [statementSpots, ih, List.flatMap_cons]

/-! ## The outermost spot -/

theorem TypeRef.spots_eq (t : TypeRef) : ∃ inner, t.spots = t.node.atop inner := by
  cases t <;> exact ⟨_, rfl⟩

theorem Expr.spots_eq (e : Expr) : ∃ inner, e.spots = e.node.atop inner := by
  cases e <;> exact ⟨_, rfl⟩

/-! ## Nodes -/

/-- Each of some nodes has a spot. -/
def Sited (nodes : List Node) (spots : List Spot) : Prop :=
  (nodes.map Node.span).Sublist (spots.map Spot.span)

namespace Sited

variable {n : Node} {nodes nodes' : List Node} {spots spots' : List Spot}

theorem nil : Sited [] spots := List.nil_sublist _

theorem atop (h : Sited nodes spots) : Sited (n :: nodes) (n.atop spots) := h.cons_cons _

theorem append (h : Sited nodes spots) (h' : Sited nodes' spots') :
    Sited (nodes ++ nodes') (spots ++ spots') := by
  unfold Sited
  rw [List.map_append, List.map_append]
  exact List.Sublist.append h h'

/-- A name has a spot and no node. -/
theorem name (h : Sited nodes spots) (name : Ident) : Sited nodes (spots ++ name.spots) := by
  simpa using h.append (nil : Sited [] name.spots)

theorem names (h : Sited nodes spots) (names : List Spot) : Sited nodes (names ++ spots) := by
  have none : Sited [] names := nil
  exact none.append h

theorem flatMap {α : Type} {items : List α} {nodesOf : α → List Node} {spotsOf : α → List Spot}
    (each : ∀ a, Sited (nodesOf a) (spotsOf a)) :
    Sited (items.flatMap nodesOf) (items.flatMap spotsOf) := by
  induction items with
  | nil => exact .nil
  | cons a rest ih => exact (each a).append ih

end Sited

mutual

theorem TypeRef.nodes_spots : ∀ t : TypeRef, Sited t.nodes t.spots
  | .primitive .. | .void .. | .named .. => .atop .nil
  | .array _ _ args | .keymap _ _ args => .atop (nodesAll_spots args)
  | .generic _ _ _ args => .atop (.names (nodesAll_spots args) _)

theorem TypeRef.nodesAll_spots : ∀ ts : List TypeRef, Sited (nodesAll ts) (spotsAll ts)
  | [] => .nil
  | t :: rest => t.nodes_spots.append (nodesAll_spots rest)

end

mutual

theorem Expr.nodes_spots : ∀ e : Expr, Sited e.nodes e.spots
  | .ident .. | .this _ | .literal .. => .atop .nil
  | .list _ elems => .atop (nodesAll_spots elems)
  | .keymap _ pairs => .atop (nodesPairs_spots pairs)
  | .binary _ _ a b | .index _ a b | .assign _ _ a b => .atop (a.nodes_spots.append b.nodes_spots)
  | .unary _ _ operand => .atop operand.nodes_spots
  | .new _ type => .atop type.nodes_spots
  | .member _ target _ name => .atop (target.nodes_spots.name name)
  | .call _ callee args => .atop (callee.nodes_spots.append (nodesAll_spots args))

theorem Expr.nodesAll_spots : ∀ es : List Expr, Sited (nodesAll es) (spotsAll es)
  | [] => .nil
  | e :: rest => e.nodes_spots.append (nodesAll_spots rest)

theorem Expr.nodesPairs_spots : ∀ pairs : List KeymapPair, Sited (nodesPairs pairs) (spotsPairs pairs)
  | [] => .nil
  | .mk _ key value :: rest =>
    .append (.atop (key.nodes_spots.append value.nodes_spots)) (nodesPairs_spots rest)

end

theorem initializerNodes_spots : ∀ init : Option Initializer,
    Sited (initializerNodes init) (initializerSpots init)
  | none => .nil
  | some init => init.value.nodes_spots

theorem VarDecl.nodes_spots (d : VarDecl) : Sited d.nodes d.spots :=
  (d.type.nodes_spots.name d.name).append (initializerNodes_spots d.init)

mutual

theorem Statement.nodes_spots : ∀ s : Statement, Sited s.nodes s.spots
  | .varDecl _ decl => .atop decl.nodes_spots
  | .expr _ value => .atop value.nodes_spots
  | .ifElse _ condition thenBlock alternative =>
    .atop ((condition.nodes_spots.append thenBlock.nodes_spots).append alternative.nodes_spots)
  | .while _ condition body => .atop (condition.nodes_spots.append body.nodes_spots)
  | .tryCatch _ body handler => .atop (body.nodes_spots.append handler.nodes_spots)
  | .return _ none | .break _ | .continue _ => .atop .nil
  | .return _ (some value) => .atop value.nodes_spots
  | .block _ body => .atop body.nodes_spots

theorem Alternative.nodes_spots : ∀ a : Alternative, Sited a.nodes a.spots
  | .none => .nil
  | .block body => body.nodes_spots
  | .elseIf condition thenBlock alternative =>
    (condition.nodes_spots.append thenBlock.nodes_spots).append alternative.nodes_spots

theorem Block.nodes_spots : ∀ b : Block, Sited b.nodes b.spots
  | .mk _ statements => .atop (statementNodes_spots statements)

theorem statementNodes_spots : ∀ ss : List Statement, Sited (statementNodes ss) (statementSpots ss)
  | [] => .nil
  | s :: rest => s.nodes_spots.append (statementNodes_spots rest)

end

theorem Param.nodes_spots (p : Param) : Sited p.nodes p.spots := .atop (p.type.nodes_spots.name p.name)

theorem Field.nodes_spots (f : Field) : Sited f.nodes f.spots :=
  .atop ((f.type.nodes_spots.name f.name).append (initializerNodes_spots f.init))

theorem Method.nodes_spots (m : Method) : Sited m.nodes m.spots :=
  .atop (((m.returnType.nodes_spots.name m.name).append (.flatMap Param.nodes_spots)).append
    m.body.nodes_spots)

theorem Function.nodes_spots (f : Function) : Sited f.nodes f.spots := by
  have inside : Sited f.nodes (f.node.atop (f.returnType.spots ++ f.name.spots ++
      f.params.flatMap Param.spots ++ f.body.spots)) :=
    .atop (((f.returnType.nodes_spots.name f.name).append (.flatMap Param.nodes_spots)).append
      f.body.nodes_spots)
  have owner : Sited [] (f.owner.elim [] Ident.spots) := .nil
  simpa [Function.spots] using inside.append owner

theorem Class.nodes_spots (c : Class) : Sited c.nodes c.spots := by
  have superclass : Sited (c.superclass.elim [] TypeRef.nodes) (c.superclass.elim [] TypeRef.spots) := by
    cases c.superclass with
    | none => exact .nil
    | some type => exact type.nodes_spots
  exact .atop (((superclass.names _).append (.flatMap Field.nodes_spots)).append
    (.flatMap Method.nodes_spots))

theorem Program.nodes_spots (p : Program) : Sited p.nodes p.spots :=
  ((Sited.flatMap Class.nodes_spots).append (.flatMap Function.nodes_spots)).append
    (statementNodes_spots p.statements)

/-! ## Copies -/

mutual

theorem TypeRef.spots_renumber : ∀ (t : TypeRef) (next : Nat), (t.renumber next).1.spots = t.spots
  | .primitive .., _ | .void .., _ | .named .., _ => rfl
  | .array n _ args, next | .keymap n _ args, next | .generic n _ _ args, next => by
    simp only [renumber, spots, Node.atop, spotsAll_renumber args]

theorem TypeRef.spotsAll_renumber : ∀ (ts : List TypeRef) (next : Nat),
    spotsAll (renumberAll ts next).1 = spotsAll ts
  | [], _ => rfl
  | t :: rest, next => by
    simp only [renumberAll, spotsAll, spots_renumber t, spotsAll_renumber rest]

end

mutual

theorem Expr.spots_renumber : ∀ (e : Expr) (next : Nat), (e.renumber next).1.spots = e.spots
  | .ident .., _ | .this _, _ | .literal .., _ => rfl
  | .list _ elems, next => by simp only [renumber, spots, Node.atop, spotsAll_renumber elems]
  | .keymap _ pairs, next => by simp only [renumber, spots, Node.atop, spotsPairs_renumber pairs]
  | .binary _ _ a b, next | .index _ a b, next | .assign _ _ a b, next => by
    simp only [renumber, spots, Node.atop, spots_renumber a, spots_renumber b]
  | .unary _ _ e, next | .member _ e _ _, next => by simp only [renumber, spots, Node.atop, spots_renumber e]
  | .new _ type, next => by simp only [renumber, spots, Node.atop, type.spots_renumber]
  | .call _ callee args, next => by
    simp only [renumber, spots, Node.atop, spots_renumber callee, spotsAll_renumber args]

theorem Expr.spotsAll_renumber : ∀ (es : List Expr) (next : Nat),
    spotsAll (renumberAll es next).1 = spotsAll es
  | [], _ => rfl
  | e :: rest, next => by
    simp only [renumberAll, spotsAll, spots_renumber e, spotsAll_renumber rest]

theorem Expr.spotsPairs_renumber : ∀ (pairs : List KeymapPair) (next : Nat),
    spotsPairs (renumberPairs pairs next).1 = spotsPairs pairs
  | [], _ => rfl
  | .mk _ key value :: rest, next => by
    simp only [renumberPairs, spotsPairs, Node.atop, spots_renumber key, spots_renumber value,
      spotsPairs_renumber rest]

end

/-! ## Changed places -/

section Relocation

variable {f : Span → Span}

theorem Ident.spots_relocate (name : Ident) :
    (name.relocate f).spots = name.spots.map (.relocate f) := rfl

mutual

theorem TypeRef.spots_relocate : ∀ t : TypeRef, (t.relocate f).spots = t.spots.map (.relocate f)
  | .primitive .. | .void .. => rfl
  | .named _ _ name => by
    simp only [relocate, spots, Node.map_over, name.spots_relocate]
  | .array _ _ args | .keymap _ _ args => by
    simp only [relocate, spots, Node.map_over, spotsAll_relocateAll args]
  | .generic _ _ name args => by
    simp only [relocate, spots, Node.map_over, name.spots_relocate,
      spotsAll_relocateAll args, List.map_append]

theorem TypeRef.spotsAll_relocateAll : ∀ ts : List TypeRef,
    spotsAll (relocateAll f ts) = (spotsAll ts).map (.relocate f)
  | [] => rfl
  | t :: rest => by
    simp only [relocateAll, spotsAll, List.map_append, spots_relocate t, spotsAll_relocateAll rest]

end

mutual

theorem Expr.spots_relocate : ∀ e : Expr, (e.relocate f).spots = e.spots.map (.relocate f)
  | .this _ | .literal .. => rfl
  | .ident _ name => by
    simp only [relocate, spots, Node.map_over, name.spots_relocate]
  | .list _ elems => by
    simp only [relocate, spots, Node.map_over, spotsAll_relocateAll elems]
  | .keymap _ pairs => by
    simp only [relocate, spots, Node.map_over, spotsPairs_relocatePairs pairs]
  | .binary _ _ a b | .index _ a b | .assign _ _ a b => by
    simp only [relocate, spots, Node.map_over, spots_relocate a, spots_relocate b,
      Node.relocate, List.map_append]
  | .unary _ _ operand => by
    simp only [relocate, spots, Node.map_over, spots_relocate operand]
  | .new _ type => by
    simp only [relocate, spots, Node.map_over, type.spots_relocate]
  | .member _ target _ name => by
    simp only [relocate, spots, Node.map_over, spots_relocate target, name.spots_relocate,
      Node.relocate, List.map_append]
  | .call _ callee args => by
    simp only [relocate, spots, Node.map_over, spots_relocate callee,
      spotsAll_relocateAll args, List.map_append]

theorem Expr.spotsAll_relocateAll : ∀ es : List Expr,
    spotsAll (relocateAll f es) = (spotsAll es).map (.relocate f)
  | [] => rfl
  | e :: rest => by
    simp only [relocateAll, spotsAll, List.map_append, spots_relocate e, spotsAll_relocateAll rest]

theorem Expr.spotsPairs_relocatePairs : ∀ pairs : List KeymapPair,
    spotsPairs (relocatePairs f pairs) = (spotsPairs pairs).map (.relocate f)
  | [] => rfl
  | .mk _ key value :: rest => by
    simp only [relocatePairs, spotsPairs, List.map_append, Node.map_over,
      spots_relocate key, spots_relocate value, spotsPairs_relocatePairs rest]

end

theorem initializerSpots_relocate (init : Option Initializer) :
    initializerSpots (init.map (.relocate f)) = (initializerSpots init).map (.relocate f) := by
  cases init with
  | none => rfl
  | some i => exact i.value.spots_relocate

theorem VarDecl.spots_relocate (d : VarDecl) :
    (d.relocate f).spots = d.spots.map (.relocate f) := by
  simp only [relocate, spots, List.map_append, d.type.spots_relocate, d.name.spots_relocate,
    initializerSpots_relocate]

mutual

theorem Statement.spots_relocate : ∀ s : Statement, (s.relocate f).spots = s.spots.map (.relocate f)
  | .varDecl _ decl => by
    simp only [Statement.relocate, Statement.spots, Node.map_over, decl.spots_relocate]
  | .expr _ value => by
    simp only [Statement.relocate, Statement.spots, Node.map_over, value.spots_relocate]
  | .ifElse _ condition thenBlock alternative => by
    simp only [Statement.relocate, Statement.spots, Node.map_over, List.map_append,
      condition.spots_relocate, thenBlock.spots_relocate, alternative.spots_relocate]
  | .while _ condition body => by
    simp only [Statement.relocate, Statement.spots, Node.map_over, List.map_append,
      condition.spots_relocate, body.spots_relocate]
  | .tryCatch _ body handler => by
    simp only [Statement.relocate, Statement.spots, Node.map_over, List.map_append,
      body.spots_relocate, handler.spots_relocate]
  | .return _ none | .break _ | .continue _ => rfl
  | .return _ (some value) => by
    simp only [Statement.relocate, Statement.spots, Node.map_over, Option.map_some,
      Option.elim_some, value.spots_relocate]
  | .block _ body => by
    simp only [Statement.relocate, Statement.spots, Node.map_over, body.spots_relocate]

theorem Alternative.spots_relocate : ∀ a : Alternative,
    (a.relocate f).spots = a.spots.map (.relocate f)
  | .none => rfl
  | .block body => body.spots_relocate
  | .elseIf condition thenBlock alternative => by
    simp only [Alternative.relocate, Alternative.spots, List.map_append, condition.spots_relocate,
      thenBlock.spots_relocate, alternative.spots_relocate]

theorem Block.spots_relocate : ∀ b : Block, (b.relocate f).spots = b.spots.map (.relocate f)
  | .mk _ statements => by
    simp only [Block.relocate, Block.spots, Node.map_over,
      statementSpots_relocateStatements statements]

theorem statementSpots_relocateStatements : ∀ ss : List Statement,
    statementSpots (relocateStatements f ss) = (statementSpots ss).map (.relocate f)
  | [] => rfl
  | s :: rest => by
    simp only [relocateStatements, statementSpots, List.map_append, s.spots_relocate,
      statementSpots_relocateStatements rest]

end

theorem flatMap_spots_relocate {α : Type} {move : α → α} {spotsOf : α → List Spot}
    (each : ∀ a, spotsOf (move a) = (spotsOf a).map (.relocate f)) (items : List α) :
    (items.map move).flatMap spotsOf = (items.flatMap spotsOf).map (.relocate f) := by
  simp only [List.flatMap_map, List.map_flatMap, each]

theorem Param.spots_relocate (p : Param) : (p.relocate f).spots = p.spots.map (.relocate f) := by
  simp only [relocate, spots, Node.map_over, List.map_append, p.type.spots_relocate,
    p.name.spots_relocate]

theorem Field.spots_relocate (field : Field) :
    (field.relocate f).spots = field.spots.map (.relocate f) := by
  simp only [relocate, spots, Node.map_over, List.map_append, field.type.spots_relocate,
    field.name.spots_relocate, initializerSpots_relocate]

theorem Method.spots_relocate (m : Method) : (m.relocate f).spots = m.spots.map (.relocate f) := by
  simp only [relocate, spots, Node.map_over, List.map_append, m.returnType.spots_relocate,
    m.name.spots_relocate, m.body.spots_relocate, flatMap_spots_relocate Param.spots_relocate]

theorem Function.spots_relocate (function : Function) :
    (function.relocate f).spots = function.spots.map (.relocate f) := by
  have owner : (function.owner.map (.relocate f)).elim [] Ident.spots =
      (function.owner.elim [] Ident.spots).map (.relocate f) := by
    cases function.owner <;> rfl
  simp only [relocate, spots, Node.map_over, List.map_append, owner,
    function.returnType.spots_relocate, function.name.spots_relocate, function.body.spots_relocate,
    flatMap_spots_relocate Param.spots_relocate]

theorem Class.spots_relocate (c : Class) : (c.relocate f).spots = c.spots.map (.relocate f) := by
  have superclass : (c.superclass.map (.relocate f)).elim [] TypeRef.spots =
      (c.superclass.elim [] TypeRef.spots).map (.relocate f) := by
    cases c.superclass with
    | none => rfl
    | some type => exact type.spots_relocate
  simp only [relocate, spots, Node.map_over, List.map_append, superclass,
    c.name.spots_relocate, flatMap_spots_relocate Ident.spots_relocate,
    flatMap_spots_relocate Field.spots_relocate, flatMap_spots_relocate Method.spots_relocate]

theorem Program.spots_relocate (p : Program) :
    (p.relocate f).spots = p.spots.map (.relocate f) := by
  simp only [relocate, spots, List.map_append, flatMap_spots_relocate Class.spots_relocate,
    flatMap_spots_relocate Function.spots_relocate, statementSpots_eq,
    flatMap_spots_relocate Statement.spots_relocate]

/-! ## Places that stay -/

/-- None of the spots changes its place. -/
def Fixed (f : Span → Span) (spots : List Spot) : Prop := ∀ spot ∈ spots, f spot.span = spot.span

theorem fixed_append {spots spots' : List Spot} :
    Fixed f (spots ++ spots') ↔ Fixed f spots ∧ Fixed f spots' := List.forall_mem_append

theorem fixed_over {n : Node} {inner : List Spot} :
    Fixed f (n.atop inner) ↔ n.relocate f = n ∧ Fixed f inner := by
  obtain ⟨id, span⟩ := n
  simp [Fixed, Node.atop, Node.relocate]

theorem fixed_name {name : Ident} : Fixed f name.spots ↔ name.relocate f = name := by
  obtain ⟨text, span⟩ := name
  simp [Fixed, Ident.spots, Ident.relocate]

theorem map_eq_self {α : Type} {move : α → α} {spotsOf : α → List Spot}
    (each : ∀ a, Fixed f (spotsOf a) → move a = a) {items : List α}
    (fixed : Fixed f (items.flatMap spotsOf)) : items.map move = items := by
  refine (List.map_congr_left fun a listed => ?_).trans (List.map_id items)
  exact each a (List.forall_mem_flatMap.1 fixed a listed)

theorem optionMap_eq_self {α : Type} {move : α → α} {spotsOf : α → List Spot}
    (each : ∀ a, Fixed f (spotsOf a) → move a = a) {item : Option α}
    (fixed : Fixed f (item.elim [] spotsOf)) : item.map move = item := by
  cases item with
  | none => rfl
  | some a => exact congrArg some (each a fixed)

mutual

theorem TypeRef.relocate_eq_self : ∀ t : TypeRef, Fixed f t.spots → t.relocate f = t
  | .primitive .., fixed | .void .., fixed => by
    simp only [relocate, (fixed_over.1 fixed).1]
  | .named _ _ name, fixed => by
    obtain ⟨here, named⟩ := fixed_over.1 fixed
    simp only [relocate, here, fixed_name.1 named]
  | .array _ _ args, fixed | .keymap _ _ args, fixed => by
    obtain ⟨here, below⟩ := fixed_over.1 fixed
    simp only [relocate, here, relocateAll_eq_self args below]
  | .generic _ _ name args, fixed => by
    obtain ⟨here, inner⟩ := fixed_over.1 fixed
    obtain ⟨named, below⟩ := fixed_append.1 inner
    simp only [relocate, here, fixed_name.1 named, relocateAll_eq_self args below]

theorem TypeRef.relocateAll_eq_self : ∀ ts : List TypeRef,
    Fixed f (spotsAll ts) → relocateAll f ts = ts
  | [], _ => rfl
  | t :: rest, fixed => by
    obtain ⟨first, others⟩ := fixed_append.1 fixed
    rw [relocateAll, relocate_eq_self t first, relocateAll_eq_self rest others]

end

mutual

theorem Expr.relocate_eq_self : ∀ e : Expr, Fixed f e.spots → e.relocate f = e
  | .this _, fixed | .literal .., fixed => by simp only [relocate, (fixed_over.1 fixed).1]
  | .ident _ name, fixed => by
    obtain ⟨here, named⟩ := fixed_over.1 fixed
    simp only [relocate, here, fixed_name.1 named]
  | .list _ elems, fixed => by
    obtain ⟨here, below⟩ := fixed_over.1 fixed
    simp only [relocate, here, relocateAll_eq_self elems below]
  | .keymap _ pairs, fixed => by
    obtain ⟨here, below⟩ := fixed_over.1 fixed
    simp only [relocate, here, relocatePairs_eq_self pairs below]
  | .binary _ _ a b, fixed | .index _ a b, fixed | .assign _ _ a b, fixed => by
    obtain ⟨here, inner⟩ := fixed_over.1 fixed
    obtain ⟨left, right⟩ := fixed_append.1 inner
    simp only [relocate, here, relocate_eq_self a left, relocate_eq_self b right]
  | .unary _ _ operand, fixed => by
    obtain ⟨here, below⟩ := fixed_over.1 fixed
    simp only [relocate, here, relocate_eq_self operand below]
  | .new _ type, fixed => by
    obtain ⟨here, below⟩ := fixed_over.1 fixed
    simp only [relocate, here, type.relocate_eq_self below]
  | .member _ target _ name, fixed => by
    obtain ⟨here, inner⟩ := fixed_over.1 fixed
    obtain ⟨below, named⟩ := fixed_append.1 inner
    simp only [relocate, here, relocate_eq_self target below, fixed_name.1 named]
  | .call _ callee args, fixed => by
    obtain ⟨here, inner⟩ := fixed_over.1 fixed
    obtain ⟨called, given⟩ := fixed_append.1 inner
    simp only [relocate, here, relocate_eq_self callee called, relocateAll_eq_self args given]

theorem Expr.relocateAll_eq_self : ∀ es : List Expr, Fixed f (spotsAll es) → relocateAll f es = es
  | [], _ => rfl
  | e :: rest, fixed => by
    obtain ⟨first, others⟩ := fixed_append.1 fixed
    rw [relocateAll, relocate_eq_self e first, relocateAll_eq_self rest others]

theorem Expr.relocatePairs_eq_self : ∀ pairs : List KeymapPair,
    Fixed f (spotsPairs pairs) → relocatePairs f pairs = pairs
  | [], _ => rfl
  | .mk _ key value :: rest, fixed => by
    obtain ⟨first, others⟩ := fixed_append.1 fixed
    obtain ⟨here, inner⟩ := fixed_over.1 first
    obtain ⟨keyed, valued⟩ := fixed_append.1 inner
    rw [relocatePairs, here, relocate_eq_self key keyed, relocate_eq_self value valued,
      relocatePairs_eq_self rest others]

end

theorem Initializer.relocate_eq_self (i : Initializer) (fixed : Fixed f i.value.spots) :
    i.relocate f = i := by
  rw [relocate, i.value.relocate_eq_self fixed]

theorem VarDecl.relocate_eq_self (d : VarDecl) (fixed : Fixed f d.spots) : d.relocate f = d := by
  obtain ⟨declared, inits⟩ := fixed_append.1 fixed
  obtain ⟨typed, named⟩ := fixed_append.1 declared
  rw [relocate, d.type.relocate_eq_self typed, fixed_name.1 named,
    optionMap_eq_self Initializer.relocate_eq_self inits]

mutual

theorem Statement.relocate_eq_self : ∀ s : Statement, Fixed f s.spots → s.relocate f = s
  | .varDecl _ decl, fixed => by
    obtain ⟨here, below⟩ := fixed_over.1 fixed
    rw [Statement.relocate, here, decl.relocate_eq_self below]
  | .expr _ value, fixed => by
    obtain ⟨here, below⟩ := fixed_over.1 fixed
    rw [Statement.relocate, here, value.relocate_eq_self below]
  | .ifElse _ condition thenBlock alternative, fixed => by
    obtain ⟨here, inner⟩ := fixed_over.1 fixed
    obtain ⟨front, last⟩ := fixed_append.1 inner
    obtain ⟨tested, first⟩ := fixed_append.1 front
    rw [Statement.relocate, here, condition.relocate_eq_self tested,
      thenBlock.relocate_eq_self first, alternative.relocate_eq_self last]
  | .while _ condition body, fixed => by
    obtain ⟨here, inner⟩ := fixed_over.1 fixed
    obtain ⟨tested, repeated⟩ := fixed_append.1 inner
    rw [Statement.relocate, here, condition.relocate_eq_self tested, body.relocate_eq_self repeated]
  | .tryCatch _ body handler, fixed => by
    obtain ⟨here, inner⟩ := fixed_over.1 fixed
    obtain ⟨tried, caught⟩ := fixed_append.1 inner
    rw [Statement.relocate, here, body.relocate_eq_self tried, handler.relocate_eq_self caught]
  | .return _ value, fixed => by
    obtain ⟨here, below⟩ := fixed_over.1 fixed
    rw [Statement.relocate, here, optionMap_eq_self Expr.relocate_eq_self below]
  | .break _, fixed | .continue _, fixed => by
    simp only [Statement.relocate, (fixed_over.1 fixed).1]
  | .block _ body, fixed => by
    obtain ⟨here, below⟩ := fixed_over.1 fixed
    rw [Statement.relocate, here, body.relocate_eq_self below]

theorem Alternative.relocate_eq_self : ∀ a : Alternative, Fixed f a.spots → a.relocate f = a
  | .none, _ => rfl
  | .block body, fixed => congrArg Alternative.block (body.relocate_eq_self fixed)
  | .elseIf condition thenBlock alternative, fixed => by
    obtain ⟨front, last⟩ := fixed_append.1 fixed
    obtain ⟨tested, first⟩ := fixed_append.1 front
    rw [Alternative.relocate, condition.relocate_eq_self tested, thenBlock.relocate_eq_self first,
      alternative.relocate_eq_self last]

theorem Block.relocate_eq_self : ∀ b : Block, Fixed f b.spots → b.relocate f = b
  | .mk _ statements, fixed => by
    obtain ⟨here, below⟩ := fixed_over.1 fixed
    rw [Block.relocate, here, relocateStatements_eq_self statements below]

theorem relocateStatements_eq_self : ∀ ss : List Statement,
    Fixed f (statementSpots ss) → relocateStatements f ss = ss
  | [], _ => rfl
  | s :: rest, fixed => by
    obtain ⟨first, others⟩ := fixed_append.1 fixed
    rw [relocateStatements, s.relocate_eq_self first, relocateStatements_eq_self rest others]

end

theorem Param.relocate_eq_self (p : Param) (fixed : Fixed f p.spots) : p.relocate f = p := by
  obtain ⟨here, inner⟩ := fixed_over.1 fixed
  obtain ⟨typed, named⟩ := fixed_append.1 inner
  rw [relocate, here, p.type.relocate_eq_self typed, fixed_name.1 named]

theorem Field.relocate_eq_self (field : Field) (fixed : Fixed f field.spots) :
    field.relocate f = field := by
  obtain ⟨here, inner⟩ := fixed_over.1 fixed
  obtain ⟨declared, inits⟩ := fixed_append.1 inner
  obtain ⟨typed, named⟩ := fixed_append.1 declared
  rw [relocate, here, field.type.relocate_eq_self typed, fixed_name.1 named,
    optionMap_eq_self Initializer.relocate_eq_self inits]

theorem Method.relocate_eq_self (m : Method) (fixed : Fixed f m.spots) : m.relocate f = m := by
  obtain ⟨here, inner⟩ := fixed_over.1 fixed
  obtain ⟨title, body⟩ := fixed_append.1 inner
  obtain ⟨declared, params⟩ := fixed_append.1 title
  obtain ⟨typed, named⟩ := fixed_append.1 declared
  rw [relocate, here, m.returnType.relocate_eq_self typed, fixed_name.1 named,
    map_eq_self Param.relocate_eq_self params, m.body.relocate_eq_self body]

theorem Function.relocate_eq_self (function : Function) (fixed : Fixed f function.spots) :
    function.relocate f = function := by
  obtain ⟨inside, owned⟩ := fixed_append.1 fixed
  obtain ⟨here, inner⟩ := fixed_over.1 inside
  obtain ⟨title, body⟩ := fixed_append.1 inner
  obtain ⟨declared, params⟩ := fixed_append.1 title
  obtain ⟨typed, named⟩ := fixed_append.1 declared
  rw [relocate, here, function.returnType.relocate_eq_self typed, fixed_name.1 named,
    map_eq_self Param.relocate_eq_self params, function.body.relocate_eq_self body,
    optionMap_eq_self (fun _ => fixed_name.1) owned]

theorem Class.relocate_eq_self (c : Class) (fixed : Fixed f c.spots) : c.relocate f = c := by
  obtain ⟨here, inner⟩ := fixed_over.1 fixed
  obtain ⟨withFields, methods⟩ := fixed_append.1 inner
  obtain ⟨title, fields⟩ := fixed_append.1 withFields
  obtain ⟨declared, extended⟩ := fixed_append.1 title
  obtain ⟨named, generics⟩ := fixed_append.1 declared
  rw [relocate, here, fixed_name.1 named, map_eq_self (fun _ => fixed_name.1) generics,
    optionMap_eq_self TypeRef.relocate_eq_self extended,
    map_eq_self Field.relocate_eq_self fields, map_eq_self Method.relocate_eq_self methods]

theorem Program.relocate_eq_self (p : Program) (fixed : Fixed f p.spots) : p.relocate f = p := by
  obtain ⟨declared, statements⟩ := fixed_append.1 fixed
  obtain ⟨classes, functions⟩ := fixed_append.1 declared
  rw [statementSpots_eq] at statements
  rw [relocate, map_eq_self Class.relocate_eq_self classes,
    map_eq_self Function.relocate_eq_self functions,
    map_eq_self Statement.relocate_eq_self statements]

end Relocation

end ClassLang
