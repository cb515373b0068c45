import ClassLang.Parsing.Context
import ClassLang.Proofs.Syntax.Forms
import ClassLang.Proofs.Syntax.Scoping
import ClassLang.Syntax.Program

/-!
Programs as the parser makes them. What may stand in a statement depends on the context it is read
in, which the blocks inside it add to. In a program that is of this form all stands where it may:
jumps in loops, returns in functions and methods, `void` in front of a function or method and nowhere
else, and operator functions with an owner and one parameter for each operand.

* `Program.Grammatical.roots`: what the expressions of statements are, at any depth.
* `Program.Grammatical.placed`: nothing is out of place.
-/

namespace ClassLang

/-! ## Expressions -/

namespace Expr

/-- Whether no assignment is in the expression. -/
def assignFree (e : Expr) : Bool := e.all fun e => !e.isAssignment

/-- An expression without assignment, or an assignment to one, whose value is again of this form. A
compound assignment stores an operation on a copy of its target and on such a value. -/
inductive AssignsInTurn : Expr → Prop
  | operation {e : Expr} : e.assignFree = true → AssignsInTurn e
  | assign (n : Node) (kind : AssignKind) {target value : Expr} : target.assignFree = true →
    AssignsInTurn value → AssignsInTurn (.assign n kind target value)
  | compound (n n' : Node) {mark : Punct} {op : BinaryOp} {target copy value : Expr} :
    target.assignFree = true → mark.compoundOp? = some op → copy.same target = true →
    AssignsInTurn value → AssignsInTurn (.assign n .value target (.binary n' op copy value))

/-- An expression inside a statement or a declaration. -/
structure Nested (e : Expr) : Prop where
  sound : e.isSound = true
  free : e.assignFree = true

/-- The expression of an expression statement. -/
structure Standalone (e : Expr) : Prop where
  sound : e.isSound = true
  turns : e.AssignsInTurn

end Expr

/-! ## Statements -/

/-- What a type that may be returned looks like: `void` alone, or a type without `void` in it. -/
def TypeRef.Returnable (t : TypeRef) : Prop := t.isSound = true ∨ ∃ n, t = .void n .none

/-- A variable or field. -/
structure GrammaticalVariable (type : TypeRef) (name : Ident) (init : Option Initializer) : Prop where
  type : type.isSound = true
  name : isName name.name = true
  init : ∀ i, init = some i → i.value.Nested

mutual

/-- What the parser makes in a context. -/
def Statement.Grammatical (c : Context) : Statement → Prop
  | .varDecl _ decl => GrammaticalVariable decl.type decl.name decl.init
  | .expr _ value => value.Standalone
  | .ifElse _ condition thenBlock alternative =>
    condition.Nested ∧ thenBlock.Grammatical (c.nested { Context.none with inIf := true }) ∧
      alternative.Grammatical (c.nested { Context.none with inIf := true })
  | .while _ condition body =>
    condition.Nested ∧ body.Grammatical (c.nested { Context.none with inLoop := true })
  | .tryCatch _ body handler =>
    body.Grammatical (c.nested { Context.none with inTry := true }) ∧
      handler.Grammatical (c.nested { Context.none with inTry := true })
  | .return _ value => c.inFunction = true ∧ ∀ e, value = some e → e.Nested
  | .break _ | .continue _ => c.inLoop = true
  | .block _ body => body.Grammatical (c.nested .none)

def Alternative.Grammatical (c : Context) : Alternative → Prop
  | .none => True
  | .block body => body.Grammatical c
  | .elseIf condition thenBlock alternative =>
    condition.Nested ∧ thenBlock.Grammatical c ∧ alternative.Grammatical c

def Block.Grammatical (c : Context) : Block → Prop
  | .mk _ statements => GrammaticalStatements c statements

def GrammaticalStatements (c : Context) : List Statement → Prop
  | [] => True
  | s :: rest => s.Grammatical c ∧ GrammaticalStatements c rest

end

theorem grammaticalStatements_iff {c : Context} {ss : List Statement} :
    GrammaticalStatements c ss ↔ ∀ s ∈ ss, s.Grammatical c := by
  induction ss with
  | nil => simp [GrammaticalStatements]
  | cons s rest ih => rw [GrammaticalStatements, ih, List.forall_mem_cons]

/-! ## Declarations -/

structure Param.Grammatical (p : Param) : Prop where
  type : p.type.isSound = true
  name : isName p.name.name = true

/-- A function or method. -/
structure GrammaticalCallable (returnType : TypeRef) (params : List Param) (body : Block) : Prop where
  returned : returnType.Returnable
  params : ∀ p ∈ params, p.Grammatical
  body : body.Grammatical .functionBody

/-- Whether there is a symbol for the operator behind the word `operator`. -/
def Operator.isOverloadable : Operator → Bool
  | unary .ref | unary .delete => false
  | _ => true

/-- Free functions have the name that is written; operator functions belong to a class and have the
name of their operator. -/
inductive Function.Written : Function → Prop
  | free (n : Node) (type : TypeRef) (name : Ident) (params : List Param) (body : Block) :
    Written ⟨n, type, name, params, body, none, none⟩
  | operator (n : Node) (type : TypeRef) (op : Operator) (place : Span) (params : List Param)
    (body : Block) (owner : Ident) :
    Written ⟨n, type, ⟨op.overloadName, place⟩, params, body, some owner, some op⟩

structure Function.Grammatical (f : Function) : Prop where
  callable : GrammaticalCallable f.returnType f.params f.body
  written : f.Written
  name : f.operator = none → isName f.name.name = true
  operator : ∀ op, f.operator = some op → op.isOverloadable = true ∧ f.params.length = op.arity

structure Method.Grammatical (m : Method) : Prop where
  callable : GrammaticalCallable m.returnType m.params m.body
  name : isName m.name.name = true

structure Class.Grammatical (c : Class) : Prop where
  name : isName c.name.name = true
  generics : ∀ g ∈ c.generics, isName g.name = true
  superclass : ∀ t, c.superclass = some t → t.isSound = true
  fields : ∀ f ∈ c.fields, GrammaticalVariable f.type f.name f.init
  methods : ∀ m ∈ c.methods, m.Grammatical

structure Program.Grammatical (p : Program) : Prop where
  classes : ∀ c ∈ p.classes, c.Grammatical
  functions : ∀ f ∈ p.functions, f.Grammatical
  owners : ∀ f ∈ p.functions, ∀ owner, f.owner = some owner → owner ∈ p.classes.map Class.name
  statements : GrammaticalStatements .global p.statements

/-! ## Expressions in statements -/

/-- The expression of an expression statement may assign, others that belong to a statement do not. -/
def Statement.RootsGrammatical : Statement → Prop
  | .expr _ value => value.Standalone
  | s => ∀ e ∈ s.roots, e.Nested

theorem Statement.RootsGrammatical.sound : ∀ {s : Statement}, s.RootsGrammatical → ∀ e ∈ s.roots, e.isSound = true
  | .expr .., h => List.forall_mem_singleton.2 (Expr.Standalone.sound h)
  | .varDecl .., h | .ifElse .., h | .while .., h | .tryCatch .., h | .return .., h
  | .break _, h | .continue _, h | .block .., h => fun e listed => (h e listed).sound

theorem Alternative.Grammatical.nested {c : Context} : ∀ {a : Alternative},
    a.Grammatical c → ∀ e ∈ a.conditions, e.Nested
  | .none, _ | .block _, _ => List.forall_mem_nil _
  | .elseIf .., ⟨nested, _, others⟩ => List.forall_mem_cons.2 ⟨nested, others.nested⟩

mutual

theorem Statement.Grammatical.roots {c : Context} : ∀ {s : Statement}, s.Grammatical c →
    ∀ r ∈ s.within, r.RootsGrammatical
  | .varDecl .., h => List.forall_mem_singleton.2 fun e listed => by
    obtain ⟨i, given, rfl⟩ := Option.map_eq_some_iff.1 (Option.mem_toList.1 listed)
    exact GrammaticalVariable.init h i given
  | .expr .., h => List.forall_mem_singleton.2 h
  | .ifElse .., ⟨nested, first, second⟩ => List.forall_mem_cons.2
    ⟨List.forall_mem_cons.2 ⟨nested, second.nested⟩,
      List.forall_mem_append.2 ⟨first.roots, second.roots⟩⟩
  | .while .., ⟨nested, body⟩ => List.forall_mem_cons.2
    ⟨List.forall_mem_singleton.2 nested, body.roots⟩
  | .tryCatch .., ⟨body, handler⟩ => List.forall_mem_cons.2
    ⟨List.forall_mem_nil _, List.forall_mem_append.2 ⟨body.roots, handler.roots⟩⟩
  | .return .., ⟨_, nested⟩ => List.forall_mem_singleton.2 fun e listed =>
    nested e (Option.mem_toList.1 listed)
  | .break _, _ | .continue _, _ => List.forall_mem_singleton.2 (List.forall_mem_nil _)
  | .block .., body => List.forall_mem_cons.2
    ⟨List.forall_mem_nil _, Block.Grammatical.roots body⟩

theorem Alternative.Grammatical.roots {c : Context} : ∀ {a : Alternative},
    a.Grammatical c → ∀ r ∈ a.within, r.RootsGrammatical
  | .none, _ => List.forall_mem_nil _
  | .block _, body => Block.Grammatical.roots body
  | .elseIf .., ⟨_, first, second⟩ => List.forall_mem_append.2 ⟨first.roots, second.roots⟩

theorem Block.Grammatical.roots {c : Context} : ∀ {b : Block}, b.Grammatical c →
    ∀ r ∈ b.within, r.RootsGrammatical
  | .mk .., all => GrammaticalStatements.roots all

theorem GrammaticalStatements.roots {c : Context} : ∀ {ss : List Statement},
    GrammaticalStatements c ss → ∀ r ∈ withinStatements ss, r.RootsGrammatical
  | [], _ => List.forall_mem_nil _
  | _ :: _, ⟨first, others⟩ => List.forall_mem_append.2 ⟨first.roots, others.roots⟩

end

theorem Program.Grammatical.roots {p : Program} (h : p.Grammatical) :
    ∀ r ∈ p.within, r.RootsGrammatical := by
  refine List.forall_mem_append.2 ⟨List.forall_mem_append.2 ⟨?_, ?_⟩, ?_⟩
  · intro r inside
    obtain ⟨c, listed, inside⟩ := List.mem_flatMap.1 inside
    obtain ⟨m, written, inside⟩ := List.mem_flatMap.1 inside
    exact ((h.classes c listed).methods m written).callable.body.roots r inside
  · intro r inside
    obtain ⟨f, listed, inside⟩ := List.mem_flatMap.1 inside
    exact (h.functions f listed).callable.body.roots r inside
  · rw [← withinStatements_eq]
    exact h.statements.roots

theorem Program.Grammatical.sound {p : Program} (h : p.Grammatical) :
    ∀ e ∈ p.wholes, e.isSound = true := by
  refine List.forall_mem_append.2 ⟨fun e listed => ?_, fun e listed => ?_⟩
  · obtain ⟨c, known, listed⟩ := List.mem_flatMap.1 listed
    obtain ⟨f, written, listed⟩ := List.mem_flatMap.1 listed
    obtain ⟨i, given, rfl⟩ := Option.map_eq_some_iff.1 (Option.mem_toList.1 listed)
    exact (((h.classes c known).fields f written).init i given).sound
  · obtain ⟨r, inside, root⟩ := List.mem_flatMap.1 listed
    exact (h.roots r inside).sound e root

/-! ## Jumps -/

mutual

/-- Whether the statement is or holds a jump that no loop of it is around. -/
def Statement.hasLooseJump : Statement → Bool
  | .break _ | .continue _ => true
  | .ifElse _ _ thenBlock alternative => thenBlock.hasLooseJump || alternative.hasLooseJump
  | .tryCatch _ body handler => body.hasLooseJump || handler.hasLooseJump
  | .block _ body => body.hasLooseJump
  | .while .. | .varDecl .. | .expr .. | .return .. => false

/-- Whether the alternative holds a jump that no loop of it is around. -/
def Alternative.hasLooseJump : Alternative → Bool
  | .none => false
  | .block body => body.hasLooseJump
  | .elseIf _ thenBlock alternative => thenBlock.hasLooseJump || alternative.hasLooseJump

/-- Whether the block holds a jump that no loop of it is around. -/
def Block.hasLooseJump : Block → Bool
  | .mk _ statements => anyLooseJump statements

/-- Whether one of the statements is or holds a jump that no loop of it is around. -/
def anyLooseJump : List Statement → Bool
  | [] => false
  | s :: rest => s.hasLooseJump || anyLooseJump rest

end

/-! ## `void` -/

/-- None of the types among some subtrees is `void`. -/
def Voidless (xs : List Subtree) : Prop := ∀ t, .type t ∈ xs → t.isVoid = false

namespace Voidless

variable {xs ys : List Subtree}

theorem nil : Voidless [] := fun _ => nofun

theorem append (h : Voidless xs) (h' : Voidless ys) : Voidless (xs ++ ys) := fun t listed =>
  (List.mem_append.1 listed).elim (h t) (h' t)

theorem cons {x : Subtree} (other : x.type? = none) (h : Voidless xs) : Voidless (x :: xs) := by
  intro t listed
  rcases List.mem_cons.1 listed with rfl | below
  · cases other
  · exact h t below

theorem flatMap {α : Type} {items : List α} {view : α → List Subtree}
    (h : ∀ a ∈ items, Voidless (view a)) : Voidless (items.flatMap view) := by
  intro t listed
  obtain ⟨a, there, below⟩ := List.mem_flatMap.1 listed
  exact h a there t below

end Voidless

mutual

theorem TypeRef.voidless : ∀ {t : TypeRef}, t.isSound = true → Voidless t.subtrees
  | .primitive .., _ | .named .., _ => fun t listed => by
    cases List.mem_singleton.1 listed
    rfl
  | .array _ _ args, sound | .keymap _ _ args, sound => fun t listed => by
    rcases List.mem_cons.1 listed with here | below
    · cases here
      rfl
    · exact voidlessAll sound t below
  | .generic _ _ name args, sound => fun t listed => by
    rcases List.mem_cons.1 listed with here | below
    · cases here
      rfl
    · exact voidlessAll (Bool.and_eq_true_iff.1 sound).2 t below

theorem TypeRef.voidlessAll : ∀ {ts : List TypeRef}, soundAll ts = true → Voidless (subtreesAll ts)
  | [], _ => .nil
  | _ :: _, sound =>
    have ⟨first, others⟩ := Bool.and_eq_true_iff.1 sound
    .append (voidless first) (voidlessAll others)

end

mutual

theorem Expr.voidless : ∀ {e : Expr}, e.all soundHere = true → Voidless e.subtrees
  | .ident .., _ | .this _, _ | .literal .., _ => .cons rfl .nil
  | .list _ _, sound => .cons rfl (voidlessAll (Bool.and_eq_true_iff.1 sound).2)
  | .keymap _ _, sound => .cons rfl (voidlessPairs (Bool.and_eq_true_iff.1 sound).2)
  | .unary .., sound | .member .., sound => .cons rfl (voidless (Bool.and_eq_true_iff.1 sound).2)
  | .new _ _, sound => .cons rfl (TypeRef.voidless sound)
  | .binary .., sound | .index .., sound | .assign .., sound =>
    have ⟨first, right⟩ := Bool.and_eq_true_iff.1 sound
    .cons rfl (.append (voidless (Bool.and_eq_true_iff.1 first).2) (voidless right))
  | .call .., sound =>
    have ⟨first, args⟩ := Bool.and_eq_true_iff.1 sound
    .cons rfl (.append (voidless (Bool.and_eq_true_iff.1 first).2) (voidlessAll args))

theorem Expr.voidlessAll : ∀ {es : List Expr}, allOf soundHere es = true →
    Voidless (subtreesAll es)
  | [], _ => .nil
  | _ :: _, sound =>
    have ⟨first, others⟩ := Bool.and_eq_true_iff.1 sound
    .append (voidless first) (voidlessAll others)

theorem Expr.voidlessPairs : ∀ {pairs : List KeymapPair}, allPairs soundHere pairs = true →
    Voidless (subtreesPairs pairs)
  | [], _ => .nil
  | .mk .. :: _, sound =>
    have ⟨first, others⟩ := Bool.and_eq_true_iff.1 sound
    have ⟨key, value⟩ := Bool.and_eq_true_iff.1 first
    .append (.cons rfl (.append (voidless key) (voidless value))) (voidlessPairs others)

end

/-! ## Programs in order -/

/-- What a function or method gives back is `void` alone, or a type without `void` in it. -/
def TypeRef.MayReturn (t : TypeRef) : Prop := (∃ n, t = .void n .none) ∨ Voidless t.subtrees

/-- A function or method in which each jump has a loop around it, and whose `void`, if there is one,
is its return type. -/
structure PlacedCallable (returnType : TypeRef) (params : List Param) (body : Block) : Prop where
  jumps : body.hasLooseJump = false
  returns : returnType.MayReturn
  voids : Voidless (params.flatMap Param.subtrees ++ body.subtrees)

structure Function.Placed (f : Function) : Prop where
  callable : PlacedCallable f.returnType f.params f.body
  operator : ∀ op, f.operator = some op → f.owner.isSome = true ∧ f.params.length = op.arity
  free : f.operator = none → f.owner = none

structure Class.Placed (c : Class) : Prop where
  superclass : ∀ t, c.superclass = some t → Voidless t.subtrees
  fields : ∀ f ∈ c.fields, Voidless f.subtrees
  methods : ∀ m ∈ c.methods, PlacedCallable m.returnType m.params m.body

structure Program.Placed (p : Program) : Prop where
  classes : ∀ c ∈ p.classes, c.Placed
  functions : ∀ f ∈ p.functions, f.Placed
  jumps : anyLooseJump p.statements = false
  returns : anyContainsReturn p.statements = false
  voids : Voidless (statementSubtrees p.statements)

/-! ## What is grammatical is in order -/

/-- What may stand in a context: jumps, if there is a loop around, returns, if there is a function
around, and no `void`. -/
structure Suits (c : Context) (jumps returns : Bool) (xs : List Subtree) : Prop where
  jumps : c.inLoop = false → jumps = false
  returns : c.inFunction = false → returns = false
  voids : Voidless xs

namespace Suits

variable {c : Context} {jumps returns jumps' returns' : Bool} {xs ys : List Subtree}

theorem ofVoidless (h : Voidless xs) : Suits c false false xs := ⟨fun _ => rfl, fun _ => rfl, h⟩

theorem append (h : Suits c jumps returns xs) (h' : Suits c jumps' returns' ys) :
    Suits c (jumps || jumps') (returns || returns') (xs ++ ys) where
  jumps outside := by rw [h.jumps outside, h'.jumps outside]; rfl
  returns outside := by rw [h.returns outside, h'.returns outside]; rfl
  voids := h.voids.append h'.voids

theorem head (n : Node) (h : Suits c jumps returns xs) : Suits c jumps returns (.head n :: xs) :=
  ⟨h.jumps, h.returns, h.voids.cons rfl⟩

section Nested

variable {extra : Context} (h : Suits (c.nested extra) jumps returns xs)
  (function : extra.inFunction = false)
include h function

theorem loop : Suits c false returns xs where
  jumps _ := rfl
  returns outside :=
    h.returns (by simp [Context.nested, Context.union, Context.combine, outside, function])
  voids := h.voids

/-- What may stand inside a construct that is no loop may stand around it. -/
theorem nested (loop : extra.inLoop = false) : Suits c jumps returns xs where
  jumps outside := h.jumps (by simp [Context.nested, Context.union, Context.combine, outside, loop])
  returns := (h.loop function).returns
  voids := h.voids

end Nested

end Suits

theorem Expr.Nested.suits {c : Context} {e : Expr} (h : e.Nested) : Suits c false false e.subtrees :=
  .ofVoidless (Expr.voidless h.sound)

theorem GrammaticalVariable.voidless {type : TypeRef} {name : Ident} {init : Option Initializer}
    (h : GrammaticalVariable type name init) :
    Voidless (type.subtrees ++ initializerSubtrees init) := by
  refine (TypeRef.voidless h.type).append ?_
  cases init with
  | none => exact .nil
  | some i => exact Expr.voidless (h.init i rfl).sound

mutual

theorem Statement.Grammatical.suits {c : Context} : ∀ {s : Statement}, s.Grammatical c →
    Suits c s.hasLooseJump s.containsReturn s.subtrees
  | .varDecl n _, h => (Suits.ofVoidless (GrammaticalVariable.voidless h)).head n
  | .expr n _, h => (Suits.ofVoidless (Expr.voidless (Expr.Standalone.sound h))).head n
  | .ifElse n .., ⟨condition, first, second⟩ =>
    ((condition.suits.append (first.suits.nested rfl rfl)).append
      (second.suits.nested rfl rfl)).head n
  | .while n .., ⟨condition, body⟩ => (condition.suits.append (body.suits.loop rfl)).head n
  | .tryCatch n .., ⟨body, handler⟩ =>
    ((body.suits.nested rfl rfl).append (handler.suits.nested rfl rfl)).head n
  | .return n value, ⟨inside, nested⟩ => by
    refine ⟨fun _ => rfl, fun outside => absurd inside (by simp [outside]), .cons rfl ?_⟩
    cases value with
    | none => exact .nil
    | some e => exact Expr.voidless (nested e rfl).sound
  | .break n, inside | .continue n, inside =>
    ⟨fun outside => absurd (outside.symm.trans inside) Bool.false_ne_true, fun _ => rfl, .cons rfl .nil⟩
  | .block n _, body => ((Block.Grammatical.suits body).nested rfl rfl).head n

theorem Alternative.Grammatical.suits {c : Context} : ∀ {a : Alternative}, a.Grammatical c →
    Suits c a.hasLooseJump a.containsReturn a.subtrees
  | .none, _ => .ofVoidless .nil
  | .block _, body => Block.Grammatical.suits body
  | .elseIf .., ⟨condition, first, second⟩ =>
    (condition.suits.append first.suits).append second.suits

theorem Block.Grammatical.suits {c : Context} : ∀ {b : Block}, b.Grammatical c →
    Suits c b.hasLooseJump b.containsReturn b.subtrees
  | .mk n _, all => (GrammaticalStatements.suits all).head n

theorem GrammaticalStatements.suits {c : Context} : ∀ {ss : List Statement},
    GrammaticalStatements c ss →
      Suits c (anyLooseJump ss) (anyContainsReturn ss) (statementSubtrees ss)
  | [], _ => .ofVoidless .nil
  | _ :: _, ⟨first, others⟩ => first.suits.append others.suits

end

theorem GrammaticalCallable.placed {returnType : TypeRef} {params : List Param} {body : Block}
    (h : GrammaticalCallable returnType params body) : PlacedCallable returnType params body where
  jumps := h.body.suits.jumps rfl
  returns := (h.returned.imp_left TypeRef.voidless).symm
  voids := by
    refine .append (.flatMap fun p listed => ?_) h.body.suits.voids
    exact .cons rfl (TypeRef.voidless (h.params p listed).type)

theorem Function.Grammatical.placed {f : Function} (h : f.Grammatical) : f.Placed where
  callable := h.callable.placed
  operator op some_ := by
    have counted := (h.operator op some_).2
    obtain ⟨_, type, name, params, body⟩ | ⟨_, type, op', place, params, body, owner⟩ := h.written
    · cases some_
    · exact ⟨rfl, counted⟩
  free none_ := by
    obtain ⟨_, type, name, params, body⟩ | ⟨_, type, op, place, params, body, owner⟩ := h.written
    · rfl
    · cases none_

theorem Class.Grammatical.placed {c : Class} (h : c.Grammatical) : c.Placed where
  superclass t same := TypeRef.voidless (h.superclass t same)
  fields f listed := (h.fields f listed).voidless.cons rfl
  methods m listed := (h.methods m listed).callable.placed

theorem Program.Grammatical.placed {p : Program} (h : p.Grammatical) : p.Placed where
  classes c listed := (h.classes c listed).placed
  functions f listed := (h.functions f listed).placed
  jumps := h.statements.suits.jumps rfl
  returns := h.statements.suits.returns rfl
  voids := h.statements.suits.voids

end ClassLang
