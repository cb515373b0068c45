import ClassLang.Proofs.Syntax.Subtrees

/-!
Lexical scoping: the statements of a body, each with the variables in scope there. A declaration is in
scope from the next statement of its block on, and what a block declares stays inside.

* `Block.scoped_within`: these are the statements of the body at any depth.
* `Block.within_all`: what passes from statements to those in their blocks holds at any depth.
* `Block.scoped_declared`: what is in scope there has been declared before the body or in it.
* `Block.rooted`: every expression in a block belongs to a statement in it.
* `Block.containsReturn_iff`: a body holds a return if one of them is a return.
-/

namespace ClassLang

/-- Variables with the types that they are declared with. The first of a name counts. -/
abbrev Variables := List (String × TypeRef)

/-! ## Parts of statements -/

namespace Alternative

/-- The conditions of the rest of an if chain. -/
def conditions : Alternative → List Expr
  | .none | .block _ => []
  | .elseIf condition _ alternative => condition :: alternative.conditions

def blocks : Alternative → List Block
  | .none => []
  | .block body => [body]
  | .elseIf _ thenBlock alternative => thenBlock :: alternative.blocks

end Alternative

namespace Statement

def conditions : Statement → List Expr
  | .ifElse _ condition _ alternative => condition :: alternative.conditions
  | .while _ condition _ => [condition]
  | _ => []

/-- The blocks that belong to the statement itself. -/
def blocks : Statement → List Block
  | .ifElse _ _ thenBlock alternative => thenBlock :: alternative.blocks
  | .while _ _ body | .block _ body => [body]
  | .tryCatch _ body handler => [body, handler]
  | .varDecl .. | .expr .. | .return .. | .break _ | .continue _ => []

/-- The expressions that belong to the statement itself. -/
def roots : Statement → List Expr
  | .varDecl _ decl => (decl.init.map Initializer.value).toList
  | .expr _ value => [value]
  | .ifElse _ condition _ alternative => condition :: alternative.conditions
  | .while _ condition _ => [condition]
  | .return _ value => value.toList
  | .tryCatch .. | .break _ | .continue _ | .block .. => []

/-- The variable that the statement brings into scope, in a block with some variables. -/
def binds (declared : List String) (s : Statement) : Option (String × TypeRef) :=
  s.varDecl?.bind fun decl =>
    if declared.contains decl.name.name then none else some (decl.name.name, decl.type)

def isReturn : Statement → Bool
  | .return .. => true
  | _ => false

end Statement

/-! ## Statements in scope -/

mutual

/-- The statement and those inside it, each with the variables in scope there. -/
def Statement.scoped (vars : Variables) : Statement → List (Variables × Statement)
  | .varDecl n decl => [(vars, .varDecl n decl)]
  | .expr n value => [(vars, .expr n value)]
  | .ifElse n condition thenBlock alternative =>
    (vars, .ifElse n condition thenBlock alternative) ::
      (thenBlock.scoped vars ++ alternative.scoped vars)
  | .while n condition body => (vars, .while n condition body) :: body.scoped vars
  | .tryCatch n body handler =>
    (vars, .tryCatch n body handler) :: (body.scoped vars ++ handler.scoped vars)
  | .return n value => [(vars, .return n value)]
  | .break n => [(vars, .break n)]
  | .continue n => [(vars, .continue n)]
  | .block n body => (vars, .block n body) :: body.scoped vars

def Alternative.scoped (vars : Variables) : Alternative → List (Variables × Statement)
  | .none => []
  | .block body => body.scoped vars
  | .elseIf _ thenBlock alternative => thenBlock.scoped vars ++ alternative.scoped vars

def Block.scoped (vars : Variables) : Block → List (Variables × Statement)
  | .mk _ statements => scopedStatements vars [] statements

/-- The statements that follow in a block with some variables of its own. -/
def scopedStatements (vars : Variables) (declared : List String) :
    List Statement → List (Variables × Statement)
  | [] => []
  | s :: rest => s.scoped vars ++
    scopedStatements ((s.binds declared).toList ++ vars)
      (((s.binds declared).map Prod.fst).toList ++ declared) rest

end

mutual

/-- The statement and those inside it. -/
def Statement.within : Statement → List Statement
  | .varDecl n decl => [.varDecl n decl]
  | .expr n value => [.expr n value]
  | .ifElse n condition thenBlock alternative =>
    .ifElse n condition thenBlock alternative :: (thenBlock.within ++ alternative.within)
  | .while n condition body => .while n condition body :: body.within
  | .tryCatch n body handler => .tryCatch n body handler :: (body.within ++ handler.within)
  | .return n value => [.return n value]
  | .break n => [.break n]
  | .continue n => [.continue n]
  | .block n body => .block n body :: body.within

def Alternative.within : Alternative → List Statement
  | .none => []
  | .block body => body.within
  | .elseIf _ thenBlock alternative => thenBlock.within ++ alternative.within

/-- The statements of the block at any depth. -/
def Block.within : Block → List Statement
  | .mk _ statements => withinStatements statements

def withinStatements : List Statement → List Statement
  | [] => []
  | s :: rest => s.within ++ withinStatements rest

end

theorem withinStatements_eq (ss : List Statement) :
    withinStatements ss = ss.flatMap Statement.within := by
  induction ss with
  | nil => rfl
  | cons s ss ih => rw [withinStatements, ih, List.flatMap_cons]

mutual

theorem Statement.scoped_within (vars : Variables) :
    ∀ s : Statement, (s.scoped vars).map Prod.snd = s.within
  | .varDecl .. | .expr .. | .return .. | .break _ | .continue _ => rfl
  | .ifElse n condition thenBlock alternative => by
    rw [Statement.scoped, Statement.within, List.map_cons, List.map_append,
      thenBlock.scoped_within vars, alternative.scoped_within vars]
  | .while n condition body => congrArg (_ :: ·) (body.scoped_within vars)
  | .tryCatch n body handler => by
    rw [Statement.scoped, Statement.within, List.map_cons, List.map_append,
      body.scoped_within vars, handler.scoped_within vars]
  | .block n body => congrArg (_ :: ·) (body.scoped_within vars)

theorem Alternative.scoped_within (vars : Variables) :
    ∀ a : Alternative, (a.scoped vars).map Prod.snd = a.within
  | .none => rfl
  | .block body => body.scoped_within vars
  | .elseIf _ thenBlock alternative => by
    rw [Alternative.scoped, Alternative.within, List.map_append, thenBlock.scoped_within vars,
      alternative.scoped_within vars]

theorem Block.scoped_within (vars : Variables) :
    ∀ b : Block, (b.scoped vars).map Prod.snd = b.within
  | .mk _ statements => scopedStatements_within vars [] statements

theorem scopedStatements_within (vars : Variables) (declared : List String) :
    ∀ ss : List Statement, (scopedStatements vars declared ss).map Prod.snd = withinStatements ss
  | [] => rfl
  | s :: rest => by
    rw [scopedStatements, withinStatements, List.map_append, s.scoped_within vars,
      scopedStatements_within _ _ rest]

end

theorem Block.exists_scoped {b : Block} {s : Statement} (inside : s ∈ b.within) (vars : Variables) :
    ∃ here, (here, s) ∈ b.scoped vars := by
  rw [← b.scoped_within vars] at inside
  obtain ⟨⟨here, _⟩, listed, rfl⟩ := List.mem_map.1 inside
  exact ⟨here, listed⟩

theorem Block.mem_within {b : Block} {s : Statement} {vars here : Variables}
    (listed : (here, s) ∈ b.scoped vars) : s ∈ b.within := by
  rw [← b.scoped_within vars]
  exact List.mem_map_of_mem listed

/-! ## Inwards -/

section Inwards

variable {P : Statement → Prop}

/-- What passes from a statement to those in its blocks. -/
def Inward (P : Statement → Prop) (ss : List Statement) : Prop :=
  ∀ s ∈ ss, P s → ∀ b ∈ s.blocks, ∀ inner ∈ b.statements, P inner

theorem Inward.mono {ss tt : List Statement} (h : Inward P tt) (sub : ss ⊆ tt) : Inward P ss :=
  fun s listed => h s (sub listed)

mutual

theorem Statement.within_all : ∀ s : Statement, Inward P s.within → P s → ∀ r ∈ s.within, P r
  | .varDecl .., _, here | .expr .., _, here | .return .., _, here | .break _, _, here
  | .continue _, _, here => List.forall_mem_singleton.2 here
  | .ifElse n condition thenBlock alternative, inward, here => by
    have blocks := List.forall_mem_cons.1 (inward _ (List.mem_cons_self ..) here)
    have inward := inward.mono (List.subset_cons_self ..)
    refine List.forall_mem_cons.2 ⟨here, List.forall_mem_append.2 ⟨?_, ?_⟩⟩
    · exact thenBlock.within_all (inward.mono (List.subset_append_left ..)) blocks.1
    · exact alternative.within_all (inward.mono (List.subset_append_right ..)) blocks.2
  | .while n condition body, inward, here => by
    have blocks := inward _ (List.mem_cons_self ..) here
    exact List.forall_mem_cons.2 ⟨here, body.within_all (inward.mono (List.subset_cons_self ..))
      (blocks body (List.mem_singleton_self _))⟩
  | .tryCatch n body handler, inward, here => by
    have blocks := List.forall_mem_cons.1 (inward _ (List.mem_cons_self ..) here)
    have inward := inward.mono (List.subset_cons_self ..)
    refine List.forall_mem_cons.2 ⟨here, List.forall_mem_append.2 ⟨?_, ?_⟩⟩
    · exact body.within_all (inward.mono (List.subset_append_left ..)) blocks.1
    · exact handler.within_all (inward.mono (List.subset_append_right ..))
        (blocks.2 handler (List.mem_singleton_self _))
  | .block n body, inward, here => by
    have blocks := inward _ (List.mem_cons_self ..) here
    exact List.forall_mem_cons.2 ⟨here, body.within_all (inward.mono (List.subset_cons_self ..))
      (blocks body (List.mem_singleton_self _))⟩

theorem Alternative.within_all : ∀ a : Alternative, Inward P a.within →
    (∀ b ∈ a.blocks, ∀ inner ∈ b.statements, P inner) → ∀ r ∈ a.within, P r
  | .none, _, _ => fun _ => nofun
  | .block body, inward, here => body.within_all inward (here body (List.mem_singleton_self _))
  | .elseIf condition thenBlock alternative, inward, here => by
    have blocks := List.forall_mem_cons.1 here
    refine List.forall_mem_append.2 ⟨?_, ?_⟩
    · exact thenBlock.within_all (inward.mono (List.subset_append_left ..)) blocks.1
    · exact alternative.within_all (inward.mono (List.subset_append_right ..)) blocks.2

/-- What passes inwards holds at any depth of a block if it holds of the statements of the block. -/
theorem Block.within_all : ∀ b : Block, Inward P b.within → (∀ s ∈ b.statements, P s) →
    ∀ r ∈ b.within, P r
  | .mk _ statements, inward, here => withinStatements_all statements inward here

theorem withinStatements_all : ∀ ss : List Statement, Inward P (withinStatements ss) →
    (∀ s ∈ ss, P s) → ∀ r ∈ withinStatements ss, P r
  | [], _, _ => fun _ => nofun
  | s :: rest, inward, here => by
    have parts := List.forall_mem_cons.1 here
    refine List.forall_mem_append.2 ⟨?_, ?_⟩
    · exact s.within_all (inward.mono (List.subset_append_left ..)) parts.1
    · exact withinStatements_all rest (inward.mono (List.subset_append_right ..)) parts.2

end

end Inwards

/-! ## Subtrees -/

theorem Alternative.conditions_subtrees {c : Expr} : ∀ {a : Alternative}, c ∈ a.conditions →
    c.subtrees ⊆ a.subtrees
  | .elseIf _ thenBlock alternative, listed => by
    rw [Alternative.subtrees, List.append_assoc]
    rcases List.mem_cons.1 listed with rfl | later
    · exact List.subset_append_left _ _
    · exact List.subset_append_of_subset_right _
        (List.subset_append_of_subset_right _ (conditions_subtrees later))

theorem Statement.roots_subtrees {e : Expr} {s : Statement} (listed : e ∈ s.roots) :
    e.subtrees ⊆ s.subtrees := by
  cases s with
  | varDecl n decl =>
    obtain ⟨init, given, rfl⟩ := Option.map_eq_some_iff.1 (Option.mem_toList.1 listed)
    refine List.subset_cons_of_subset _ (List.subset_append_of_subset_right _ ?_)
    rw [given]
    exact List.Subset.refl _
  | expr n value =>
    cases List.mem_singleton.1 listed
    exact List.subset_cons_self _ _
  | ifElse n condition thenBlock alternative =>
    rw [Statement.subtrees, List.append_assoc]
    refine List.subset_cons_of_subset _ ?_
    rcases List.mem_cons.1 listed with rfl | later
    · exact List.subset_append_left _ _
    · exact List.subset_append_of_subset_right _
        (List.subset_append_of_subset_right _ (Alternative.conditions_subtrees later))
  | «while» n condition body =>
    cases List.mem_singleton.1 listed
    exact List.subset_cons_of_subset _ (List.subset_append_left _ _)
  | «return» n value =>
    cases Option.mem_toList.1 listed
    exact List.subset_cons_self _ _
  | _ => cases listed

mutual

theorem Statement.within_subtrees {r : Statement} : ∀ s : Statement, r ∈ s.within → r.subtrees ⊆ s.subtrees
  | .varDecl .., listed | .expr .., listed | .return .., listed | .break _, listed
  | .continue _, listed => by
    cases List.mem_singleton.1 listed
    exact List.Subset.refl _
  | .ifElse n condition thenBlock alternative, listed => by
    rcases List.mem_cons.1 listed with rfl | inside
    · exact List.Subset.refl _
    rw [Statement.subtrees, List.append_assoc]
    refine List.subset_cons_of_subset _ (List.subset_append_of_subset_right _ ?_)
    rcases List.mem_append.1 inside with inThen | inElse
    · exact List.subset_append_of_subset_left _ (thenBlock.within_subtrees inThen)
    · exact List.subset_append_of_subset_right _ (alternative.within_subtrees inElse)
  | .while n condition body, listed => by
    rcases List.mem_cons.1 listed with rfl | inside
    · exact List.Subset.refl _
    · exact List.subset_cons_of_subset _
        (List.subset_append_of_subset_right _ (body.within_subtrees inside))
  | .tryCatch n body handler, listed => by
    rcases List.mem_cons.1 listed with rfl | inside
    · exact List.Subset.refl _
    refine List.subset_cons_of_subset _ ?_
    rcases List.mem_append.1 inside with inBody | inHandler
    · exact List.subset_append_of_subset_left _ (body.within_subtrees inBody)
    · exact List.subset_append_of_subset_right _ (handler.within_subtrees inHandler)
  | .block n body, listed => by
    rcases List.mem_cons.1 listed with rfl | inside
    · exact List.Subset.refl _
    · exact List.subset_cons_of_subset _ (body.within_subtrees inside)

theorem Alternative.within_subtrees {r : Statement} :
    ∀ a : Alternative, r ∈ a.within → r.subtrees ⊆ a.subtrees
  | .block body, listed => body.within_subtrees listed
  | .elseIf condition thenBlock alternative, listed => by
    rw [Alternative.subtrees, List.append_assoc]
    refine List.subset_append_of_subset_right _ ?_
    rcases List.mem_append.1 listed with inThen | inElse
    · exact List.subset_append_of_subset_left _ (thenBlock.within_subtrees inThen)
    · exact List.subset_append_of_subset_right _ (alternative.within_subtrees inElse)

theorem Block.within_subtrees {r : Statement} : ∀ b : Block, r ∈ b.within → r.subtrees ⊆ b.subtrees
  | .mk _ statements, listed =>
    List.subset_cons_of_subset _ (withinStatements_subtrees statements listed)

theorem withinStatements_subtrees {r : Statement} : ∀ ss : List Statement,
    r ∈ withinStatements ss → r.subtrees ⊆ statementSubtrees ss
  | s :: rest, listed => by
    rcases List.mem_append.1 listed with inside | later
    · exact List.subset_append_of_subset_left _ (Statement.within_subtrees s inside)
    · exact List.subset_append_of_subset_right _ (withinStatements_subtrees rest later)

end

theorem Statement.scoped_subtrees {s r : Statement} {vars here : Variables}
    (listed : (here, r) ∈ s.scoped vars) : r.subtrees ⊆ s.subtrees :=
  Statement.within_subtrees s (s.scoped_within vars ▸ List.mem_map_of_mem listed)

theorem scopedStatements_subtrees {ss : List Statement} {r : Statement} {vars here : Variables}
    {declared : List String} (listed : (here, r) ∈ scopedStatements vars declared ss) :
    r.subtrees ⊆ statementSubtrees ss :=
  withinStatements_subtrees ss (scopedStatements_within vars declared ss ▸ List.mem_map_of_mem listed)

section Nodes

variable {e : Expr} {r s : Statement}

theorem Statement.roots_nodes (listed : e ∈ s.roots) : e.nodes ⊆ s.nodes := by
  rw [← e.subtrees_nodes, ← s.subtrees_nodes]
  exact List.map_subset _ (Statement.roots_subtrees listed)

theorem Block.within_nodes (b : Block) (listed : r ∈ b.within) : r.nodes ⊆ b.nodes := by
  rw [← r.subtrees_nodes, ← b.subtrees_nodes]
  exact List.map_subset _ (b.within_subtrees listed)

theorem Statement.scoped_nodes {vars here : Variables} (listed : (here, r) ∈ s.scoped vars) :
    r.nodes ⊆ s.nodes := by
  rw [← r.subtrees_nodes, ← s.subtrees_nodes]
  exact List.map_subset _ (Statement.scoped_subtrees listed)

theorem scopedStatements_nodes {ss : List Statement} {vars here : Variables} {declared : List String}
    (listed : (here, r) ∈ scopedStatements vars declared ss) : r.nodes ⊆ statementNodes ss := by
  rw [← r.subtrees_nodes, ← statementSubtrees_nodes]
  exact List.map_subset _ (scopedStatements_subtrees listed)

end Nodes

/-! ## Variables in scope -/

section Declared

variable {xs ys : List Subtree} {vars here : Variables} {r : Statement}

/-- Each variable in scope has been in scope before, or its type is among some subtrees. -/
def Declared (vars : Variables) (xs : List Subtree) (here : Variables) : Prop :=
  ∀ v ∈ here, v ∈ vars ∨ .type v.2 ∈ xs

theorem Declared.mono (h : Declared vars xs here) (sub : xs ⊆ ys) : Declared vars ys here :=
  fun v listed => (h v listed).imp_right (@sub _)

theorem Declared.refl : Declared vars xs vars := fun _ => .inl

theorem Statement.binds_declared {declared : List String} {s : Statement} :
    Declared vars s.subtrees ((s.binds declared).toList ++ vars) := by
  intro v listed
  rcases List.mem_append.1 listed with bound | before
  · obtain ⟨decl, isDecl, bound⟩ := Option.bind_eq_some_iff.1 (Option.mem_toList.1 bound)
    split at bound
    · cases bound
    · cases bound
      cases s with
      | varDecl n decl =>
        cases isDecl
        exact .inr (List.mem_cons_of_mem _ (List.mem_append_left _ decl.type.subtree_mem_subtrees))
      | _ => cases isDecl
  · exact .inl before

mutual

theorem Statement.scoped_declared (vars : Variables) : ∀ s : Statement, (here, r) ∈ s.scoped vars →
    Declared vars s.subtrees here
  | .varDecl .., listed | .expr .., listed | .return .., listed | .break _, listed
  | .continue _, listed => by
    cases List.mem_singleton.1 listed
    exact .refl
  | .ifElse n condition thenBlock alternative, listed => by
    rcases List.mem_cons.1 listed with same | inside
    · cases same
      exact .refl
    rw [Statement.subtrees, List.append_assoc]
    rcases List.mem_append.1 inside with inThen | inElse
    · exact (thenBlock.scoped_declared vars inThen).mono (List.subset_cons_of_subset _
        (List.subset_append_of_subset_right _ (List.subset_append_left _ _)))
    · exact (alternative.scoped_declared vars inElse).mono (List.subset_cons_of_subset _
        (List.subset_append_of_subset_right _ (List.subset_append_right _ _)))
  | .while n condition body, listed => by
    rcases List.mem_cons.1 listed with same | inside
    · cases same
      exact .refl
    · exact (body.scoped_declared vars inside).mono
        (List.subset_cons_of_subset _ (List.subset_append_right _ _))
  | .tryCatch n body handler, listed => by
    rcases List.mem_cons.1 listed with same | inside
    · cases same
      exact .refl
    rcases List.mem_append.1 inside with inBody | inHandler
    · exact (body.scoped_declared vars inBody).mono
        (List.subset_cons_of_subset _ (List.subset_append_left _ _))
    · exact (handler.scoped_declared vars inHandler).mono
        (List.subset_cons_of_subset _ (List.subset_append_right _ _))
  | .block n body, listed => by
    rcases List.mem_cons.1 listed with same | inside
    · cases same
      exact .refl
    · exact (body.scoped_declared vars inside).mono (List.subset_cons_self _ _)

theorem Alternative.scoped_declared (vars : Variables) : ∀ a : Alternative, (here, r) ∈ a.scoped vars →
    Declared vars a.subtrees here
  | .block body, listed => body.scoped_declared vars listed
  | .elseIf condition thenBlock alternative, listed => by
    rw [Alternative.subtrees, List.append_assoc]
    rcases List.mem_append.1 listed with inThen | inElse
    · exact (thenBlock.scoped_declared vars inThen).mono
        (List.subset_append_of_subset_right _ (List.subset_append_left _ _))
    · exact (alternative.scoped_declared vars inElse).mono
        (List.subset_append_of_subset_right _ (List.subset_append_right _ _))

theorem Block.scoped_declared (vars : Variables) : ∀ b : Block, (here, r) ∈ b.scoped vars →
    Declared vars b.subtrees here
  | .mk _ statements, listed =>
    (scopedStatements_declared vars [] statements listed).mono (List.subset_cons_self _ _)

theorem scopedStatements_declared (vars : Variables) (declared : List String) :
    ∀ ss : List Statement, (here, r) ∈ scopedStatements vars declared ss →
      Declared vars (statementSubtrees ss) here
  | s :: rest, listed => by
    rcases List.mem_append.1 listed with inside | later
    · exact (s.scoped_declared vars inside).mono (List.subset_append_left _ _)
    · intro v inScope
      rcases scopedStatements_declared _ _ rest later v inScope with before | inRest
      · exact (Statement.binds_declared v before).imp_right (List.mem_append_left _)
      · exact .inr (List.mem_append_right _ inRest)

end

end Declared

theorem Statement.scoped_eq (vars : Variables) (s : Statement) :
    s.scoped vars = (vars, s) :: (s.scoped vars).tail := by
  cases s <;> rfl

/-! ## Expressions -/

/-- An expression is part of one that belongs to some of the statements itself. -/
def Rooted (e : Expr) (ss : List Statement) : Prop :=
  ∃ s ∈ ss, ∃ root ∈ s.roots, .expr e ∈ root.subtrees

section Rooted

variable {e : Expr}

theorem Rooted.mono {ss tt : List Statement} (h : Rooted e ss) (sub : ss ⊆ tt) : Rooted e tt := by
  obtain ⟨s, listed, inside⟩ := h
  exact ⟨s, sub listed, inside⟩

theorem Rooted.here {root : Expr} {s : Statement} {ss : List Statement} (listed : root ∈ s.roots)
    (inside : .expr e ∈ root.subtrees) : Rooted e (s :: ss) :=
  ⟨s, List.mem_cons_self .., root, listed, inside⟩

theorem below_head {n : Node} {xs : List Subtree} (inside : .expr e ∈ Subtree.head n :: xs) :
    .expr e ∈ xs :=
  (List.mem_cons.1 inside).resolve_left nofun

theorem initializerSubtrees_root {init : Option Initializer}
    (inside : .expr e ∈ initializerSubtrees init) :
    ∃ root ∈ (init.map Initializer.value).toList, .expr e ∈ root.subtrees := by
  cases init with
  | none => cases inside
  | some init => exact ⟨init.value, List.mem_singleton_self _, inside⟩

mutual

theorem Statement.rooted : ∀ s : Statement, .expr e ∈ s.subtrees → Rooted e s.within
  | .varDecl n decl, inside => by
    rcases List.mem_append.1 (below_head inside) with inType | inInit
    · exact absurd inType decl.type.expr_not_mem_subtrees
    · obtain ⟨root, listed, inside⟩ := initializerSubtrees_root inInit
      exact .here listed inside
  | .expr n value, inside => .here (List.mem_singleton_self _) (below_head inside)
  | .ifElse n condition thenBlock alternative, inside => by
    rcases List.mem_append.1 (below_head inside) with inside | inElse
    · rcases List.mem_append.1 inside with inCondition | inThen
      · exact .here (List.mem_cons_self ..) inCondition
      · exact (thenBlock.rooted inThen).mono
          (List.subset_cons_of_subset _ (List.subset_append_left ..))
    · rcases alternative.rooted inElse with ⟨c, listed, inCondition⟩ | inBlock
      · exact .here (List.mem_cons_of_mem _ listed) inCondition
      · exact inBlock.mono (List.subset_cons_of_subset _ (List.subset_append_right ..))
  | .while n condition body, inside => by
    rcases List.mem_append.1 (below_head inside) with inCondition | inBody
    · exact .here (List.mem_singleton_self _) inCondition
    · exact (body.rooted inBody).mono (List.subset_cons_self ..)
  | .tryCatch n body handler, inside => by
    rcases List.mem_append.1 (below_head inside) with inBody | inHandler
    · exact (body.rooted inBody).mono (List.subset_cons_of_subset _ (List.subset_append_left ..))
    · exact (handler.rooted inHandler).mono
        (List.subset_cons_of_subset _ (List.subset_append_right ..))
  | .return n (some value), inside =>
    .here (List.mem_singleton_self _) (below_head inside)
  | .return n none, inside => nomatch below_head inside
  | .break n, inside | .continue n, inside => nomatch below_head inside
  | .block n body, inside =>
    (body.rooted (below_head inside)).mono (List.subset_cons_self ..)

theorem Alternative.rooted : ∀ a : Alternative, .expr e ∈ a.subtrees →
    (∃ c ∈ a.conditions, .expr e ∈ c.subtrees) ∨ Rooted e a.within
  | .block body, inside => .inr (body.rooted inside)
  | .elseIf condition thenBlock alternative, inside => by
    rcases List.mem_append.1 inside with inside | inElse
    · rcases List.mem_append.1 inside with inCondition | inThen
      · exact .inl ⟨condition, List.mem_cons_self .., inCondition⟩
      · exact .inr ((thenBlock.rooted inThen).mono (List.subset_append_left ..))
    · rcases alternative.rooted inElse with ⟨c, listed, inCondition⟩ | inBlock
      · exact .inl ⟨c, List.mem_cons_of_mem _ listed, inCondition⟩
      · exact .inr (inBlock.mono (List.subset_append_right ..))

theorem Block.rooted : ∀ b : Block, .expr e ∈ b.subtrees → Rooted e b.within
  | .mk _ statements, inside =>
    statementSubtrees_rooted statements (below_head inside)

theorem statementSubtrees_rooted : ∀ ss : List Statement, .expr e ∈ statementSubtrees ss →
    Rooted e (withinStatements ss)
  | s :: rest, inside => by
    rcases List.mem_append.1 inside with here | later
    · exact (s.rooted here).mono (List.subset_append_left ..)
    · exact (statementSubtrees_rooted rest later).mono (List.subset_append_right ..)

end

end Rooted

/-! ## Returns -/

mutual

theorem Statement.containsReturn_iff :
    ∀ s : Statement, s.containsReturn = true ↔ ∃ r ∈ s.within, r.isReturn = true
  | .varDecl .. | .expr .. | .return .. | .break _ | .continue _ => by
    simp [Statement.containsReturn, Statement.within, Statement.isReturn]
  | .ifElse _ _ thenBlock alternative => by
    simp [Statement.containsReturn, Statement.within, Statement.isReturn, thenBlock.containsReturn_iff,
      alternative.containsReturn_iff, or_and_right, exists_or]
  | .while _ _ body | .block _ body => by
    simp [Statement.containsReturn, Statement.within, Statement.isReturn, body.containsReturn_iff]
  | .tryCatch _ body handler => by
    simp [Statement.containsReturn, Statement.within, Statement.isReturn, body.containsReturn_iff, handler.containsReturn_iff,
      or_and_right, exists_or]

theorem Alternative.containsReturn_iff :
    ∀ a : Alternative, a.containsReturn = true ↔ ∃ r ∈ a.within, r.isReturn = true
  | .none => by simp [Alternative.containsReturn, Alternative.within]
  | .block body => by rw [Alternative.containsReturn, Alternative.within, body.containsReturn_iff]
  | .elseIf _ thenBlock alternative => by
    simp [Alternative.containsReturn, Alternative.within, thenBlock.containsReturn_iff, alternative.containsReturn_iff,
      or_and_right, exists_or]

theorem Block.containsReturn_iff :
    ∀ b : Block, b.containsReturn = true ↔ ∃ r ∈ b.within, r.isReturn = true
  | .mk _ statements => by rw [Block.containsReturn, Block.within, anyContainsReturn_iff statements]

theorem anyContainsReturn_iff : ∀ ss : List Statement,
    anyContainsReturn ss = true ↔ ∃ r ∈ withinStatements ss, r.isReturn = true
  | [] => by simp [anyContainsReturn, withinStatements]
  | s :: rest => by
    simp [anyContainsReturn, withinStatements, s.containsReturn_iff, anyContainsReturn_iff rest,
      or_and_right, exists_or]

end

/-! ## Programs -/

namespace Program

/-- The statements of the program at any depth. -/
def within (p : Program) : List Statement :=
  (p.classes.flatMap fun c => c.methods.flatMap fun m => m.body.within) ++
    p.functions.flatMap (fun f => f.body.within) ++ p.statements.flatMap Statement.within

/-- The expressions of the program that are in no other: the first values of fields, and those that
belong to a statement. -/
def wholes (p : Program) : List Expr :=
  (p.classes.flatMap fun c => c.fields.flatMap fun f => (f.init.map Initializer.value).toList) ++
    p.within.flatMap Statement.roots

end Program

end ClassLang
