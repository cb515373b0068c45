import ClassLang.Proofs.Checking.RuleParallels

/-!
Written types, expressions, statements and bodies are checked alike in renumbered programs, by
induction on the tree.
-/

namespace ClassLang

variable {p q : Program} {σ : Equiv.Perm Nat} {nodes : Sight}

/-- The nodes are among those that the same is known of. -/
def Inside (nodes : Sight) (xs : List Node) : Prop := ∀ n ∈ xs, nodes n.id

theorem Inside.mono {xs ys : List Node} (inside : Inside nodes ys) (sub : xs ⊆ ys) :
    Inside nodes xs := fun n listed => inside n (sub listed)

theorem Inside.append_iff {xs ys : List Node} :
    Inside nodes (xs ++ ys) ↔ Inside nodes xs ∧ Inside nodes ys := List.forall_mem_append

/-! ## Written types -/

mutual

theorem TypeRef.resolve_along (h : p.Renumbered q σ) : ∀ t : TypeRef, Inside nodes t.nodes →
    Along p q σ nodes id t.resolve t.resolve
  | .primitive n m kind, inside | .void n m, inside =>
    .remembered (.pure rfl) (inside n (by simp [TypeRef.nodes]))
  | .named n m name, inside =>
    .remembered (namedType_along h n m name.name) (inside n (by simp [TypeRef.nodes]))
  | .array n m args, inside => by
    have inner := resolveEach_parallel h args (inside.mono (List.subset_cons_self n _))
    exact .remembered (arrayType_along inner n m) (inside n (by simp [TypeRef.nodes]))
  | .keymap n m args, inside => by
    have inner := resolveEach_parallel h args (inside.mono (List.subset_cons_self n _))
    exact .remembered (keymapType_along inner n m) (inside n (by simp [TypeRef.nodes]))
  | .generic n m name args, inside => by
    have inner := resolveEach_parallel h args (inside.mono (List.subset_cons_self n _))
    exact .remembered (genericType_along h inner n m name.name) (inside n (by simp [TypeRef.nodes]))

theorem resolveEach_parallel (h : p.Renumbered q σ) : ∀ ts : List TypeRef,
    Inside nodes (TypeRef.nodesAll ts) → Parallel p q σ nodes id (resolveEach ts) (resolveEach ts)
  | [], _ => .pure rfl
  | t :: rest, inside => by
    have first := t.resolve_along h (inside.mono (List.subset_append_left _ _))
    have others := resolveEach_parallel h rest (inside.mono (List.subset_append_right _ _))
    exact .bind first.run fun _ => .bind others fun _ => .pure rfl

end

theorem resolveAll_parallel (h : p.Renumbered q σ) (types : List TypeRef)
    (inside : Inside nodes (TypeRef.nodesAll types)) :
    Parallel p q σ nodes id (resolveAll types) (resolveAll types) :=
  .bind (resolveEach_parallel h types inside) fun _ => .pure rfl

/-! ## Expressions -/

mutual

theorem Expr.infer_along (h : p.Renumbered q σ) (reads : nodes.Reads p) :
    ∀ e : Expr, Inside nodes e.nodes → Along p q σ nodes id e.infer e.infer
  | .ident n name, inside =>
    .remembered (nameType_along h reads n name.name) (inside n (by simp [Expr.nodes]))
  | .this n, inside => .remembered (thisType_along n h) (inside n (by simp [Expr.nodes]))
  | .literal n value, inside => .remembered (.pure rfl) (inside n (by simp [Expr.nodes]))
  | .list n elems, inside => by
    have inner := inferEach_parallel h reads elems (inside.mono (List.subset_cons_self n _))
    exact .remembered (listType_along elems inner) (inside n (by simp [Expr.nodes]))
  | .keymap n pairs, inside => by
    have inner := inferPairs_parallel h reads pairs (inside.mono (List.subset_cons_self n _))
    exact .remembered (keymapLiteralType_along pairs inner) (inside n (by simp [Expr.nodes]))
  | .binary n op lhs rhs, inside => by
    have left := lhs.infer_along h reads (inside.mono (by simp [Expr.nodes]))
    have right := rhs.infer_along h reads (inside.mono (by simp [Expr.nodes]))
    exact .remembered (binaryType_along h reads left right n op lhs rhs)
      (inside n (by simp [Expr.nodes]))
  | .unary n op operand, inside => by
    have inner := operand.infer_along h reads (inside.mono (by simp [Expr.nodes]))
    exact .remembered (unaryType_along h reads inner n op operand) (inside n (by simp [Expr.nodes]))
  | .new n type, inside => by
    have inner := type.resolve_along h (inside.mono (by simp [Expr.nodes]))
    exact .remembered (newType_along inner n) (inside n (by simp [Expr.nodes]))
  | .member n target access name, inside => by
    have inner := target.infer_along h reads (inside.mono (by simp [Expr.nodes]))
    have there := inside target.node (by simp [Expr.nodes, target.node_mem_nodes])
    exact .remembered (memberType_along h reads n name (receiver_along h reads inner there))
      (inside n (by simp [Expr.nodes]))
  | .index n target index, inside => by
    have left := target.infer_along h reads (inside.mono (by simp [Expr.nodes]))
    have right := index.infer_along h reads (inside.mono (by simp [Expr.nodes]))
    exact .remembered (indexType_along h reads left right n target index)
      (inside n (by simp [Expr.nodes]))
  | .call n callee args, inside => by
    have inner := callee.infer_along h reads (inside.mono (by simp [Expr.nodes]))
    have innerTarget := callee.inferTarget_along h reads (inside.mono (by simp [Expr.nodes]))
    have innerArgs := inferEach_parallel h reads args (inside.mono (by simp [Expr.nodes]))
    have there := inside callee.node (by simp [Expr.nodes, callee.node_mem_nodes])
    exact .remembered (callType_along h reads inner innerTarget.2 innerTarget.1 _ args innerArgs there)
      (inside n (by simp [Expr.nodes]))
  | .assign n kind target value, inside => by
    have left := target.infer_along h reads (inside.mono (by simp [Expr.nodes]))
    have right := value.infer_along h reads (inside.mono (by simp [Expr.nodes]))
    exact .remembered (assignType_along left right kind target value)
      (inside n (by simp [Expr.nodes]))

theorem Expr.inferTarget_along (h : p.Renumbered q σ) (reads : nodes.Reads p) :
    ∀ e : Expr, Inside nodes e.nodes →
      (∀ n target access name, e = .member n target access name → nodes target.id) ∧
        Along p q σ nodes id e.inferTarget e.inferTarget
  | .member n target access name, inside => by
    refine ⟨?_, target.infer_along h reads (inside.mono (by simp [Expr.nodes]))⟩
    rintro _ _ _ _ ⟨⟩
    exact inside target.node (by simp [Expr.nodes, target.node_mem_nodes])
  | .ident .., _ | .this _, _ | .literal .., _ | .list .., _ | .keymap .., _ | .binary .., _
  | .unary .., _ | .new .., _ | .index .., _ | .call .., _ | .assign .., _ => ⟨nofun, .throw⟩

theorem inferEach_parallel (h : p.Renumbered q σ) (reads : nodes.Reads p) :
    ∀ es : List Expr, Inside nodes (Expr.nodesAll es) →
      Parallel p q σ nodes id (inferEach es) (inferEach es)
  | [], _ => .pure rfl
  | e :: rest, inside => by
    have first := e.infer_along h reads (inside.mono (List.subset_append_left _ _))
    have others := inferEach_parallel h reads rest (inside.mono (List.subset_append_right _ _))
    exact .bind first.run fun _ => .bind others fun _ => .pure rfl

theorem inferPairs_parallel (h : p.Renumbered q σ) (reads : nodes.Reads p) :
    ∀ pairs : List KeymapPair, Inside nodes (Expr.nodesPairs pairs) →
      Parallel p q σ nodes id (inferPairs pairs) (inferPairs pairs)
  | [], _ => .pure rfl
  | .mk n key value :: rest, inside => by
    have left := key.infer_along h reads (inside.mono (by simp [Expr.nodesPairs]))
    have right := value.infer_along h reads (inside.mono fun _ listed => by simp [Expr.nodesPairs, listed])
    have others := inferPairs_parallel h reads rest
      (inside.mono fun _ listed => by simp [Expr.nodesPairs, listed])
    have pair := recordedPair_parallel n (pairType_along left right)
      (inside n (by simp [Expr.nodesPairs]))
    exact .bind pair fun _ => .bind others fun _ => .pure rfl

end

/-! ## Statements -/

section Statements

variable (h : p.Renumbered q σ) (reads : nodes.Reads p)
include h reads

theorem checkInitializer_parallel (target : Resolved) (name : String) {init : Initializer}
    (inside : Inside nodes init.nodes) :
    Parallel p q σ nodes id (checkInitializer target name init) (checkInitializer target name init) :=
  .bind (init.value.infer_along h reads inside).run fun _ => .succeeds <|
    .bind_same .settle_same fun _ => .bind_same .settle_same fun _ =>
      .settleBy_same (checkStore_blames _ _ _ _ _).plain

omit h reads in
theorem uninitializedFaults_plain (name : Ident) (type : Resolved) :
    ∀ e ∈ uninitializedFaults name type, e.cause.isPlain = true := by
  cases type with
  | error _ => exact fun _ => nofun
  | ok type =>
    unfold uninitializedFaults
    dsimp only
    split
    · exact List.forall_mem_singleton.2 rfl
    split
    · exact List.forall_mem_singleton.2 rfl
    · exact fun _ => nofun

theorem checkVarDecl_parallel (declared : List String) {decl : VarDecl}
    (inside : Inside nodes decl.nodes) :
    Parallel p q σ nodes id (checkVarDecl declared decl) (checkVarDecl declared decl) := by
  have written := decl.type.resolve_along h
    (inside.mono (show decl.type.nodes ⊆ _ by simp [VarDecl.nodes]))
  refine .bind written.run fun type => ?_
  have rest (sound : Bool) : Parallel p q σ nodes id
      (do
        if declared.contains decl.name.name then
          report ⟨decl.name.span, .variableRedeclared decl.name.name⟩
          return (⟨false, none⟩ : StatementOutcome)
        return ⟨type.isOk && sound, some (decl.name.name, type)⟩)
      (do
        if declared.contains decl.name.name then
          report ⟨decl.name.span, .variableRedeclared decl.name.name⟩
          return (⟨false, none⟩ : StatementOutcome)
        return ⟨type.isOk && sound, some (decl.name.name, type)⟩) := by
    split
    · exact .bind (.report rfl) fun _ => .pure rfl
    · exact .pure rfl
  cases given : decl.init with
  | none => exact .bind (.reportPlain (uninitializedFaults_plain _ _)) rest
  | some init =>
    refine .bind (checkInitializer_parallel h reads type decl.name.name (inside.mono ?_)) rest
    simp [VarDecl.nodes, given, initializerNodes]

theorem checkEffect_parallel {e : Expr} (inside : Inside nodes e.nodes) :
    Parallel p q σ nodes id (checkEffect e) (checkEffect e) := by
  refine .bind (.succeeds (e.infer_along h reads inside)) fun _ =>
    .bind (.reportAll ?_) fun _ => .pure rfl
  split
  · exact fun _ => nofun
  · exact List.forall_mem_singleton.2 rfl

theorem checkCondition_parallel (condition : Expr) (inside : Inside nodes condition.nodes) :
    Parallel p q σ nodes id (checkCondition condition) (checkCondition condition) := by
  refine .succeeds (.bind_same (condition.infer_along h reads inside) fun type => ?_)
  split
  · exact .fail rfl
  · exact .pure rfl

omit h reads in
theorem checkJump_parallel (span : Span) (word : Keyword) :
    Parallel p q σ nodes id (checkJump span word) (checkJump span word) := by
  refine .read fun scope _ => ?_
  rw [Scope.mirrored_inLoop]
  refine .reportAll ?_
  split
  · exact fun _ => nofun
  · exact List.forall_mem_singleton.2 rfl

omit h reads in
theorem checkReturned_along (span : Span) (value : Option (Expr × Resolved)) :
    Along p q σ nodes id (checkReturned span value) (checkReturned span value) := by
  refine .read_bind fun scope _ => ?_
  rw [Scope.mirrored_returnType]
  cases scope.returnType with
  | none => exact .fail rfl
  | some type =>
    refine .bind_same .settle_same fun expected => ?_
    cases value with
    | none =>
      dsimp only
      split
      · exact .fail rfl
      · exact .pure rfl
    | some returned =>
      obtain ⟨e, result⟩ := returned
      dsimp only
      split
      · exact .fail_bind rfl
      refine .bind_same .settle_same fun type => ?_
      split
      · exact .fail rfl
      · exact .pure rfl

theorem checkReturn_parallel (span : Span) {value : Option Expr}
    (inside : ∀ e, value = some e → Inside nodes e.nodes) :
    Parallel p q σ nodes id (checkReturn span value) (checkReturn span value) := by
  cases value with
  | none => exact .succeeds (checkReturned_along span none)
  | some e =>
    exact .bind (e.infer_along h reads (inside e rfl)).run fun _ =>
      .succeeds (checkReturned_along span _)

omit h reads in
theorem warnUnreachable_parallel (span : Span) :
    Parallel p q σ nodes id (warnUnreachable span) (warnUnreachable span) := by
  refine .read fun scope _ => ?_
  rw [Scope.mirrored_settings]
  split
  · exact .warn _
  · exact .pure rfl

omit h reads in
theorem undeclaring_parallel {check : Check Bool} (inner : Parallel p q σ nodes id check check) :
    Parallel p q σ nodes id (undeclaring check) (undeclaring check) :=
  .bind inner fun _ => .pure rfl

omit h reads in
/-- Surroundings that change in the same way, apart from the program and the class around. -/
theorem Parallel.inner {α : Type} {x : Check α} (change : Scope → Scope)
    (inner : Parallel p q σ nodes id x x)
    (same : ∀ scope, (change scope).program = scope.program)
    (mirrored : ∀ scope : Scope, change (scope.mirrored q σ) = (change scope).mirrored q σ) :
    Parallel p q σ nodes id (MonadWithReader.withReader change x : Check α)
      (MonadWithReader.withReader change x : Check α) :=
  .withReader inner fun scope program => ⟨(same scope).trans program, mirrored scope⟩

end Statements

mutual

theorem Statement.check_parallel (h : p.Renumbered q σ) (reads : nodes.Reads p)
    (declared : List String) : ∀ s : Statement, Inside nodes s.nodes →
      Parallel p q σ nodes id (s.check declared) (s.check declared)
  | .varDecl n decl, inside => checkVarDecl_parallel h reads declared (inside.mono (by
      simp [Statement.nodes]))
  | .expr n value, inside =>
    undeclaring_parallel (checkEffect_parallel h reads (inside.mono (by simp [Statement.nodes])))
  | .ifElse n condition thenBlock alternative, inside => by
    have tested := checkCondition_parallel h reads condition
      (inside.mono (by simp [Statement.nodes]))
    have first := thenBlock.check_parallel h reads
      (inside.mono fun _ listed => by simp [Statement.nodes, listed])
    have second := alternative.check_parallel h reads
      (inside.mono fun _ listed => by simp [Statement.nodes, listed])
    exact undeclaring_parallel (.bind tested fun _ => .bind first fun _ => .bind second fun _ =>
      .pure rfl)
  | .while n condition body, inside => by
    have tested := checkCondition_parallel h reads condition
      (inside.mono (by simp [Statement.nodes]))
    have repeated := body.check_parallel h reads
      (inside.mono fun _ listed => by simp [Statement.nodes, listed])
    exact undeclaring_parallel (.bind tested fun _ =>
      .bind (repeated.inner _ (fun _ => rfl) fun _ => rfl) fun _ => .pure rfl)
  | .tryCatch n body handler, inside => by
    have first := body.check_parallel h reads
      (inside.mono fun _ listed => by simp [Statement.nodes, listed])
    have second := handler.check_parallel h reads
      (inside.mono fun _ listed => by simp [Statement.nodes, listed])
    exact undeclaring_parallel (.bind first fun _ => .bind second fun _ => .pure rfl)
  | .return n value, inside => by
    refine undeclaring_parallel (checkReturn_parallel h reads n.span fun e same => ?_)
    subst same
    exact inside.mono (by simp [Statement.nodes])
  | .break n, _ | .continue n, _ => undeclaring_parallel (checkJump_parallel n.span _)
  | .block n body, inside =>
    undeclaring_parallel (body.check_parallel h reads
      (inside.mono fun _ listed => by simp [Statement.nodes, listed]))

theorem Alternative.check_parallel (h : p.Renumbered q σ)
    (reads : nodes.Reads p) : ∀ a : Alternative, Inside nodes a.nodes →
      Parallel p q σ nodes id a.check a.check
  | .none, _ => .pure rfl
  | .block body, inside => body.check_parallel h reads inside
  | .elseIf condition thenBlock alternative, inside => by
    have tested := checkCondition_parallel h reads condition
      (inside.mono (by simp [Alternative.nodes]))
    have first := thenBlock.check_parallel h reads
      (inside.mono fun _ listed => by simp [Alternative.nodes, listed])
    have second := alternative.check_parallel h reads
      (inside.mono fun _ listed => by simp [Alternative.nodes, listed])
    exact .bind tested fun _ => .bind first fun _ => .bind second fun _ => .pure rfl

theorem Block.check_parallel (h : p.Renumbered q σ) (reads : nodes.Reads p) :
    ∀ b : Block, Inside nodes b.nodes → Parallel p q σ nodes id b.check b.check
  | .mk n statements, inside => by
    have inner := checkStatements_parallel h reads [] false statements
      (inside.mono (by simp [Block.nodes]))
    exact .bind inner fun _ => .judge _ (inside n (by simp [Block.nodes]))

theorem checkStatements_parallel (h : p.Renumbered q σ) (reads : nodes.Reads p)
    (declared : List String) (afterJump : Bool) : ∀ ss : List Statement,
      Inside nodes (statementNodes ss) → Parallel p q σ nodes id (checkStatements declared afterJump ss)
        (checkStatements declared afterJump ss)
  | [], _ => .pure rfl
  | s :: rest, inside => by
    have checked := s.check_parallel h reads declared (inside.mono (by simp [statementNodes]))
    have others (declared : List String) := checkStatements_parallel h reads declared
      s.isTerminator rest (inside.mono (by simp [statementNodes]))
    have here : nodes s.id := inside s.node
      (List.mem_append_left _ (s.nodes_eq ▸ List.mem_cons_self ..))
    have found := Parallel.bind_same checked fun outcome =>
      Parallel.bind_same (.judge outcome.valid here) fun sound => Parallel.bind_same
        ((others (outcome.bound.elim declared fun (name, _) => name :: declared)).inner
          (Scope.bindAny outcome.bound) (Scope.bindAny_program outcome.bound) fun scope => by
            cases outcome.bound <;> rfl)
        fun restSound => Parallel.pure_same (sound && restSound)
    unfold checkStatements
    dsimp only
    split
    · exact .bind (warnUnreachable_parallel s.span) fun _ => found
    · exact found

end

/-! ## Bodies -/

section Bodies

variable (h : p.Renumbered q σ) (reads : nodes.Reads p)
include h reads

omit h reads in
theorem missingReturnFaults_plain (returnType : Option Resolved) (title : String) (body : Block) :
    ∀ e ∈ missingReturnFaults returnType title body, e.cause.isPlain = true := by
  unfold missingReturnFaults
  split
  · split
    · exact List.forall_mem_singleton.2 rfl
    · exact fun _ => nofun
  · exact fun _ => nofun

theorem checkBody_parallel (title : String) {body : Block} (inside : Inside nodes body.nodes) :
    Parallel p q σ nodes id (checkBody title body) (checkBody title body) := by
  refine .bind (body.check_parallel h reads inside) fun _ => .read fun scope _ => ?_
  rw [Scope.mirrored_returnType]
  exact .bind (.reportPlain (missingReturnFaults_plain _ _ _)) fun _ => .pure rfl

omit reads in
theorem bindParams_parallel (params : List Param) (env : Environment)
    (inside : Inside nodes (TypeRef.nodesAll (params.map Param.type))) :
    Parallel p q σ nodes id (bindParams env params) (bindParams env params) := by
  induction params generalizing env with
  | nil => exact .pure rfl
  | cons param rest ih =>
    have others := inside.mono (List.subset_append_right _ _)
    have written := param.type.resolve_along h (inside.mono (List.subset_append_left _ _))
    unfold bindParams
    dsimp only
    split
    · exact .bind (.report rfl) fun _ => .bind (ih env others) fun _ => .pure rfl
    · exact .bind written.run fun type => ih _ others

theorem checkCallable_parallel (title : String) {params : List Param} {returnType : TypeRef}
    {body : Block}
    (inside : Inside nodes (TypeRef.nodesAll (params.map Param.type ++ [returnType]) ++ body.nodes)) :
    Parallel p q σ nodes id (checkCallable title params returnType body)
      (checkCallable title params returnType body) := by
  rw [TypeRef.nodesAll_append] at inside
  have types := inside.mono (List.subset_append_left _ _)
  have returned : Inside nodes returnType.nodes :=
    types.mono fun _ listed => List.mem_append_right _ (by simp [TypeRef.nodesAll, listed])
  refine .bind (bindParams_parallel h params _ (types.mono (List.subset_append_left _ _)))
    fun bound => .bind (returnType.resolve_along h returned).run fun type => ?_
  refine .bind (.inner (·.inBody bound.1 type) (checkBody_parallel h reads title ?_) (fun _ => rfl)
    fun _ => rfl) fun _ => .pure rfl
  exact inside.mono (List.subset_append_right _ _)

end Bodies

end ClassLang
