import ClassLang.Proofs.Checking.RuleBlindness

/-!
Types, expressions, statements and bodies are checked without regard to their places, one case for each
form.
-/

namespace ClassLang

variable {v : View}

/-! ## Written types -/

mutual

theorem TypeRef.resolve_blind : ∀ t : TypeRef,
    Blindly v id t.resolve (t.relocate v.move).resolve
  | .primitive n _ _ | .void n _ => .remembered n.id (.pure_same _)
  | .array n mods args => .remembered n.id (arrayType_blind (resolveEach_blind args) n mods)
  | .keymap n mods args => .remembered n.id (keymapType_blind (resolveEach_blind args) n mods)
  | .named n mods name => .remembered n.id (namedType_blind n mods name.name)
  | .generic n mods name args =>
    .remembered n.id (genericType_blind (resolveEach_blind args) n mods name.name)

theorem resolveEach_blind : ∀ types : List TypeRef,
    Blind v id (resolveEach types) (resolveEach (TypeRef.relocateAll v.move types))
  | [] => .pure_same _
  | t :: rest => .bind_same t.resolve_blind.run fun _ =>
      .bind_same (resolveEach_blind rest) fun _ => .pure_same _

end

theorem resolveAll_blind (types : List TypeRef) :
    Blind v id (resolveAll types) (resolveAll (types.map (.relocate v.move))) := by
  have each := resolveEach_blind (v := v) types
  rw [TypeRef.relocateAll_eq] at each
  exact .bind_same each fun _ => .pure_same _

/-! ## Expressions -/

mutual

theorem Expr.infer_blind : ∀ e : Expr, Blindly v id e.infer (e.relocate v.move).infer
  | .ident n name => .remembered n.id (nameType_blind n name.name)
  | .this n => .remembered n.id (thisType_blind n)
  | .literal n value => .remembered n.id (.pure_same value.type)
  | .list n elems => by
    have inner := listType_blind elems (inferEach_blind elems)
    rw [← Expr.relocateAll_eq] at inner
    exact .remembered n.id inner
  | .keymap n pairs => by
    have inner := keymapLiteralType_blind pairs (inferPairs_blind pairs)
    rw [← Expr.relocatePairs_eq] at inner
    exact .remembered n.id inner
  | .binary n op lhs rhs =>
    .remembered n.id (binaryType_blind lhs.infer_blind rhs.infer_blind n op lhs rhs)
  | .unary n op operand => .remembered n.id (unaryType_blind operand.infer_blind n op operand)
  | .new n type => .remembered n.id (newType_blind n type.resolve_blind)
  | .member n target access name =>
    .remembered n.id (memberType_blind n name (receiver_blind target access target.infer_blind))
  | .index n target index =>
    .remembered n.id (indexType_blind target.infer_blind index.infer_blind n target index)
  | .call n callee args => by
    have inner := callType_blind callee.infer_blind callee.inferTarget_blind (.call n callee args)
      callee args (inferEach_blind args)
    rw [← Expr.relocateAll_eq] at inner
    exact .remembered n.id inner
  | .assign n kind target value =>
    .remembered n.id (assignType_blind kind target value target.infer_blind value.infer_blind)

theorem Expr.inferTarget_blind : ∀ e : Expr,
    Blindly v id e.inferTarget (e.relocate v.move).inferTarget
  | .member _ target _ _ => target.infer_blind
  | .ident .. | .this _ | .literal .. | .list .. | .keymap .. | .binary .. | .unary .. | .new ..
  | .index .. | .call .. | .assign .. => .throw

theorem inferEach_blind : ∀ es : List Expr,
    Blind v id (inferEach es) (inferEach (Expr.relocateAll v.move es))
  | [] => .pure_same _
  | e :: rest => .bind_same e.infer_blind.run fun _ =>
      .bind_same (inferEach_blind rest) fun _ => .pure_same _

theorem inferPairs_blind : ∀ pairs : List KeymapPair,
    Blind v id (inferPairs pairs) (inferPairs (Expr.relocatePairs v.move pairs))
  | [] => .pure_same _
  | .mk n key value :: rest =>
    .bind_same (recordedPair_blind n (pairType_blind key.infer_blind value.infer_blind)) fun _ =>
      .bind_same (inferPairs_blind rest) fun _ => .pure_same _

end

/-! ## Statements -/

theorem checkInitializer_blind (target : Resolved) (name : String) (init : Initializer) :
    Blind v id (checkInitializer target name init)
      (checkInitializer target name (init.relocate v.move)) :=
  .bind_same init.value.infer_blind.run fun _ => .succeeds (.bind_same (.settle _) fun _ =>
    .bind_same (.settle _) fun _ => .settleBy_same (checkStore_view ..))

theorem uninitializedFaults_view (name : Ident) (type : Resolved) :
    uninitializedFaults (name.relocate v.move) type =
      (uninitializedFaults name type).map (.relocate v.move) := by
  unfold uninitializedFaults
  cases type with
  | error _ => rfl
  | ok type =>
    dsimp only
    split
    · rfl
    · split <;> rfl

theorem checkVarDecl_blind (declared : List String) (decl : VarDecl) :
    Blind v id (checkVarDecl declared decl) (checkVarDecl declared (decl.relocate v.move)) := by
  refine .bind_same decl.type.resolve_blind.run fun type => ?_
  have rest (sound : Bool) : Blind v id (do
      if declared.contains decl.name.name then
        report ⟨decl.name.span, .variableRedeclared decl.name.name⟩
        return ⟨false, none⟩
      return (⟨type.isOk && sound, some (decl.name.name, type)⟩ : StatementOutcome))
      (do
        if declared.contains decl.name.name then
          report ⟨v.move decl.name.span, .variableRedeclared decl.name.name⟩
          return ⟨false, none⟩
        return (⟨type.isOk && sound, some (decl.name.name, type)⟩ : StatementOutcome)) := by
    split
    · exact .bind_same (.report ⟨decl.name.span, _⟩) fun _ => .pure_same _
    · exact .pure_same _
  obtain ⟨written, name, init⟩ := decl
  cases init with
  | none =>
    have silent := Blind.reportAll (v := v) (uninitializedFaults name type)
    rw [← uninitializedFaults_view] at silent
    exact .bind_same silent rest
  | some init => exact .bind_same (checkInitializer_blind type name.name init) rest

theorem Expr.hasEffect_relocate (f : Span → Span) (e : Expr) :
    (e.relocate f).hasEffect = e.hasEffect := by
  cases e with
  | unary n op operand => cases op <;> rfl
  | _ => rfl

/-- Reports an error that a condition rules out. -/
theorem reportUnless_blind (condition : Bool) (e : CheckError) :
    Blind v id (reportAll (if condition then [] else [e]))
      (reportAll (if condition then [] else [e.relocate v.move])) := by
  cases condition
  · exact .reportAll [e]
  · exact .reportAll []

theorem checkEffect_blind (e : Expr) :
    Blind v id (checkEffect e) (checkEffect (e.relocate v.move)) := by
  refine .bind_same (.succeeds e.infer_blind) fun _ => ?_
  rw [e.hasEffect_relocate, e.span_relocate]
  exact .bind_same (reportUnless_blind e.hasEffect ⟨e.span, .unusedExpression⟩) fun _ => .pure_same _

theorem checkCondition_blind (condition : Expr) :
    Blind v id (checkCondition condition) (checkCondition (condition.relocate v.move)) := by
  refine .succeeds (.bind_same condition.infer_blind fun type => ?_)
  rw [condition.span_relocate]
  split
  · exact .fail condition.span _
  · exact .pure_same _

theorem checkJump_blind (span : Span) (word : Keyword) :
    Blind v id (checkJump span word) (checkJump (v.move span) word) :=
  .read fun scope => reportUnless_blind scope.inLoop ⟨span, .jumpOutsideLoop word⟩

theorem checkReturned_blind (span : Span) (value : Option (Expr × Resolved)) :
    Blindly v id (checkReturned span value)
      (checkReturned (v.move span) (value.map (Prod.map (.relocate v.move) id))) := by
  refine .read fun scope => ?_
  rw [Scope.view_returnType]
  cases scope.returnType with
  | none => exact .fail span _
  | some type =>
    refine .bind_same (.settle _) fun expected => ?_
    cases value with
    | none =>
      dsimp only [Option.map_none]
      split
      · exact .fail span _
      · exact .pure_same _
    | some given =>
      obtain ⟨e, result⟩ := given
      dsimp only [Option.map_some, Prod.map, id_eq]
      rw [e.isPlace_relocate, e.span_relocate]
      have rest : Blindly v id (do
            let type ← settle result
            if !expected.accepts type e.isPlace then
              fail e.span (.mismatchedType expected type none))
          (do
            let type ← settle result
            if !expected.accepts type e.isPlace then
              fail (v.move e.span) (.mismatchedType expected type none)) := by
        refine .bind_same (.settle _) fun type => ?_
        split
        · exact .fail e.span _
        · exact .pure_same _
      split
      · exact .fail_bind span _
      · exact rest

theorem checkReturn_blind (span : Span) (value : Option Expr) :
    Blind v id (checkReturn span value)
      (checkReturn (v.move span) (value.map (.relocate v.move))) := by
  cases value with
  | none => exact .succeeds (checkReturned_blind span none)
  | some e =>
    exact .bind_same e.infer_blind.run fun result =>
      .succeeds (checkReturned_blind span (some (e, result)))

theorem warnUnreachable_blind (span : Span) :
    Blind v id (warnUnreachable span) (warnUnreachable (v.move span)) := by
  refine .read fun scope => ?_
  rw [Scope.view_settings]
  split
  · exact .warn ⟨span, .unreachable⟩
  · exact .pure_same _

theorem Blind.undeclaring {x y : Check Bool} (h : Blind v id x y) :
    Blind v id (undeclaring x) (undeclaring y) := .bind_same h fun _ => .pure_same _

theorem Scope.bindAny_view (bound : Option (String × Resolved)) (scope : Scope) :
    (scope.view v).bindAny bound = (scope.bindAny bound).view v := by
  cases bound <;> rfl

mutual

theorem Statement.check_blind (declared : List String) : ∀ s : Statement,
    Blind v id (s.check declared) ((s.relocate v.move).check declared)
  | .varDecl _ decl => checkVarDecl_blind declared decl
  | .expr _ value => .undeclaring (checkEffect_blind value)
  | .ifElse _ condition thenBlock alternative =>
    .undeclaring (.bind_same (checkCondition_blind condition) fun _ =>
      .bind_same thenBlock.check_blind fun _ => .bind_same alternative.check_blind fun _ =>
        .pure_same _)
  | .while _ condition body =>
    .undeclaring (.bind_same (checkCondition_blind condition) fun _ =>
      .bind_same (.withReader body.check_blind fun _ => rfl) fun _ => .pure_same _)
  | .tryCatch _ body handler =>
    .undeclaring (.bind_same body.check_blind fun _ => .bind_same handler.check_blind fun _ =>
      .pure_same _)
  | .return n value => .undeclaring (checkReturn_blind n.span value)
  | .break n => .undeclaring (checkJump_blind n.span .kwBreak)
  | .continue n => .undeclaring (checkJump_blind n.span .kwContinue)
  | .block _ body => .undeclaring body.check_blind

theorem Alternative.check_blind : ∀ a : Alternative,
    Blind v id a.check (a.relocate v.move).check
  | .none => .pure_same _
  | .block body => body.check_blind
  | .elseIf condition thenBlock alternative =>
    .bind_same (checkCondition_blind condition) fun _ => .bind_same thenBlock.check_blind fun _ =>
      .bind_same alternative.check_blind fun _ => .pure_same _

theorem Block.check_blind : ∀ b : Block, Blind v id b.check (b.relocate v.move).check
  | .mk n statements =>
    .bind_same (checkStatements_blind [] false statements) fun _ => .judge n.id _

theorem checkStatements_blind (declared : List String) (afterJump : Bool) : ∀ ss : List Statement,
    Blind v id (checkStatements declared afterJump ss)
      (checkStatements declared afterJump (relocateStatements v.move ss))
  | [] => .pure_same _
  | s :: rest => by
    have onward : Blind v id (do
          let outcome ← s.check declared
          let sound ← judge s.id outcome.valid
          let declared := outcome.bound.elim declared fun (name, _) => name :: declared
          let restSound ← withReader (Scope.bindAny outcome.bound)
            (checkStatements declared s.isTerminator rest)
          return sound && restSound)
        (do
          let outcome ← (s.relocate v.move).check declared
          let sound ← judge (s.relocate v.move).id outcome.valid
          let declared := outcome.bound.elim declared fun (name, _) => name :: declared
          let restSound ← withReader (Scope.bindAny outcome.bound)
            (checkStatements declared (s.relocate v.move).isTerminator
              (relocateStatements v.move rest))
          return sound && restSound) := by
      rw [s.id_relocate, s.isTerminator_relocate]
      exact .bind_same (s.check_blind declared) fun outcome => .bind_same (.judge _ _) fun _ =>
        .bind_same (.withReader (checkStatements_blind _ _ rest) (Scope.bindAny_view _)) fun _ =>
          .pure_same _
    cases afterJump with
    | false => exact onward
    | true =>
      have warned := warnUnreachable_blind (v := v) s.span
      rw [← s.span_relocate v.move] at warned
      exact .bind_same warned fun _ => onward

end

/-! ## Bodies -/

theorem missingReturnFaults_view (returnType : Option Resolved) (title : String) (body : Block) :
    missingReturnFaults returnType title (body.relocate v.move) =
      (missingReturnFaults returnType title body).map (.relocate v.move) := by
  have span : (body.relocate v.move).span = (v.move body.span) := by
    cases body
    rfl
  unfold missingReturnFaults
  rw [body.containsReturn_relocate, span]
  split
  · split <;> rfl
  · rfl

theorem checkBody_blind (title : String) (body : Block) :
    Blind v id (checkBody title body) (checkBody title (body.relocate v.move)) := by
  refine .bind_same body.check_blind fun sound => .read fun scope => ?_
  rw [Scope.view_returnType, missingReturnFaults_view]
  exact .bind_same (.reportAll _) fun _ => .pure_same _

end ClassLang
