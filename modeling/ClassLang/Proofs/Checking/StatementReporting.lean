import ClassLang.Proofs.Checking.Reporting
import ClassLang.Proofs.Checking.TreeParallels
import ClassLang.Proofs.Syntax.Grammar

/-!
What the checks of statements and bodies report. It points at the statement; and it is plain, but for a
jump without a loop around it and a return without a function. A statement that holds no other is not
warned of by its own check.
-/

namespace ClassLang

variable {α β : Type} {scope : Scope} {allowed : CheckError → Prop} {warned : Warning → Prop}

/-! ## Scopes -/

/-- What may be said of a statement in a scope: that it is out of place only if it has jumps or returns
that need a loop or a function around it. -/
structure Scope.Permits (scope : Scope) (allowed : CheckError → Prop) (spans : List Span)
    (jumps returns : Bool) : Prop where
  plain : Admits allowed spans
  jumps : scope.inLoop = false → jumps = true →
    ∀ span ∈ spans, ∀ word, allowed ⟨span, .jumpOutsideLoop word⟩
  returns : scope.returnType = none → returns = true →
    ∀ span ∈ spans, allowed ⟨span, .returnOutsideFunction⟩

namespace Scope.Permits

variable {spans fewer : List Span} {jumps returns jumps' returns' : Bool}

theorem mono (h : scope.Permits allowed spans jumps returns) (sub : fewer ⊆ spans) :
    scope.Permits allowed fewer jumps returns :=
  ⟨h.plain.mono sub, fun outside has span listed => h.jumps outside has span (sub listed),
    fun outside has span listed => h.returns outside has span (sub listed)⟩

theorem left (h : scope.Permits allowed spans (jumps || jumps') (returns || returns'))
    (sub : fewer ⊆ spans) : scope.Permits allowed fewer jumps returns :=
  mono ⟨h.plain, fun outside has => h.jumps outside (Bool.or_eq_true_iff.2 (.inl has)),
    fun outside has => h.returns outside (Bool.or_eq_true_iff.2 (.inl has))⟩ sub

theorem right (h : scope.Permits allowed spans (jumps || jumps') (returns || returns'))
    (sub : fewer ⊆ spans) : scope.Permits allowed fewer jumps' returns' :=
  mono ⟨h.plain, fun outside has => h.jumps outside (Bool.or_eq_true_iff.2 (.inr has)),
    fun outside has => h.returns outside (Bool.or_eq_true_iff.2 (.inr has))⟩ sub

theorem loop (h : scope.Permits allowed spans false returns) (sub : fewer ⊆ spans) :
    { scope with inLoop := true }.Permits allowed fewer jumps returns :=
  mono ⟨h.plain, nofun, h.returns⟩ sub

theorem bindAny (h : scope.Permits allowed spans jumps returns) (bound : Option (String × Resolved)) :
    (scope.bindAny bound).Permits allowed spans jumps returns := by
  cases bound with
  | none => exact h
  | some _ => exact ⟨h.plain, h.jumps, h.returns⟩

end Scope.Permits

/-! ## Statements -/

theorem checkInitializer_reports (target : Resolved) (name : String) (init : Initializer)
    (here : Admits allowed init.value.spans) :
    Reports allowed warned scope (checkInitializer target name init) :=
  .bind (init.value.infer_reports here) fun _ => .succeeds <| .settle_bind fun _ =>
    .settle_bind fun _ => .settleBy (checkStore_blames _ _ _ _ _)
      (here.only init.value.span_mem_spans)

theorem uninitializedFaults_admitted {name : Ident} (here : Admits allowed [name.span])
    (type : Resolved) : ∀ e ∈ uninitializedFaults name type, allowed e := by
  cases type with
  | error _ => exact fun _ => nofun
  | ok type =>
    unfold uninitializedFaults
    dsimp only
    split
    · exact List.forall_mem_singleton.2 (here.told rfl)
    split
    · exact List.forall_mem_singleton.2 (here.told rfl)
    · exact fun _ => nofun

theorem checkVarDecl_reports (declared : List String) (decl : VarDecl)
    (here : Admits allowed decl.spans) : Reports allowed warned scope (checkVarDecl declared decl) := by
  have named : Admits allowed [decl.name.span] := here.only (List.mem_cons_self ..)
  have typed : Admits allowed decl.type.spans := here.mono (by simp [VarDecl.spans])
  refine .bind (decl.type.resolve_reports typed) fun type => ?_
  have rest (sound : Bool) : Reports allowed warned scope (do
      if declared.contains decl.name.name then
        report ⟨decl.name.span, .variableRedeclared decl.name.name⟩
        return (⟨false, none⟩ : StatementOutcome)
      return ⟨type.isOk && sound, some (decl.name.name, type)⟩) := by
    split
    · exact .bind (.report (named.told rfl)) fun _ => .pure
    · exact .pure
  cases given : decl.init with
  | none => exact .bind (.reportAll (uninitializedFaults_admitted named _)) rest
  | some init =>
    refine .bind (checkInitializer_reports type decl.name.name init (here.mono ?_)) rest
    simp [VarDecl.spans, given]

theorem checkEffect_reports (e : Expr) (here : Admits allowed e.spans) :
    Reports allowed warned scope (checkEffect e) := by
  refine .bind (.succeeds (e.infer_reports here)) fun _ => .bind (.reportAll ?_) fun _ => .pure
  split
  · exact fun _ => nofun
  · exact List.forall_mem_singleton.2 ((here.only e.span_mem_spans).told rfl)

theorem checkCondition_reports (condition : Expr) (here : Admits allowed condition.spans) :
    Reports allowed warned scope (checkCondition condition) := by
  refine .succeeds (.infer_bind (condition.infer_reports here) fun type => ?_)
  split
  · exact .fail ((here.only condition.span_mem_spans).told rfl)
  · exact .pure

/-- A jump is told of only where there is no loop. -/
theorem checkJump_reports {spans : List Span} {returns : Bool}
    (may : scope.Permits allowed spans true returns) {span : Span} (listed : span ∈ spans)
    (word : Keyword) : Reports allowed warned scope (checkJump span word) := by
  refine .read (.reportAll ?_)
  split
  · exact fun _ => nofun
  · rename_i outside
    exact List.forall_mem_singleton.2 (may.jumps (by simpa using outside) rfl span listed word)

/-- A return is told of only where there is no function. -/
theorem checkReturned_reports {spans : List Span} {jumps : Bool}
    (may : scope.Permits allowed spans jumps true) {span : Span} (listed : span ∈ spans)
    {value : Option (Expr × Resolved)} (inside : ∀ e r, value = some (e, r) → e.span ∈ spans) :
    Reports allowed warned scope (checkReturned span value).run := by
  have here : Admits allowed [span] := may.plain.only listed
  refine .read_bind ?_
  split
  · rename_i outside
    exact .fail (may.returns outside rfl span listed)
  refine .settle_bind fun expected => ?_
  split
  · split
    · exact .fail (here.told rfl)
    · exact .pure
  · rename_i e result
    split
    · exact .fail_bind (here.told rfl)
    refine .settle_bind fun type => ?_
    split
    · exact .fail ((may.plain.only (inside e result rfl)).told rfl)
    · exact .pure

theorem checkReturn_reports {spans : List Span} {jumps : Bool}
    (may : scope.Permits allowed spans jumps true) {span : Span} (listed : span ∈ spans)
    {value : Option Expr} (inside : value.elim [] Expr.spans ⊆ spans) :
    Reports allowed warned scope (checkReturn span value) := by
  cases value with
  | none => exact .succeeds (checkReturned_reports may listed (by nofun))
  | some e =>
    refine .bind (e.infer_reports (may.plain.mono inside)) fun _ =>
      .succeeds (checkReturned_reports may listed ?_)
    rintro _ _ ⟨⟩
    exact inside e.span_mem_spans

theorem undeclaring_reports {check : Check Bool} (h : Reports allowed warned scope check) :
    Reports allowed warned scope (undeclaring check) := .bind h fun _ => .pure

theorem warnUnreachable_reports (span : Span) :
    Reports allowed Warning.Any scope (warnUnreachable span) := by
  refine .read ?_
  split
  · exact .warn trivial
  · exact .pure

mutual

theorem Statement.check_reports {scope : Scope} (declared : List String) : ∀ s : Statement,
    scope.Permits allowed s.spans s.hasLooseJump s.containsReturn →
      Reports allowed Warning.Any scope (s.check declared)
  | .varDecl _ decl, may =>
    checkVarDecl_reports declared decl (may.plain.mono (List.subset_cons_self ..))
  | .expr _ value, may =>
    undeclaring_reports (checkEffect_reports value (may.plain.mono (List.subset_cons_self ..)))
  | .ifElse _ condition thenBlock alternative, may => by
    have tested : Reports allowed Warning.Any scope (checkCondition condition) :=
      checkCondition_reports condition (may.plain.mono (by simp [Statement.spans]))
    have first := thenBlock.check_reports (may.left fun _ listed => by simp [Statement.spans, listed])
    have second := alternative.check_reports
      (may.right fun _ listed => by simp [Statement.spans, listed])
    exact undeclaring_reports <| .bind tested fun _ => .bind first fun _ => .bind second fun _ => .pure
  | .while _ condition body, may => by
    have tested : Reports allowed Warning.Any scope (checkCondition condition) :=
      checkCondition_reports condition (may.plain.mono (by simp [Statement.spans]))
    have repeated := body.check_reports (may.loop fun _ listed => by simp [Statement.spans, listed])
    exact undeclaring_reports <| .bind tested fun _ => .bind (.withReader repeated) fun _ => .pure
  | .tryCatch _ body handler, may => by
    have first := body.check_reports (may.left fun _ listed => by simp [Statement.spans, listed])
    have second := handler.check_reports (may.right fun _ listed => by simp [Statement.spans, listed])
    exact undeclaring_reports <| .bind first fun _ => .bind second fun _ => .pure
  | .return n value, may =>
    undeclaring_reports (checkReturn_reports may (List.mem_cons_self ..) (List.subset_cons_self ..))
  | .break n, may => undeclaring_reports (checkJump_reports may (List.mem_cons_self ..) .kwBreak)
  | .continue n, may =>
    undeclaring_reports (checkJump_reports may (List.mem_cons_self ..) .kwContinue)
  | .block _ body, may =>
    undeclaring_reports (body.check_reports (may.mono (List.subset_cons_self ..)))

theorem Alternative.check_reports {scope : Scope} : ∀ a : Alternative,
    scope.Permits allowed a.spans a.hasLooseJump a.containsReturn →
      Reports allowed Warning.Any scope a.check
  | .none, _ => .pure
  | .block body, may => body.check_reports may
  | .elseIf condition thenBlock alternative, may => by
    have tested : Reports allowed Warning.Any scope (checkCondition condition) :=
      checkCondition_reports condition (may.plain.mono (by simp [Alternative.spans]))
    have first := thenBlock.check_reports
      (may.left fun _ listed => by simp [Alternative.spans, listed])
    have second := alternative.check_reports
      (may.right fun _ listed => by simp [Alternative.spans, listed])
    exact .bind tested fun _ => .bind first fun _ => .bind second fun _ => .pure

theorem Block.check_reports {scope : Scope} : ∀ b : Block,
    scope.Permits allowed b.spans b.hasLooseJump b.containsReturn →
      Reports allowed Warning.Any scope b.check
  | .mk n statements, may =>
    .bind (checkStatements_reports [] false statements (may.mono (List.subset_cons_self ..)))
      fun _ => .judge n.id _

theorem checkStatements_reports {scope : Scope} (declared : List String) (afterJump : Bool) :
    ∀ ss : List Statement,
      scope.Permits allowed (statementSpans ss) (anyLooseJump ss) (anyContainsReturn ss) →
        Reports allowed Warning.Any scope (checkStatements declared afterJump ss)
  | [], _ => .pure
  | s :: rest, may => by
    have first := s.check_reports declared (may.left (List.subset_append_left _ _))
    have others := may.right (List.subset_append_right _ _)
    have checked := Reports.bind first fun outcome =>
      .bind (.judge s.id outcome.valid) fun sound =>
      .bind (.withReader (checkStatements_reports
        (outcome.bound.elim declared fun (name, _) => name :: declared) s.isTerminator rest
        (others.bindAny outcome.bound))) fun restSound => .pure (a := sound && restSound)
    unfold checkStatements
    dsimp only
    split
    · exact .bind (warnUnreachable_reports s.span) fun _ => checked
    · exact checked

end

/-! ## Bodies -/

/-- In a body, which has a function around it, only a jump without a loop could be out of place. -/
theorem checkBody_reports (title : String) {body : Block}
    (may : scope.Permits allowed body.spans body.hasLooseJump body.containsReturn) :
    Reports allowed Warning.Any scope (checkBody title body) := by
  refine .bind (body.check_reports may) fun _ => .read <| .bind (.reportAll ?_) fun _ => .pure
  have here : Admits allowed [body.span] := by
    obtain ⟨n, statements⟩ := body
    exact may.plain.only (List.mem_cons_self ..)
  unfold missingReturnFaults
  split
  · split
    · exact List.forall_mem_singleton.2 (here.told rfl)
    · exact fun _ => nofun
  · exact fun _ => nofun

theorem bindParams_reports (params : List Param) (env : Environment)
    (plain : ∀ e : CheckError, e.cause.isPlain = true → allowed e) :
    Reports allowed Warning.Any scope (bindParams env params) := by
  induction params generalizing env with
  | nil => exact .pure
  | cons param rest ih =>
    unfold bindParams
    dsimp only
    split
    · exact .bind (.report (plain _ rfl)) fun _ => .bind (ih env) fun _ => .pure
    · exact .bind (param.type.resolve_reports fun span _ cause => plain ⟨span, cause⟩) fun type =>
        ih _

end ClassLang
