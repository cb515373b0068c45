import ClassLang.Proofs.Checking.RuleParallels

/-!
What checks report. `Reports allowed warned scope x` says that `x`, run in a scope, reports no error but
such as are allowed and warns of nothing but some things; each combinator has one rule for it. What is
said about a type or an expression is plain, and points at it: at one of its nodes, at the name of a
member, or at that of a variable. There is no warning about them.
-/

namespace ClassLang

/-! ## Where it points -/

def TypeRef.spans (t : TypeRef) : List Span := t.nodes.map Node.span

def TypeRef.spansAll (ts : List TypeRef) : List Span := (nodesAll ts).map Node.span

namespace Expr

mutual

def spans : Expr → List Span
  | ident n _ | this n | literal n _ => [n.span]
  | list n elems => n.span :: spansAll elems
  | keymap n pairs => n.span :: spansPairs pairs
  | binary n _ a b | index n a b | assign n _ a b => n.span :: (a.spans ++ b.spans)
  | unary n _ operand => n.span :: operand.spans
  | new n type => n.span :: type.spans
  | member n target _ name => n.span :: name.span :: target.spans
  | call n callee args => n.span :: (callee.spans ++ spansAll args)

def spansAll : List Expr → List Span
  | [] => []
  | e :: rest => e.spans ++ spansAll rest

def spansPairs : List KeymapPair → List Span
  | [] => []
  | .mk n key value :: rest => n.span :: (key.spans ++ value.spans) ++ spansPairs rest

end

theorem span_mem_spans (e : Expr) : e.span ∈ e.spans := by cases e <;> exact List.mem_cons_self ..

theorem map_span_subset (es : List Expr) : es.map span ⊆ spansAll es := by
  induction es with
  | nil => exact List.nil_subset _
  | cons e rest ih =>
    exact List.cons_subset.2 ⟨List.mem_append_left _ e.span_mem_spans,
      List.subset_append_of_subset_right _ ih⟩

theorem map_key_subset (pairs : List KeymapPair) :
    (pairs.map fun pair => pair.key.span) ⊆ spansPairs pairs := by
  induction pairs with
  | nil => exact List.nil_subset _
  | cons pair rest ih =>
    obtain ⟨n, key, value⟩ := pair
    refine List.cons_subset.2 ⟨?_, List.subset_append_of_subset_right _ ih⟩
    exact List.mem_append_left _ (List.mem_cons_of_mem _ (List.mem_append_left _ key.span_mem_spans))

theorem map_value_subset (pairs : List KeymapPair) :
    (pairs.map fun pair => pair.value.span) ⊆ spansPairs pairs := by
  induction pairs with
  | nil => exact List.nil_subset _
  | cons pair rest ih =>
    obtain ⟨n, key, value⟩ := pair
    refine List.cons_subset.2 ⟨?_, List.subset_append_of_subset_right _ ih⟩
    exact List.mem_append_left _
      (List.mem_cons_of_mem _ (List.mem_append_right _ value.span_mem_spans))

end Expr

def VarDecl.spans (d : VarDecl) : List Span :=
  d.name.span :: (d.type.spans ++ d.init.elim [] fun init => init.value.spans)

mutual

def Statement.spans : Statement → List Span
  | .varDecl n decl => n.span :: decl.spans
  | .expr n value => n.span :: value.spans
  | .ifElse n condition thenBlock alternative =>
    n.span :: (condition.spans ++ thenBlock.spans ++ alternative.spans)
  | .while n condition body => n.span :: (condition.spans ++ body.spans)
  | .tryCatch n body handler => n.span :: (body.spans ++ handler.spans)
  | .return n value => n.span :: value.elim [] Expr.spans
  | .break n | .continue n => [n.span]
  | .block n body => n.span :: body.spans

def Alternative.spans : Alternative → List Span
  | .none => []
  | .block body => body.spans
  | .elseIf condition thenBlock alternative =>
    condition.spans ++ thenBlock.spans ++ alternative.spans

def Block.spans : Block → List Span
  | .mk n statements => n.span :: statementSpans statements

def statementSpans : List Statement → List Span
  | [] => []
  | s :: rest => s.spans ++ statementSpans rest

end

/-! ## What is reported -/

variable {α β : Type} {scope : Scope} {allowed : CheckError → Prop} {warned : Warning → Prop}

def Reports (allowed : CheckError → Prop) (warned : Warning → Prop) (scope : Scope) (x : Check α) :
    Prop :=
  ∀ s : CheckState,
    (∃ errors, (x.exec scope s).2.errors = s.errors ++ errors ∧ ∀ e ∈ errors, allowed e) ∧
      ∃ warnings, (x.exec scope s).2.warnings = s.warnings ++ warnings ∧ ∀ w ∈ warnings, warned w

/-- Where it does not matter what is warned of. -/
def Warning.Any (_ : Warning) : Prop := True

/-- Whatever is plain may be said about some places. -/
def Admits (allowed : CheckError → Prop) (spans : List Span) : Prop :=
  ∀ span ∈ spans, ∀ cause : CheckCause, cause.isPlain = true → allowed ⟨span, cause⟩

namespace Admits

variable {spans fewer : List Span} {span : Span}

theorem mono (h : Admits allowed spans) (sub : fewer ⊆ spans) : Admits allowed fewer :=
  fun span listed => h span (sub listed)

theorem only (h : Admits allowed spans) (listed : span ∈ spans) : Admits allowed [span] :=
  h.mono (List.cons_subset.2 ⟨listed, List.nil_subset _⟩)

theorem told (h : Admits allowed [span]) {cause : CheckCause} (plain : cause.isPlain = true) :
    allowed ⟨span, cause⟩ := h span (List.mem_singleton_self span) cause plain

end Admits

namespace Reports

/-! ## Checks -/

/-- A check that reports nothing. -/
theorem quiet {x : Check α} (h : ∀ s, (x.exec scope s).2.errors = s.errors ∧
    (x.exec scope s).2.warnings = s.warnings) : Reports allowed warned scope x :=
  fun s => ⟨⟨[], (h s).1.trans (List.append_nil _).symm, fun _ => nofun⟩,
    ⟨[], (h s).2.trans (List.append_nil _).symm, fun _ => nofun⟩⟩

theorem pure {a : α} : Reports allowed warned scope (Pure.pure a : Check α) := quiet fun _ => ⟨rfl, rfl⟩

theorem bind {x : Check α} {k : α → Check β} (hx : Reports allowed warned scope x)
    (hk : ∀ a, Reports allowed warned scope (k a)) : Reports allowed warned scope (x >>= k) := by
  intro s
  obtain ⟨⟨first, told, fine⟩, ws, noted, fineNotes⟩ := hx s
  obtain ⟨⟨later, toldLater, fineLater⟩, ws', notedLater, fineLaterNotes⟩ :=
    hk (x.exec scope s).1 (x.exec scope s).2
  refine ⟨⟨first ++ later, ?_, List.forall_mem_append.2 ⟨fine, fineLater⟩⟩,
    ws ++ ws', ?_, List.forall_mem_append.2 ⟨fineNotes, fineLaterNotes⟩⟩
  · rw [Check.exec_bind, toldLater, told, List.append_assoc]
  · rw [Check.exec_bind, notedLater, noted, List.append_assoc]

theorem read {k : Scope → Check β} (h : Reports allowed warned scope (k scope)) :
    Reports allowed warned scope ((MonadReader.read : Check Scope) >>= k) := h

theorem findings {k : Findings → Check β} (h : ∀ f, Reports allowed warned scope (k f)) :
    Reports allowed warned scope (ClassLang.findings >>= k) := fun s => h s.findings s

theorem get {k : CheckState → Check β} (h : ∀ s, Reports allowed warned scope (k s)) :
    Reports allowed warned scope ((MonadState.get : Check CheckState) >>= k) := fun s => h s s

theorem withReader {x : Check α} {g : Scope → Scope} (h : Reports allowed warned (g scope) x) :
    Reports allowed warned scope (MonadWithReader.withReader g x : Check α) := h

theorem learn (f : Findings → Findings) : Reports allowed warned scope (ClassLang.learn f) :=
  quiet fun _ => ⟨rfl, rfl⟩

theorem judge (id : Nat) (valid : Bool) : Reports allowed warned scope (ClassLang.judge id valid) :=
  .bind (.learn _) fun _ => .findings fun _ => .pure

theorem judgeEach (ids : List Nat) (verdicts : List Bool) :
    Reports allowed warned scope (ClassLang.judgeEach ids verdicts) :=
  quiet fun s => by simp [exec_judgeEach]

theorem note (event : Event) : Reports allowed warned scope (ClassLang.note event) :=
  quiet fun _ => ⟨rfl, rfl⟩

theorem warn {w : Warning} (fine : warned w) : Reports allowed warned scope (ClassLang.warn w) :=
  fun _ => ⟨⟨[], (List.append_nil _).symm, fun _ => nofun⟩, [w], rfl, List.forall_mem_singleton.2 fine⟩

/-- Errors and no warnings. -/
theorem told {x : Check α} (errors : List CheckError) (h : ∀ s, (x.exec scope s).2.errors =
    s.errors ++ errors ∧ (x.exec scope s).2.warnings = s.warnings) (fine : ∀ e ∈ errors, allowed e) :
    Reports allowed warned scope x :=
  fun s => ⟨⟨errors, (h s).1, fine⟩, [], (h s).2.trans (List.append_nil _).symm, fun _ => nofun⟩

theorem reportAll {errors : List CheckError} (fine : ∀ e ∈ errors, allowed e) :
    Reports allowed warned scope (ClassLang.reportAll errors) := told errors (fun _ => ⟨rfl, rfl⟩) fine

theorem report {e : CheckError} (fine : allowed e) :
    Reports allowed warned scope (ClassLang.report e) :=
  told [e] (fun _ => ⟨rfl, rfl⟩) (List.forall_mem_singleton.2 fine)

theorem mapM {ι : Type} {check : ι → Check α} {items : List ι}
    (each : ∀ i ∈ items, Reports allowed warned scope (check i)) :
    Reports allowed warned scope (items.mapM check) := by
  induction items with
  | nil => exact .pure
  | cons i rest ih =>
    rw [List.mapM_cons]
    exact .bind (each i (List.mem_cons_self ..)) fun _ =>
      .bind (ih fun j listed => each j (List.mem_cons_of_mem i listed)) fun _ => .pure

/-! ## Inferences -/

theorem fail {span : Span} {cause : CheckCause} (fine : allowed ⟨span, cause⟩) :
    Reports allowed warned scope (ClassLang.fail span cause : Infer α).run :=
  told [⟨span, cause⟩] (fun _ => ⟨rfl, rfl⟩) (List.forall_mem_singleton.2 fine)

theorem fail_bind {span : Span} {cause : CheckCause} {k : α → Infer β}
    (fine : allowed ⟨span, cause⟩) :
    Reports allowed warned scope ((ClassLang.fail span cause : Infer α) >>= k).run :=
  told [⟨span, cause⟩] (fun _ => ⟨rfl, rfl⟩) (List.forall_mem_singleton.2 fine)

theorem infer_bind {x : Infer α} {k : α → Infer β} (hx : Reports allowed warned scope x.run)
    (hk : ∀ a, Reports allowed warned scope (k a).run) :
    Reports allowed warned scope (x >>= k).run := by
  refine bind (k := ExceptT.bindCont k) hx fun r => ?_
  cases r with
  | error e => exact pure
  | ok a => exact hk a

theorem attempt_bind {x : Infer α} {k : Except Reported α → Infer β}
    (hx : Reports allowed warned scope x.run) (hk : ∀ r, Reports allowed warned scope (k r).run) :
    Reports allowed warned scope (attempt x >>= k).run := bind hx hk

theorem lift_bind {x : Check α} {k : α → Infer β} (hx : Reports allowed warned scope x)
    (hk : ∀ a, Reports allowed warned scope (k a).run) :
    Reports allowed warned scope ((liftM x : Infer α) >>= k).run := bind hx hk

theorem read_bind {k : Scope → Infer β} (h : Reports allowed warned scope (k scope).run) :
    Reports allowed warned scope ((MonadReader.read : Infer Scope) >>= k).run := h

theorem findings_bind {k : Findings → Infer β} (h : ∀ f, Reports allowed warned scope (k f).run) :
    Reports allowed warned scope ((liftM ClassLang.findings : Infer Findings) >>= k).run := findings h

theorem settle {r : Except Reported α} : Reports allowed warned scope (ClassLang.settle r).run := pure

theorem settle_bind {r : Except Reported α} {k : α → Infer β}
    (hk : ∀ a, Reports allowed warned scope (k a).run) :
    Reports allowed warned scope (ClassLang.settle r >>= k).run := infer_bind settle hk

theorem settleAllowed {r : Except CheckError α} (fine : ∀ e, r = .error e → allowed e) :
    Reports allowed warned scope (ClassLang.settleBy r).run := by
  cases r with
  | error e => exact fail (fine e rfl)
  | ok a => exact pure

theorem settleBy {r : Except CheckError α} {spans : List Span} (blames : Blames spans r)
    (here : Admits allowed spans) : Reports allowed warned scope (ClassLang.settleBy r).run :=
  settleAllowed fun e refused =>
    here e.span (blames e refused).1 e.cause (blames e refused).2

theorem settleBy_bind {r : Except CheckError α} {k : α → Infer β} {spans : List Span}
    (blames : Blames spans r) (here : Admits allowed spans)
    (hk : ∀ a, Reports allowed warned scope (k a).run) :
    Reports allowed warned scope (ClassLang.settleBy r >>= k).run :=
  infer_bind (settleBy blames here) hk

theorem recorded {id : Nat} {x : Infer Ty} (h : Reports allowed warned scope x.run) :
    Reports allowed warned scope (ClassLang.recorded id x).run :=
  .attempt_bind h fun _ => .lift_bind (.learn _) fun _ => .settle

theorem remembered {id : Nat} {x : Infer Ty} (h : Reports allowed warned scope x.run) :
    Reports allowed warned scope (ClassLang.remembered id x).run := by
  refine .findings_bind fun f => ?_
  split
  · exact .settle
  · exact .recorded h

theorem succeeds {x : Infer α} (h : Reports allowed warned scope x.run) :
    Reports allowed warned scope (ClassLang.succeeds x) :=
  .bind h fun _ => .pure

end Reports

/-! ## Written types -/

section WrittenTypes

variable {args : Check (List Resolved)} {node : Node} (here : Admits allowed [node.span])
  (mods : Modifiers) (name : String)
include here

theorem arrayType_reports (h : Reports allowed warned scope args) :
    Reports allowed warned scope (arrayType node mods args).run := by
  refine .lift_bind h fun results => .settle_bind fun types => ?_
  split
  · exact .pure
  · exact .fail (here.told rfl)

theorem keymapType_reports (h : Reports allowed warned scope args) :
    Reports allowed warned scope (keymapType node mods args).run := by
  refine .lift_bind h fun results => .settle_bind fun types => ?_
  split
  · exact .pure
  · exact .fail (here.told rfl)

theorem namedType_reports : Reports allowed warned scope (namedType node mods name).run := by
  refine .read_bind (.lift_bind (.learn _) fun _ => ?_)
  split
  · exact .pure
  refine .settleBy_bind (scope.program.classFor_blames _ _) here fun owner => ?_
  dsimp only
  split
  · exact .fail_bind (here.told rfl)
  · exact .lift_bind (.learn _) fun _ => .pure

theorem genericType_reports (h : Reports allowed warned scope args) :
    Reports allowed warned scope (genericType node mods name args).run := by
  refine .read_bind ?_
  split
  · exact .lift_bind (.learn _) fun _ => .fail_bind (here.told rfl)
  refine .lift_bind h fun results => .settleBy_bind (scope.program.classFor_blames _ _) here
    fun owner => .settle_bind fun types => ?_
  dsimp only
  split
  · exact .fail_bind (here.told rfl)
  split
  · exact .fail_bind (here.told rfl)
  refine .lift_bind (.learn _) fun _ => ?_
  split
  · exact .lift_bind (.learn _) fun _ => .pure
  · exact .pure

end WrittenTypes

mutual

theorem TypeRef.resolve_reports : ∀ t : TypeRef, Admits allowed t.spans →
    Reports allowed warned scope t.resolve.run
  | .primitive .., _ | .void .., _ => .remembered .pure
  | .named _ m name, here => .remembered (namedType_reports (here.only (List.mem_cons_self ..)) m name.name)
  | .array _ m args, here =>
    .remembered (arrayType_reports (here.only (List.mem_cons_self ..)) m
      (resolveEach_reports args (here.mono (List.subset_cons_self _ _))))
  | .keymap _ m args, here =>
    .remembered (keymapType_reports (here.only (List.mem_cons_self ..)) m
      (resolveEach_reports args (here.mono (List.subset_cons_self _ _))))
  | .generic _ m name args, here =>
    .remembered (genericType_reports (here.only (List.mem_cons_self ..)) m name.name
      (resolveEach_reports args (here.mono (List.subset_cons_self _ _))))

theorem resolveEach_reports : ∀ ts : List TypeRef, Admits allowed (TypeRef.spansAll ts) →
    Reports allowed warned scope (resolveEach ts)
  | [], _ => .pure
  | t :: rest, here => by
    rw [TypeRef.spansAll, TypeRef.nodesAll, List.map_append] at here
    exact .bind (t.resolve_reports (here.mono (List.subset_append_left _ _))) fun _ =>
      .bind (resolveEach_reports rest (here.mono (List.subset_append_right _ _))) fun _ => .pure

end

theorem resolveAll_reports (types : List TypeRef) (here : Admits allowed (TypeRef.spansAll types)) :
    Reports allowed warned scope (resolveAll types) :=
  .bind (resolveEach_reports types here) fun _ => .pure

/-! ## Members -/

theorem refer_reports (id : Nat) (decl : Decl) : Reports allowed warned scope (refer id decl) :=
  .learn _

theorem useField_reports (id : Nat) (found : FoundField) :
    Reports allowed warned scope (useField id found).run :=
  .lift_bind (refer_reports id found.decl) fun _ => .settle

theorem nameType_reports {node : Node} (here : Admits allowed [node.span]) (name : String) :
    Reports allowed warned scope (nameType node name).run := by
  refine .read_bind (.findings_bind fun f => ?_)
  split
  · exact .settle
  · refine .settleBy_bind ?_ here fun _ => useField_reports _ _
    exact (scope.checkAccess_blames f _ _ _ _).bind fun _ => checkInstance_blames _ _ _ _
  · refine .fail (here.told ?_)
    split <;> rfl

theorem receiver_reports {target : Expr} (here : Admits allowed [target.span])
    {access : MemberAccess} {infer : Infer Ty} (h : Reports allowed warned scope infer.run) :
    Reports allowed warned scope (receiver target access infer).run := by
  refine .read_bind (.findings_bind fun f => ?_)
  split
  · exact .lift_bind (.learn _) fun _ => .lift_bind (refer_reports _ _) fun _ => .pure
  · exact .infer_bind h fun type => .settleBy (scope.instanceReceiver_blames _ _ _) here

theorem memberType_reports (node : Node) {name : Ident} (here : Admits allowed [name.span])
    {receiver : Infer Receiver} (h : Reports allowed warned scope receiver.run) :
    Reports allowed warned scope (memberType node name receiver).run :=
  .infer_bind h fun from_ => .read_bind <| .findings_bind fun f =>
    .settleBy_bind (scope.memberOf_blames f from_ name) here fun found =>
      .infer_bind (useField_reports node.id found) fun _ => .pure

/-! ## Operators and calls -/

theorem overloadType_reports (id : Nat) (operator : Operator) (args : List Operand)
    {otherwise : CheckError} (fine : allowed otherwise) :
    Reports allowed warned scope (overloadType id operator args otherwise).run := by
  refine .read_bind (.findings_bind fun f => ?_)
  split
  · exact .lift_bind (refer_reports _ _) fun _ => .lift_bind (.note _) fun _ => .pure
  · exact .fail fine

section Operators

variable {a b : Infer Ty} (ha : Reports allowed warned scope a.run)
  (hb : Reports allowed warned scope b.run)
  {node : Node}
include ha

theorem unaryType_reports (op : UnaryOp) {operand : Expr} (here : Admits allowed [node.span])
    (there : Admits allowed [operand.span]) :
    Reports allowed warned scope (unaryType node op operand a).run := by
  refine .infer_bind ha fun type => ?_
  cases op with
  | ref =>
    dsimp only
    split
    · exact .pure
    · exact .fail (there.told rfl)
  | delete =>
    dsimp only
    split
    · exact .pure
    · exact .fail (there.told rfl)
  | neg | pos | bitNot | not =>
    dsimp only
    split
    · exact .pure
    · exact overloadType_reports _ _ _ (here.told rfl)

include hb

theorem binaryType_reports (op : BinaryOp) (lhs rhs : Expr) (here : Admits allowed [node.span]) :
    Reports allowed warned scope (binaryType node op lhs rhs a b).run := by
  refine .attempt_bind ha fun left => .attempt_bind hb fun right =>
    .settle_bind fun leftType => .settle_bind fun rightType => ?_
  split
  · exact .pure
  · exact overloadType_reports _ _ _ (here.told rfl)

theorem indexType_reports {target index : Expr} (here : Admits allowed [target.span])
    (there : Admits allowed [index.span]) :
    Reports allowed warned scope (indexType node target index a b).run := by
  refine .attempt_bind ha fun left => .attempt_bind hb fun right =>
    .settle_bind fun collection => .settle_bind fun place => ?_
  dsimp only
  split
  · exact .settleBy (elementType_blames _ _ _ _ _ _) there
  · exact .settleBy (elementType_blames _ _ _ _ _ _) there
  · exact overloadType_reports _ _ _ (here.told rfl)
  · exact overloadType_reports _ _ _ (here.told rfl)
  · exact .fail (here.told rfl)

end Operators

theorem Callee.choose_reports (callee : Callee) {span : Span} (here : Admits allowed [span])
    (args : List Operand) : Reports allowed warned scope (callee.choose span args).run := by
  unfold choose
  split
  · exact .pure
  split
  · exact .fail (here.told rfl)
  · exact .pure

section Calls

variable {infer inferTarget : Infer Ty} {callee : Expr} (here : Admits allowed callee.spans)
  (h : Reports allowed warned scope infer.run) (hTarget : Reports allowed warned scope inferTarget.run)
include here h hTarget

theorem findCallee_reports :
    Reports allowed warned scope (findCallee callee infer inferTarget).run := by
  refine .read_bind ?_
  split
  · exact .findings_bind fun f => .settleBy (scope.calleeNamed_blames f _ _) here
  · rename_i target _ _
    have there : Admits allowed [target.span] :=
      here.only (List.mem_cons_of_mem _ (List.mem_cons_of_mem _ target.span_mem_spans))
    exact .infer_bind (receiver_reports there hTarget) fun from_ => .findings_bind fun f =>
      .settleBy (scope.calleeOf_blames f from_ _)
        (here.only (List.mem_cons_of_mem _ (List.mem_cons_self ..)))
  · exact .attempt_bind h fun _ => .fail ((here.only callee.span_mem_spans).told rfl)

theorem callType_reports {call : Expr} (there : Admits allowed [call.span]) (args : List Expr)
    {inferArgs : Check (List Resolved)} (hArgs : Reports allowed warned scope inferArgs) :
    Reports allowed warned scope (callType call callee args infer inferTarget inferArgs).run :=
  .lift_bind hArgs fun _ => .attempt_bind (findCallee_reports here h hTarget) fun _ =>
    .lift_bind (.learn _) fun _ => .settle_bind fun meaning => .settle_bind fun _ =>
    .infer_bind (meaning.choose_reports there _) fun _ => .lift_bind (.note _) fun _ =>
    .lift_bind (refer_reports _ _) fun _ => .pure

end Calls

/-! ## Expressions -/

theorem thisType_reports {node : Node} (here : Admits allowed [node.span]) :
    Reports allowed warned scope (thisType node).run := by
  refine .read_bind ?_
  split
  · split
    · exact .pure
    · exact .fail (here.told rfl)
  · exact .fail (here.told rfl)

theorem listType_reports {elems : List Expr} (here : Admits allowed (elems.map Expr.span))
    {infer : Check (List Resolved)} (h : Reports allowed warned scope infer) :
    Reports allowed warned scope (listType elems infer).run :=
  .lift_bind h fun _ => .settle_bind fun _ => .settleBy_bind (unify_blames _ _) here fun _ => .pure

theorem keymapLiteralType_reports {pairs : List KeymapPair}
    (keys : Admits allowed (pairs.map fun pair => pair.key.span))
    (values : Admits allowed (pairs.map fun pair => pair.value.span))
    {infer : Check (List (Except Reported (Ty × Ty)))} (h : Reports allowed warned scope infer) :
    Reports allowed warned scope (keymapLiteralType pairs infer).run :=
  .lift_bind h fun _ => .settle_bind fun _ => .settleBy_bind (unify_blames _ _) keys fun _ =>
    .settleBy_bind (unify_blames _ _) values fun _ => .pure

section Exprs

variable {a b : Infer Ty} (ha : Reports allowed warned scope a.run)
  (hb : Reports allowed warned scope b.run)
include ha

theorem newType_reports {node : Node} (here : Admits allowed [node.span]) :
    Reports allowed warned scope (newType node a).run := by
  refine .infer_bind ha fun type => ?_
  split
  · exact .pure
  · exact .fail (here.told rfl)

include hb

theorem recordedPair_reports (node : Node) :
    Reports allowed warned scope (recordedPair node (pairType a b)) :=
  .bind (.attempt_bind ha fun _ => .attempt_bind hb fun _ => .settle_bind fun _ =>
    .settle_bind fun _ => .pure) fun _ => .bind (.learn _) fun _ => .pure

theorem assignType_reports (kind : AssignKind) {target value : Expr}
    (here : Admits allowed [target.span]) (there : Admits allowed [value.span]) :
    Reports allowed warned scope (assignType kind target value a b).run := by
  refine .attempt_bind ha fun left => .attempt_bind hb fun right =>
    .settle_bind fun targetType => .settle_bind fun valueType => ?_
  split
  · exact .fail_bind (here.told rfl)
  · exact .settleBy_bind (checkStore_blames _ _ _ _ _) there fun _ => .pure

end Exprs

mutual

theorem Expr.infer_reports : ∀ e : Expr, Admits allowed e.spans →
    Reports allowed warned scope e.infer.run
  | .ident _ name, here => .remembered (nameType_reports here name.name)
  | .this _, here => .remembered (thisType_reports here)
  | .literal .., _ => .remembered .pure
  | .list _ elems, here => by
    have below : Admits allowed (Expr.spansAll elems) := here.mono (by simp [Expr.spans])
    exact .remembered (listType_reports (below.mono (Expr.map_span_subset elems))
      (inferEach_reports elems below))
  | .keymap _ pairs, here => by
    have below : Admits allowed (Expr.spansPairs pairs) := here.mono (by simp [Expr.spans])
    exact .remembered (keymapLiteralType_reports (below.mono (Expr.map_key_subset pairs))
      (below.mono (Expr.map_value_subset pairs)) (inferPairs_reports pairs below))
  | .binary _ op lhs rhs, here => by
    have left := lhs.infer_reports (here.mono (by simp [Expr.spans]))
    have right := rhs.infer_reports (here.mono (by simp [Expr.spans]))
    exact .remembered (binaryType_reports left right op lhs rhs (here.only (by simp [Expr.spans])))
  | .unary _ op operand, here => by
    have inner := operand.infer_reports (here.mono (by simp [Expr.spans]))
    exact .remembered (unaryType_reports inner op (here.only (by simp [Expr.spans]))
      (here.only (by simp [Expr.spans, operand.span_mem_spans])))
  | .new _ type, here => by
    have inner : Reports allowed warned scope type.resolve.run :=
      type.resolve_reports (here.mono (by simp [Expr.spans]))
    exact .remembered (newType_reports inner (here.only (by simp [Expr.spans])))
  | .member n target _ name, here => by
    have inner := target.infer_reports
      (here.mono fun _ listed => by simp [Expr.spans, listed])
    exact .remembered (memberType_reports n (here.only (by simp [Expr.spans]))
      (receiver_reports (here.only (by simp [Expr.spans, target.span_mem_spans])) inner))
  | .index _ target i, here => by
    have left := target.infer_reports (here.mono (by simp [Expr.spans]))
    have right := i.infer_reports (here.mono (by simp [Expr.spans]))
    exact .remembered (indexType_reports left right
      (here.only (by simp [Expr.spans, target.span_mem_spans]))
      (here.only (by simp [Expr.spans, i.span_mem_spans])))
  | .call n callee args, here => by
    have called : Admits allowed callee.spans := here.mono (by simp [Expr.spans])
    have given := inferEach_reports args (here.mono (by simp [Expr.spans]))
    have whole : Admits allowed [(Expr.call n callee args).span] :=
      here.only (Expr.call n callee args).span_mem_spans
    exact .remembered (callType_reports called (callee.infer_reports called)
      (callee.inferTarget_reports called) whole args given)
  | .assign _ kind target value, here => by
    have left := target.infer_reports (here.mono (by simp [Expr.spans]))
    have right := value.infer_reports (here.mono (by simp [Expr.spans]))
    exact .remembered (assignType_reports left right kind
      (here.only (by simp [Expr.spans, target.span_mem_spans]))
      (here.only (by simp [Expr.spans, value.span_mem_spans])))

theorem Expr.inferTarget_reports : ∀ e : Expr, Admits allowed e.spans →
    Reports allowed warned scope e.inferTarget.run
  | .member _ target _ _, here =>
    target.infer_reports (here.mono fun _ listed => by simp [Expr.spans, listed])
  | .ident .., _ | .this _, _ | .literal .., _ | .list .., _ | .keymap .., _ | .binary .., _
  | .unary .., _ | .new .., _ | .index .., _ | .call .., _ | .assign .., _ => .pure

theorem inferEach_reports : ∀ es : List Expr, Admits allowed (Expr.spansAll es) →
    Reports allowed warned scope (inferEach es)
  | [], _ => .pure
  | e :: rest, here =>
    .bind (e.infer_reports (here.mono (List.subset_append_left _ _))) fun _ =>
      .bind (inferEach_reports rest (here.mono (List.subset_append_right _ _))) fun _ => .pure

theorem inferPairs_reports : ∀ pairs : List KeymapPair, Admits allowed (Expr.spansPairs pairs) →
    Reports allowed warned scope (inferPairs pairs)
  | [], _ => .pure
  | .mk n key value :: rest, here => by
    have left := key.infer_reports
      (here.mono fun _ listed => by simp [Expr.spansPairs, listed])
    have right := value.infer_reports
      (here.mono fun _ listed => by simp [Expr.spansPairs, listed])
    have others := inferPairs_reports rest
      (here.mono fun _ listed => by simp [Expr.spansPairs, listed])
    exact .bind (recordedPair_reports left right n) fun _ => .bind others fun _ => .pure

end

end ClassLang
