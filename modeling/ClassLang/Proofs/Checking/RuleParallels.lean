import ClassLang.Proofs.Checking.Parallels

/-!
The rules for written types, members, operators, calls and other expressions run alike in renumbered
programs if what they are given does.
-/

namespace ClassLang

variable {α : Type} {p q : Program} {σ : Equiv.Perm Nat} {nodes : Sight}

/-! ## Errors -/

/-- An error of a rule, if there is one, is plain and at one of some places. -/
def Blames (spans : List Span) (r : Except CheckError α) : Prop :=
  ∀ e, r = .error e → e.span ∈ spans ∧ e.cause.isPlain = true

namespace Blames

variable {spans : List Span}

theorem plain {r : Except CheckError α} (h : Blames spans r) : Plain r := fun e refused =>
  (h e refused).2

theorem mono {more : List Span} {r : Except CheckError α} (h : Blames spans r)
    (sub : spans ⊆ more) : Blames more r := fun e refused => (h e refused).imp_left (@sub _)

theorem ok (a : α) : Blames spans (.ok a : Except CheckError α) := fun _ => nofun

theorem error {span : Span} {cause : CheckCause} (plain : cause.isPlain = true) :
    Blames [span] (.error ⟨span, cause⟩ : Except CheckError α) := by
  rintro _ ⟨⟩
  exact ⟨List.mem_singleton_self span, plain⟩

theorem ite {condition : Prop} [Decidable condition] {a b : Except CheckError α}
    (ha : Blames spans a) (hb : Blames spans b) : Blames spans (if condition then a else b) := by
  split
  · exact ha
  · exact hb

theorem bind {β : Type} {a : Except CheckError α} {k : α → Except CheckError β}
    (ha : Blames spans a) (hk : ∀ v, Blames spans (k v)) : Blames spans (a >>= k) := by
  cases a with
  | error e =>
    rintro _ ⟨⟩
    exact ha e rfl
  | ok v => exact hk v

end Blames

theorem Program.classFor_blames (p : Program) (span : Span) (name : String) :
    Blames [span] (p.classFor span name) := by
  unfold classFor
  cases p.findClass name with
  | found i => exact .ok i
  | missing | ambiguous => exact .error rfl

namespace Scope

variable (scope : Scope) (f : Findings)

theorem checkAccess_blames (span : Span) (owner : Nat) (access : Access) (name : String) :
    Blames [span] (scope.checkAccess f span owner access name) := .ite (.ok _) (.error rfl)

theorem instanceReceiver_blames (target : Expr) (access : MemberAccess) (type : Ty) :
    Blames [target.span] (scope.instanceReceiver target access type) := by
  refine .ite (.error rfl) ?_
  cases scope.program.classOf? type with
  | none => exact .error rfl
  | some owner => exact .ok _

end Scope

theorem checkInstance_blames (span : Span) (name : String) (isStatic hasInstance : Bool) :
    Blames [span] (checkInstance span name isStatic hasInstance) := .ite (.ok _) (.error rfl)

theorem Scope.memberOf_blames (scope : Scope) (f : Findings) (from_ : Receiver) (name : Ident) :
    Blames [name.span] (scope.memberOf f from_ name) := by
  unfold memberOf
  dsimp only
  cases scope.program.findField? f from_.owner name.name from_.args with
  | none => exact .error rfl
  | some found =>
    exact (scope.checkAccess_blames f _ _ _ _).bind fun _ =>
      (checkInstance_blames _ _ _ _).bind fun _ => .ok found

theorem Scope.calleeNamed_blames (scope : Scope) (f : Findings) (span : Span) (name : String) :
    Blames [span] (scope.calleeNamed f span name) :=
  .ite (.error rfl) (.ite (.error rfl) (.ite (.error rfl) (.ok _)))

theorem Scope.calleeOf_blames (scope : Scope) (f : Findings) (from_ : Receiver) (name : Ident) :
    Blames [name.span] (scope.calleeOf f from_ name) := by
  refine .ite (.error rfl) (.ite (.error rfl) ?_)
  split
  · exact .ite (.error rfl) (.ok _)
  · exact .ok _

theorem unifyFrom_blames (types : List (Ty × Span)) (common : Ty) :
    Blames (types.map Prod.snd) (unifyFrom common types) := by
  induction types generalizing common with
  | nil => exact .ok common
  | cons first rest ih =>
    obtain ⟨type, span⟩ := first
    have later (common : Ty) : Blames (span :: rest.map Prod.snd) (unifyFrom common rest) :=
      (ih common).mono (List.subset_cons_self _ _)
    unfold unifyFrom
    cases common.widened? type.decay with
    | some wider => exact later wider
    | none => exact .ite (later common) (Blames.error rfl |>.mono (by simp))

theorem unify_blames (types : List Ty) (spans : List Span) :
    Blames spans (unify (types.zip spans)) := by
  have listed : (types.zip spans).map Prod.snd ⊆ spans := by
    intro span inside
    obtain ⟨_, paired, rfl⟩ := List.mem_map.1 inside
    exact (List.of_mem_zip paired).2
  cases same : types.zip spans with
  | nil => exact .ok _
  | cons first rest =>
    rw [same, List.map_cons] at listed
    exact (unifyFrom_blames rest first.1.decay).mono fun _ inside =>
      listed (List.mem_cons_of_mem _ inside)

theorem checkStore_blames (kind : AssignKind) (target : Ty) (name : String) (value : Expr)
    (type : Ty) : Blames [value.span] (checkStore kind target name value type) := by
  refine .bind ?_ fun stored => .ite (.ok _) (.error rfl)
  cases kind with
  | value => exact .ite (.error rfl) (.ok _)
  | reference =>
    refine .ite (.error rfl) ?_
    cases aliasType? value type with
    | none => exact .error rfl
    | some presented => exact .ok presented

theorem elementType_blames (collection index : Ty) (span : Span) (expected elem : Ty) (fits : Bool) :
    Blames [span] (elementType collection index span expected elem fits) := .ite (.ok _) (.error rfl)

theorem refer_parallel (n : Nat) (decl : Decl) :
    Parallel p q σ nodes id (refer n decl) (refer n (decl.renumber σ)) :=
  .learn fun _ _ m => m.enter (fun other inside => (m.node other inside).refer n decl) ⟨rfl, rfl⟩
    ⟨rfl, rfl⟩

/-! ## Written types -/

section WrittenTypes

variable (h : p.Renumbered q σ) {args : Check (List Resolved)}
  (inner : Parallel p q σ nodes id args args) (node : Node) (mods : Modifiers) (name : String)

include inner in
theorem arrayType_along :
    Along p q σ nodes id (arrayType node mods args) (arrayType node mods args) := by
  refine .lift_same inner fun results => .bind_same .settle_same fun types => ?_
  split
  · exact .pure rfl
  · exact .fail rfl

include inner in
theorem keymapType_along :
    Along p q σ nodes id (keymapType node mods args) (keymapType node mods args) := by
  refine .lift_same inner fun results => .bind_same .settle_same fun types => ?_
  split
  · exact .pure rfl
  · exact .fail rfl

include h in
theorem namedType_along :
    Along p q σ nodes id (namedType node mods name) (namedType node mods name) := by
  refine .read_bind fun scope same => .lift_same (.learn fun f g m => m.setAlias node.id _) fun _ => ?_
  rw [Scope.mirrored_generics, Scope.mirrored_program, same]
  split
  · exact .pure rfl
  refine .bind (.settleBy (h.classFor node.span name) (p.classFor_blames _ _).plain) fun owner => ?_
  dsimp only
  rw [h.classAt]
  split
  · exact .fail_bind rfl
  · exact .lift_same (.learn fun f g m => m.use _ _) fun _ => .pure rfl

include h inner in
theorem genericType_along :
    Along p q σ nodes id (genericType node mods name args) (genericType node mods name args) := by
  refine .read_bind fun scope same => ?_
  dsimp only
  rw [Scope.mirrored_generics, Scope.mirrored_program, same]
  split
  · exact .lift_same (.learn fun f g m => m.setAlias node.id _) fun _ => .fail_bind rfl
  refine .lift_same inner fun results =>
    .bind (.settleBy (h.classFor node.span name) (p.classFor_blames _ _).plain) fun owner =>
      .bind_same .settle_same fun types => ?_
  rw [h.classAt]
  split
  · exact .fail_bind rfl
  split
  · exact .fail_bind rfl
  refine .lift_same (.learn fun f g m => m.use _ _) fun _ => ?_
  split
  · exact .lift_same (.learn fun f g m => m.instantiate name types) fun _ => .pure rfl
  · exact .pure rfl

end WrittenTypes

/-! ## Members -/

section Members

variable (h : p.Renumbered q σ) (reads : nodes.Reads p)

theorem useField_along (n : Nat) (found : FoundField) :
    Along p q σ nodes id (useField n found) (useField n (found.renumber σ)) :=
  .lift_same (refer_parallel n found.decl) fun _ => .settle_same

include h reads

theorem nameType_along (node : Node) (name : String) :
    Along p q σ nodes id (nameType node name) (nameType node name) := by
  refine .read_bind fun scope same => .findings_bind fun f g m => ?_
  have looks := m.mirrors reads
  rw [looks.ownField? h same, Scope.mirrored_env, Scope.mirrored_program, h.hasClass, same]
  cases scope.env.get? name with
  | some bound => exact .settle_same
  | none =>
    cases scope.ownField? f name with
    | none =>
      refine .fail ?_
      split <;> rfl
    | some found =>
      dsimp only [Option.map_some, FoundField.renumber]
      rw [looks.checkAccess h same, Scope.mirrored_isInstance]
      refine .bind_same (.settleBy_same ?_) fun _ => useField_along node.id found
      exact ((scope.checkAccess_blames f _ _ _ _).bind fun _ => checkInstance_blames _ _ _ _).plain

theorem receiver_along {target : Expr} {access : MemberAccess} {infer : Infer Ty}
    (inner : Along p q σ nodes id infer infer) (inside : nodes target.id) :
    Along p q σ nodes (Receiver.renumber σ) (receiver target access infer)
      (receiver target access infer) := by
  refine .read_bind fun scope same => .findings_bind fun f g m => ?_
  have looks := m.mirrors reads
  rw [looks.namedClass? h same, Scope.mirrored_program, same]
  cases scope.namedClass? f target with
  | none =>
    refine .bind_same inner fun type => .settleBy (Findings.Mirrors.instanceReceiver h same ..) ?_
    exact (scope.instanceReceiver_blames _ _ _).plain
  | some owner =>
    dsimp only [Option.map_some]
    rw [h.typeWithin]
    refine .lift_same (.learn fun f g m => m.record inside _) fun _ => ?_
    exact .lift_same (refer_parallel target.id (.class owner)) fun _ => .pure rfl

theorem memberType_along (node : Node) (name : Ident) {receiver : Infer Receiver}
    (inner : Along p q σ nodes (Receiver.renumber σ) receiver receiver) :
    Along p q σ nodes id (memberType node name receiver) (memberType node name receiver) := by
  refine .bind inner fun from_ => .read_bind fun scope same => .findings_bind fun f g m => ?_
  refine .bind (.settleBy ((m.mirrors reads).memberOf h same from_ name) ?_) fun found => ?_
  · exact (scope.memberOf_blames f from_ name).plain
  · refine .bind_same (useField_along node.id found) fun type => .pure ?_
    rw [from_.isConst_renumber]
    rfl

/-! ## Operators -/

theorem overloadType_along (n : Nat) (operator : Operator) (args : List Operand)
    {otherwise : CheckError} (plain : otherwise.cause.isPlain = true) :
    Along p q σ nodes id (overloadType n operator args otherwise)
      (overloadType n operator args otherwise) := by
  refine .read_bind fun scope same => .findings_bind fun f g m => ?_
  rw [Scope.mirrored_program, (m.mirrors reads).findOperator? h, same]
  cases p.findOperator? f operator args with
  | none => exact .fail (CheckCause.isCycle_of_isPlain plain)
  | some found =>
    exact .lift_same (refer_parallel n (.function found.1)) fun _ =>
      .lift_same (.note _ _) fun _ => .pure rfl

variable {a b : Infer Ty} (ha : Along p q σ nodes id a a) (hb : Along p q σ nodes id b b)
  (node : Node)
include ha

theorem unaryType_along (op : UnaryOp) (operand : Expr) :
    Along p q σ nodes id (unaryType node op operand a) (unaryType node op operand a) := by
  refine .bind_same ha fun type => ?_
  cases op with
  | ref =>
    dsimp only
    cases aliasType? operand type with
    | none => exact .fail rfl
    | some presented => exact .pure rfl
  | delete =>
    dsimp only
    split
    · exact .pure rfl
    · exact .fail rfl
  | neg | pos | bitNot | not =>
    dsimp only
    split
    · exact .pure rfl
    · exact overloadType_along h reads _ _ _ rfl

include hb

theorem binaryType_along (op : BinaryOp) (lhs rhs : Expr) :
    Along p q σ nodes id (binaryType node op lhs rhs a b) (binaryType node op lhs rhs a b) := by
  refine .attempt_same ha fun left => .attempt_same hb fun right => ?_
  refine .bind_same .settle_same fun leftType => .bind_same .settle_same fun rightType => ?_
  split
  · exact .pure rfl
  · exact overloadType_along h reads _ _ _ rfl

theorem indexType_along (target index : Expr) :
    Along p q σ nodes id (indexType node target index a b) (indexType node target index a b) := by
  refine .attempt_same ha fun left => .attempt_same hb fun right => ?_
  refine .bind_same .settle_same fun collection => .bind_same .settle_same fun place => ?_
  dsimp only
  split
  · exact .settleBy_same (elementType_blames _ _ _ _ _ _).plain
  · exact .settleBy_same (elementType_blames _ _ _ _ _ _).plain
  · exact overloadType_along h reads _ _ _ rfl
  · exact overloadType_along h reads _ _ _ rfl
  · exact .fail rfl

end Members

/-! ## Calls -/

def chosenRenumbered (σ : Equiv.Perm Nat) (chosen : Decl × Ty) : Decl × Ty :=
  (chosen.1.renumber σ, chosen.2)

theorem Callee.choose_along (callee : Callee) (span : Span) (args : List Operand) :
    Along p q σ nodes (chosenRenumbered σ) (callee.choose span args)
      ((callee.renumber σ).choose span args) := by
  have chosen : (callee.renumber σ).candidates.findSome? (Candidate.take? args) =
      (callee.candidates.findSome? (Candidate.take? args)).map (chosenRenumbered σ) := by
    refine findSome?_mirrored _ _ _ fun c _ => ?_
    unfold Candidate.take? Candidate.renumber
    cases c.signature with
    | error _ => rfl
    | ok types =>
      dsimp only
      split <;> rfl
  have sound : ((callee.renumber σ).candidates.all fun c => c.signature.isOk) =
      callee.candidates.all fun c => c.signature.isOk := List.all_map
  unfold choose
  rw [chosen, sound]
  cases callee.candidates.findSome? (Candidate.take? args) with
  | some found => exact .pure rfl
  | none =>
    dsimp only [Option.map_none]
    split
    · exact .fail rfl
    · exact .throw

section Calls

variable (h : p.Renumbered q σ) (reads : nodes.Reads p) {infer inferTarget : Infer Ty}
  {callee : Expr} (inner : Along p q σ nodes id infer infer)
  (innerTarget : Along p q σ nodes id inferTarget inferTarget)
  (inside : ∀ n target access name, callee = .member n target access name → nodes target.id)
include h reads inner innerTarget inside

theorem findCallee_along : Along p q σ nodes (Callee.renumber σ) (findCallee callee infer inferTarget)
    (findCallee callee infer inferTarget) := by
  refine .read_bind fun scope same => ?_
  split
  · refine .findings_bind fun f g m => .settleBy ((m.mirrors reads).calleeNamed h same ..) ?_
    exact (scope.calleeNamed_blames f _ _).plain
  · rename_i n target access name
    refine .bind (receiver_along h reads innerTarget (inside n target access name rfl))
      fun from_ => .findings_bind fun f g m => ?_
    exact .settleBy ((m.mirrors reads).calleeOf h same from_ name) (scope.calleeOf_blames f from_ name).plain
  · exact .attempt_same inner fun _ => .fail rfl

theorem callType_along (call : Expr) (args : List Expr) {inferArgs : Check (List Resolved)}
    (innerArgs : Parallel p q σ nodes id inferArgs inferArgs) (mine : nodes callee.id) :
    Along p q σ nodes id (callType call callee args infer inferTarget inferArgs)
      (callType call callee args infer inferTarget inferArgs) := by
  refine .lift_same innerArgs fun results =>
    .attempt_bind (findCallee_along h reads inner innerTarget inside) fun found => ?_
  have sound : (found.map (Callee.renumber σ)).isOk = found.isOk := by cases found <;> rfl
  rw [sound]
  refine .lift_same (.learn fun f g m => m.setValid mine _) fun _ => ?_
  refine .bind .settle fun meaning => .bind_same .settle_same fun types => ?_
  refine .bind (meaning.choose_along call.span _) fun chosen => .lift_same (.note _ _) fun _ => ?_
  exact .lift_same (refer_parallel call.id chosen.1) fun _ => .pure rfl

end Calls

/-! ## Other expressions -/

section Exprs

variable {a b : Infer Ty} (ha : Along p q σ nodes id a a) (hb : Along p q σ nodes id b b)
  (node : Node)

theorem thisType_along (h : p.Renumbered q σ) :
    Along p q σ nodes id (thisType node) (thisType node) := by
  refine .read_bind fun scope same => ?_
  rw [Scope.mirrored_selfClass, Scope.mirrored_isInstance, Scope.mirrored_program, same]
  cases scope.selfClass with
  | none => exact .fail rfl
  | some owner =>
    dsimp only [Option.map_some]
    rw [h.typeWithin]
    split
    · exact .pure rfl
    · exact .fail rfl

theorem listType_along (elems : List Expr) {infer : Check (List Resolved)}
    (inner : Parallel p q σ nodes id infer infer) :
    Along p q σ nodes id (listType elems infer) (listType elems infer) :=
  .lift_same inner fun _ => .bind_same .settle_same fun _ =>
    .bind_same (.settleBy_same (unify_blames _ _).plain) fun _ => .pure rfl

theorem keymapLiteralType_along (pairs : List KeymapPair)
    {infer : Check (List (Except Reported (Ty × Ty)))} (inner : Parallel p q σ nodes id infer infer) :
    Along p q σ nodes id (keymapLiteralType pairs infer) (keymapLiteralType pairs infer) :=
  .lift_same inner fun _ => .bind_same .settle_same fun _ =>
    .bind_same (.settleBy_same (unify_blames _ _).plain) fun _ =>
      .bind_same (.settleBy_same (unify_blames _ _).plain) fun _ => .pure rfl

theorem recordedPair_parallel {infer : Infer (Ty × Ty)} (inner : Along p q σ nodes id infer infer)
    (inside : nodes node.id) :
    Parallel p q σ nodes id (recordedPair node infer) (recordedPair node infer) :=
  .bind inner.run fun _ => .bind_same (.learn fun _ _ m => m.record inside _) fun _ => .pure rfl

include ha

theorem newType_along : Along p q σ nodes id (newType node a) (newType node a) := by
  refine .bind_same ha fun type => ?_
  split
  · exact .pure rfl
  · exact .fail rfl

include hb

theorem pairType_along : Along p q σ nodes id (pairType a b) (pairType a b) :=
  .attempt_same ha fun _ => .attempt_same hb fun _ =>
    .bind_same .settle_same fun _ => .bind_same .settle_same fun _ => .pure rfl

theorem assignType_along (kind : AssignKind) (target value : Expr) :
    Along p q σ nodes id (assignType kind target value a b) (assignType kind target value a b) := by
  refine .attempt_same ha fun left => .attempt_same hb fun right => ?_
  refine .bind_same .settle_same fun targetType => .bind_same .settle_same fun valueType => ?_
  split
  · exact .fail_bind rfl
  · exact .bind_same (.settleBy_same (checkStore_blames _ _ _ _ _).plain) fun _ => .pure rfl

end Exprs

end ClassLang
