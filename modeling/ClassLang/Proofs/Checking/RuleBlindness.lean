import ClassLang.Checking.Exprs
import ClassLang.Proofs.Checking.Blindness

/-!
The rules for written types, members, operators, calls and other expressions do not see places, if what
they are given does not.
-/

namespace ClassLang

variable {α β : Type} {v : View}

/-! ## Errors -/

/-- The error that a rule finds, with its place moved. -/
abbrev View.moved (v : View) (a : Except CheckError α) : Except CheckError α :=
  a.mapError (.relocate v.move)

theorem moved_bind (a : Except CheckError α) (k : α → Except CheckError β) :
    v.moved (a >>= k) = v.moved a >>= fun x => v.moved (k x) := by
  cases a <;> rfl

theorem moved_ite (condition : Prop) [Decidable condition] (a b : Except CheckError α) :
    v.moved (if condition then a else b) = if condition then v.moved a else v.moved b :=
  apply_ite ..

/-! ## Written types -/

theorem Program.classFor_view (p : Program) (span : Span) (name : String) :
    (p.view v).classFor (v.move span) name = v.moved (p.classFor span name) := by
  unfold classFor
  rw [findClass_view]
  cases p.findClass name <;> rfl

section WrittenTypes

variable {args args' : Check (List Resolved)} (inner : Blind v id args args') (node : Node)
  (mods : Modifiers) (name : String)

include inner in
theorem arrayType_blind :
    Blindly v id (arrayType node mods args) (arrayType (node.relocate v.move) mods args') := by
  refine .lift_same inner fun results => .bind_same (.settle _) fun types => ?_
  split
  · exact .pure_same _
  · exact .fail node.span _

include inner in
theorem keymapType_blind :
    Blindly v id (keymapType node mods args) (keymapType (node.relocate v.move) mods args') := by
  refine .lift_same inner fun results => .bind_same (.settle _) fun types => ?_
  split
  · exact .pure_same _
  · exact .fail node.span _

theorem namedType_blind :
    Blindly v id (namedType node mods name) (namedType (node.relocate v.move) mods name) := by
  refine .read fun scope => .lift_same (.learn _) fun _ => ?_
  rw [Scope.view_generics, Scope.view_program]
  split
  · exact .pure_same _
  refine .bind_same (.settleBy_same (scope.program.classFor_view node.span name)) fun owner => ?_
  dsimp only
  rw [Program.classAt_view, Class.length_generics_view]
  split
  · exact .fail_bind node.span _
  · exact .lift_same (.learn _) fun _ => .pure_same _

include inner in
theorem genericType_blind :
    Blindly v id (genericType node mods name args)
      (genericType (node.relocate v.move) mods name args') := by
  refine .read fun scope => ?_
  dsimp only
  rw [Scope.view_generics, Scope.view_program]
  split
  · exact .lift_same (.learn _) fun _ => .fail_bind node.span _
  refine .lift_same inner fun results =>
    .bind_same (.settleBy_same (scope.program.classFor_view node.span name)) fun owner =>
      .bind_same (.settle _) fun types => ?_
  rw [Program.classAt_view, Class.length_generics_view]
  split
  · exact .fail_bind node.span _
  split
  · exact .fail_bind node.span _
  refine .lift_same (.learn _) fun _ => ?_
  split
  · exact .lift_same (.learn _) fun _ => .pure_same _
  · exact .pure_same _

end WrittenTypes

/-! ## Members -/

def FoundField.relocate (f : Span → Span) (found : FoundField) : FoundField :=
  { found with field := found.field.relocate f }

theorem Program.findField?_view (p : Program) (f : Findings) (owner : Nat) (name : String)
    (receiver : Substitution) : (p.view v).findField? f owner name receiver =
      (p.findField? f owner name receiver).map (.relocate v.move) := by
  unfold findField?
  rw [List.map_findSome?]
  congr 1
  funext ancestor
  simp only [classAt_view, Class.fieldIndex?_view, Function.comp_apply]
  cases (p.classAt ancestor.index).fieldIndex? name with
  | none => rfl
  | some index =>
    simp only [Option.bind_eq_bind, Option.bind_some, Class.view, Class.relocate, List.getElem?_map]
    cases (p.classAt ancestor.index).fields[index]? with
    | none => rfl
    | some field =>
      simp only [Option.map_some, Option.bind_some, Field.relocate, TypeRef.id_relocate]
      cases f.cached field.type.id <;> rfl

theorem checkInstance_view (span : Span) (name : String) (isStatic hasInstance : Bool) :
    checkInstance (v.move span) name isStatic hasInstance =
      v.moved (checkInstance span name isStatic hasInstance) := by
  unfold checkInstance
  rw [moved_ite]
  rfl

namespace Scope

variable (scope : Scope) (f : Findings)

theorem ownField?_view (name : String) : (scope.view v).ownField? f name =
    (scope.ownField? f name).map (.relocate v.move) := by
  unfold ownField?
  rw [view_selfClass, view_program]
  cases scope.selfClass with
  | none => rfl
  | some owner => exact scope.program.findField?_view f owner name .empty

theorem checkAccess_view (span : Span) (owner : Nat) (access : Access) (name : String) :
    (scope.view v).checkAccess f (v.move span) owner access name =
      v.moved (scope.checkAccess f span owner access name) := by
  unfold checkAccess
  rw [mayUse_view, view_program, Program.classAt_view, moved_ite]
  rfl

theorem namedClass?_view (e : Expr) :
    (scope.view v).namedClass? f (e.relocate v.move) = scope.namedClass? f e := by
  cases e with
  | ident n name =>
    simp only [namedClass?, Expr.relocate, Ident.relocate, ownField?_view, Option.isSome_map,
      view_env, view_program, Program.theClass?_view]
  | _ => rfl

theorem instanceReceiver_view (target : Expr) (access : MemberAccess) (type : Ty) :
    (scope.view v).instanceReceiver (target.relocate v.move) access type =
      v.moved (scope.instanceReceiver target access type) := by
  unfold instanceReceiver
  rw [view_program, Program.classOf?_view, Expr.span_relocate, moved_ite]
  cases scope.program.classOf? type with
  | none => rfl
  | some owner =>
    dsimp only
    rw [Program.argsOf_view]
    rfl

theorem memberOf_view (from_ : Receiver) (name : Ident) :
    (scope.view v).memberOf f from_ (name.relocate v.move) =
      (v.moved (scope.memberOf f from_ name)).map (.relocate v.move) := by
  unfold memberOf
  dsimp only [view_program, Ident.relocate]
  rw [Program.findField?_view, Program.classAt_view]
  cases scope.program.findField? f from_.owner name.name from_.args with
  | none => rfl
  | some found =>
    dsimp only [Option.map_some]
    rw [checkAccess_view, checkInstance_view]
    dsimp only [FoundField.relocate, Field.relocate]
    cases scope.checkAccess f name.span found.owner found.field.access name.name with
    | error e => rfl
    | ok _ => cases checkInstance name.span name.name found.field.isStatic from_.hasInstance <;> rfl

end Scope

theorem refer_blind (n : Nat) (decl : Decl) : Blind v id (refer n decl) (refer n decl) := .learn _

theorem useField_blind (n : Nat) (found : FoundField) :
    Blindly v id (useField n found) (useField n (found.relocate v.move)) :=
  .lift_same (refer_blind n found.decl) fun _ => .settle found.type

theorem nameType_blind (node : Node) (name : String) :
    Blindly v id (nameType node name) (nameType (node.relocate v.move) name) := by
  refine .read fun scope => .findings fun f => ?_
  rw [scope.ownField?_view, Scope.view_env, Scope.view_program,
    Program.hasClass_view]
  cases scope.env.get? name with
  | some bound => exact .settle bound
  | none =>
    cases scope.ownField? f name with
    | none => exact .fail node.span _
    | some found =>
      refine .bind_same (.settleBy_same ?_) fun _ => useField_blind node.id found
      refine Eq.trans ?_ (moved_bind _ _).symm
      exact congrArg₂ (· >>= ·) (scope.checkAccess_view f node.span _ _ _)
        (funext fun _ => checkInstance_view node.span _ _ _)

theorem receiver_blind (target : Expr) (access : MemberAccess) {infer infer' : Infer Ty}
    (inner : Blindly v id infer infer') :
    Blindly v id (receiver target access infer)
      (receiver (target.relocate v.move) access infer') := by
  refine .read fun scope => .findings fun f => ?_
  rw [scope.namedClass?_view, Expr.id_relocate, Scope.view_program]
  cases scope.namedClass? f target with
  | none =>
    exact .bind_same inner fun type =>
      .settleBy_same (scope.instanceReceiver_view target access type)
  | some owner =>
    dsimp only
    rw [Program.typeWithin_view]
    exact .lift_same (.learn _) fun _ => .lift_same (refer_blind _ _) fun _ => .pure_same _

theorem memberType_blind (node : Node) (name : Ident) {receiver receiver' : Infer Receiver}
    (inner : Blindly v id receiver receiver') :
    Blindly v id (memberType node name receiver)
      (memberType (node.relocate v.move) (name.relocate v.move) receiver') :=
  .bind_same inner fun from_ => .read fun scope => .findings fun f =>
    .bind (.settleBy (scope.memberOf_view f from_ name)) fun found =>
      .bind_same (useField_blind node.id found) fun _ => .pure_same _

/-! ## Signatures -/

@[simp] theorem Findings.paramTypes?_relocate (f : Findings) (move : Span → Span)
    (params : List Param) :
    f.paramTypes? (params.map (.relocate move)) = f.paramTypes? params := by
  unfold paramTypes?
  rw [List.mapM_map]
  simp only [Function.comp_def, Param.relocate, TypeRef.id_relocate]

@[simp] theorem Findings.signatureThrough?_relocate (f : Findings) (move : Span → Span)
    (params : List Param) (returnType : TypeRef) (args : Substitution) :
    f.signatureThrough? (params.map (.relocate move)) (returnType.relocate move) args =
      f.signatureThrough? params returnType args := by
  unfold signatureThrough?
  rw [List.mapM_map, TypeRef.id_relocate]
  simp only [Function.comp_def, Param.relocate, TypeRef.id_relocate]

/-! ## Operators -/

theorem operands_relocate (f : Span → Span) (exprs : List Expr) (types : List Ty) :
    operands (exprs.map (.relocate f)) types = operands exprs types := by
  unfold operands
  rw [List.zip_map_left, List.map_map]
  refine List.map_congr_left fun pair _ => ?_
  simp only [Function.comp_apply, Prod.map, id_eq, Expr.isPlace_relocate]

theorem aliasType?_relocate (f : Span → Span) (e : Expr) (type : Ty) :
    aliasType? (e.relocate f) type = aliasType? e type := by
  rw [aliasType?, Expr.isPlace_relocate, aliasType?]

namespace Program

variable (p : Program) (f : Findings)

theorem ownerParams_view (function : Function) :
    (p.view v).ownerParams (function.view v) = p.ownerParams function := by
  unfold ownerParams Function.view Function.relocate
  dsimp only
  cases function.owner with
  | none => rfl
  | some owner =>
    simp only [Option.map_some, Option.bind_some, theClass?_view, Ident.relocate, classAt_view,
      Class.params_view]

theorem operatorResult?_view (args : List Operand) (i : Nat) :
    (p.view v).operatorResult? f args i = p.operatorResult? f args i := by
  unfold operatorResult?
  dsimp only
  rw [functionAt_view, ownerParams_view]
  dsimp only [Function.view, Function.relocate]
  rw [Findings.paramTypes?_relocate, TypeRef.id_relocate]

theorem findOperator?_view (operator : Operator) (args : List Operand) :
    (p.view v).findOperator? f operator args = p.findOperator? f operator args := by
  simp only [findOperator?, functionsNamed_view, operatorResult?_view]

end Program

theorem overloadType_blind (n : Nat) (operator : Operator) (args : List Operand)
    (otherwise : CheckError) :
    Blindly v id (overloadType n operator args otherwise)
      (overloadType n operator args (otherwise.relocate v.move)) := by
  refine .read fun scope => .findings fun f => ?_
  rw [Scope.view_program, Program.findOperator?_view]
  cases scope.program.findOperator? f operator args with
  | none => exact .fail otherwise.span otherwise.cause
  | some found =>
    dsimp only
    rw [Program.functionAt_view]
    exact .lift_same (refer_blind n (.function found.1)) fun _ =>
      .lift_same (.note (.resolvedOperator operator _)) fun _ => .pure_same _

section Operators

variable {a a' b b' : Infer Ty} (ha : Blindly v id a a') (hb : Blindly v id b b') (node : Node)
include ha

theorem unaryType_blind (op : UnaryOp) (operand : Expr) :
    Blindly v id (unaryType node op operand a)
      (unaryType (node.relocate v.move) op (operand.relocate v.move) a') := by
  refine .bind_same ha fun type => ?_
  have args := operands_relocate v.move [operand] [type]
  rw [List.map_singleton] at args
  rw [aliasType?_relocate, Expr.span_relocate, args]
  cases op with
  | ref =>
    dsimp only
    cases aliasType? operand type with
    | none => exact .fail operand.span _
    | some presented => exact .pure_same _
  | delete =>
    dsimp only
    split
    · exact .pure_same _
    · exact .fail operand.span _
  | neg | pos | bitNot | not =>
    dsimp only
    split
    · exact .pure_same _
    · exact overloadType_blind _ _ _ _

include hb

theorem binaryType_blind (op : BinaryOp) (lhs rhs : Expr) :
    Blindly v id (binaryType node op lhs rhs a b)
      (binaryType (node.relocate v.move) op (lhs.relocate v.move) (rhs.relocate v.move) a'
        b') := by
  refine .attempt_same ha fun left => .attempt_same hb fun right =>
    .bind_same (.settle _) fun leftType => .bind_same (.settle _) fun rightType => ?_
  have args := operands_relocate v.move [lhs, rhs] [leftType, rightType]
  rw [List.map_cons, List.map_singleton] at args
  rw [args]
  split
  · exact .pure_same _
  · exact overloadType_blind _ _ _ _

theorem indexType_blind (target index : Expr) :
    Blindly v id (indexType node target index a b)
      (indexType (node.relocate v.move) (target.relocate v.move) (index.relocate v.move) a'
        b') := by
  refine .attempt_same ha fun left => .attempt_same hb fun right =>
    .bind_same (.settle _) fun collection => .bind_same (.settle _) fun place => ?_
  have args := operands_relocate v.move [target, index] [collection, place]
  rw [List.map_cons, List.map_singleton] at args
  have element (expected elem : Ty) (fits : Bool) :
      elementType collection place (index.relocate v.move).span expected elem fits =
        v.moved (elementType collection place index.span expected elem fits) := by
    unfold elementType
    rw [Expr.span_relocate, moved_ite]
    rfl
  dsimp only
  rw [args, target.span_relocate]
  split
  · exact .settleBy_same (element _ _ _)
  · exact .settleBy_same (element _ _ _)
  · exact overloadType_blind _ _ _ ⟨target.span, .notIndexable _⟩
  · exact overloadType_blind _ _ _ ⟨target.span, .notIndexable _⟩
  · exact .fail target.span _

end Operators

/-! ## Calls -/

def FoundMethod.view (v : View) (found : FoundMethod) : FoundMethod :=
  { found with method := found.method.view v }

def MethodSearch.view (v : View) (search : MethodSearch) : MethodSearch :=
  ⟨search.found.map (.view v), search.accessible.map (.view v), search.hasInstance⟩

theorem FoundMethod.candidate?_view (f : Findings) (found : FoundMethod) :
    (found.view v).candidate? f = found.candidate? f := by
  unfold candidate? view Method.view Method.relocate
  dsimp only
  rw [Findings.signatureThrough?_relocate]

namespace MethodSearch

variable (search : MethodSearch)

theorem found_view : (search.view v).found = search.found.map (.view v) := rfl

theorem lacksInstance_view : (search.view v).lacksInstance = search.lacksInstance := List.any_map

theorem candidates_view (f : Findings) : (search.view v).candidates f = search.candidates f := by
  unfold candidates usable view
  dsimp only
  rw [List.filter_map, List.filterMap_map]
  simp only [Function.comp_def, FoundMethod.candidate?_view]
  rfl

end MethodSearch

theorem Program.findMethods_view (p : Program) (f : Findings) (owner : Nat) (name : String)
    (receiver : Substitution) : (p.view v).findMethods f owner name receiver =
      (p.findMethods f owner name receiver).map (.view v) := by
  unfold findMethods
  rw [List.map_flatMap]
  congr 1
  funext ancestor
  rw [classAt_view, Class.view, List.zipIdx_map, List.filter_map, List.map_map, List.map_map]
  rfl

theorem Program.functionCandidates_view (p : Program) (f : Findings) (name : String) :
    (p.view v).functionCandidates f name = p.functionCandidates f name := by
  unfold functionCandidates
  simp only [functionsNamed_view, functionAt_view, Function.view, Function.relocate,
    Findings.signatureThrough?_relocate]

namespace Scope

variable (scope : Scope) (f : Findings)

theorem searchMethods_view (owner : Nat) (name : String) (receiver : Substitution)
    (hasInstance : Bool) :
    (scope.view v).searchMethods f owner name receiver hasInstance =
      (scope.searchMethods f owner name receiver hasInstance).view v := by
  unfold searchMethods
  dsimp only
  rw [view_program, Program.findMethods_view, List.filter_map]
  simp only [mayUse_view, MethodSearch.view]
  rfl

theorem calleeNamed_view (span : Span) (name : String) :
    (scope.view v).calleeNamed f (v.move span) name =
      v.moved (scope.calleeNamed f span name) := by
  unfold calleeNamed
  simp only [view_selfClass, view_isInstance, view_env, view_program,
    Program.functionCandidates_view, moved_ite]
  cases scope.selfClass with
  | none => rfl
  | some owner =>
    simp only [searchMethods_view, MethodSearch.candidates_view, List.isEmpty_map,
      MethodSearch.lacksInstance_view, MethodSearch.found_view]
    rfl

theorem calleeOf_view (from_ : Receiver) (name : Ident) :
    (scope.view v).calleeOf f from_ (name.relocate v.move) =
      v.moved (scope.calleeOf f from_ name) := by
  unfold calleeOf
  simp only [searchMethods_view, view_program, MethodSearch.candidates_view,
    MethodSearch.lacksInstance_view, MethodSearch.found_view, Program.classAt_view,
    Class.memberTitle_view, List.isEmpty_map, List.find?_map, Function.comp_def,
    mayUse_view, moved_ite, Ident.relocate]
  split
  · rfl
  split
  · rfl
  have hidden : (fun m : FoundMethod => !scope.mayUse f (m.view v).owner
      (m.view v).method.access) = fun m => !scope.mayUse f m.owner m.method.access := rfl
  rw [hidden]
  cases List.find? (fun m : FoundMethod => !scope.mayUse f m.owner m.method.access)
      (scope.searchMethods f from_.owner name.name from_.args from_.hasInstance).found with
  | none => rfl
  | some hidden =>
    dsimp only [Option.map_some]
    rw [moved_ite]
    rfl

end Scope

theorem Callee.choose_blind (callee : Callee) (span : Span) (args : List Operand) :
    Blindly v id (callee.choose span args) (callee.choose (v.move span) args) := by
  unfold choose
  cases callee.candidates.findSome? (Candidate.take? args) with
  | some chosen => exact .pure_same _
  | none =>
    dsimp only
    split
    · exact .fail span _
    · exact .throw

section Calls

variable {infer infer' inferTarget inferTarget' : Infer Ty} (inner : Blindly v id infer infer')
  (innerTarget : Blindly v id inferTarget inferTarget')
include inner innerTarget

theorem findCallee_blind (callee : Expr) :
    Blindly v id (findCallee callee infer inferTarget)
      (findCallee (callee.relocate v.move) infer' inferTarget') := by
  refine .read fun scope => ?_
  cases callee with
  | ident n name =>
    exact .findings fun f => .settleBy_same (scope.calleeNamed_view f n.span name.name)
  | member n target access name =>
    exact .bind_same (receiver_blind target access innerTarget) fun from_ => .findings fun f =>
      .settleBy_same (scope.calleeOf_view f from_ name)
  | _ => exact .attempt_same inner fun _ => .fail (Expr.span _) _

theorem callType_blind (call callee : Expr) (args : List Expr)
    {inferArgs inferArgs' : Check (List Resolved)} (innerArgs : Blind v id inferArgs inferArgs') :
    Blindly v id (callType call callee args infer inferTarget inferArgs)
      (callType (call.relocate v.move) (callee.relocate v.move) (args.map (.relocate v.move))
        infer' inferTarget' inferArgs') := by
  refine .lift_same innerArgs fun results =>
    .attempt_same (findCallee_blind inner innerTarget callee) fun found => ?_
  rw [callee.id_relocate, call.id_relocate, call.span_relocate]
  refine .lift_same (.learn _) fun _ => .bind_same (.settle _) fun meaning =>
    .bind_same (.settle _) fun types => ?_
  rw [operands_relocate]
  exact .bind_same (meaning.choose_blind call.span _) fun chosen =>
    .lift_same (.note (.resolvedCall call chosen.1)) fun _ =>
      .lift_same (refer_blind _ _) fun _ => .pure_same _

end Calls

/-! ## Other expressions -/

theorem thisType_blind (node : Node) :
    Blindly v id (thisType node) (thisType (node.relocate v.move)) := by
  refine .read fun scope => ?_
  rw [Scope.view_selfClass, Scope.view_isInstance, Scope.view_program]
  cases scope.selfClass with
  | none => exact .fail node.span _
  | some owner =>
    dsimp only
    rw [Program.typeWithin_view]
    split
    · exact .pure_same _
    · exact .fail node.span _

theorem newType_blind (node : Node) {resolve resolve' : Infer Ty}
    (inner : Blindly v id resolve resolve') :
    Blindly v id (newType node resolve) (newType (node.relocate v.move) resolve') := by
  refine .bind_same inner fun type => ?_
  split
  · exact .pure_same _
  · exact .fail node.span _

theorem unifyFrom_view (types : List (Ty × Span)) (common : Ty) :
    unifyFrom common (types.map (Prod.map id v.move)) = v.moved (unifyFrom common types) := by
  induction types generalizing common with
  | nil => rfl
  | cons first rest ih =>
    obtain ⟨type, span⟩ := first
    rw [List.map_cons, Prod.map, id_eq, unifyFrom, unifyFrom]
    cases common.widened? type.decay with
    | some wider => exact ih wider
    | none =>
      dsimp only
      rw [moved_ite, ih common]
      rfl

theorem unify_view (types : List (Ty × Span)) :
    unify (types.map (Prod.map id v.move)) = v.moved (unify types) := by
  cases types with
  | nil => rfl
  | cons first rest => exact unifyFrom_view rest first.1.decay

theorem unify_blind (types : List Ty) (spans : List Span) :
    Blindly v id (settleBy (unify (types.zip spans)))
      (settleBy (unify (types.zip (spans.map v.move)))) :=
  .settleBy_same (by rw [List.zip_map_right, unify_view])

theorem listType_blind (elems : List Expr) {infer infer' : Check (List Resolved)}
    (inner : Blind v id infer infer') :
    Blindly v id (listType elems infer) (listType (elems.map (.relocate v.move)) infer') := by
  have spans : (elems.map (.relocate v.move)).map Expr.span = (elems.map Expr.span).map v.move := by
    simp only [List.map_map, Function.comp_def, Expr.span_relocate]
  refine .lift_same inner fun results => .bind_same (.settle _) fun types => ?_
  rw [spans]
  exact .bind_same (unify_blind _ _) fun _ => .pure_same _

theorem pairType_blind {a a' b b' : Infer Ty} (ha : Blindly v id a a') (hb : Blindly v id b b') :
    Blindly v id (pairType a b) (pairType a' b') :=
  .attempt_same ha fun _ => .attempt_same hb fun _ => .bind_same (.settle _) fun _ =>
    .bind_same (.settle _) fun _ => .pure_same _

theorem recordedPair_blind (node : Node) {infer infer' : Infer (Ty × Ty)}
    (inner : Blindly v id infer infer') :
    Blind v id (recordedPair node infer) (recordedPair (node.relocate v.move) infer') :=
  .bind_same inner.run fun _ => .bind_same (.learn _) fun _ => .pure_same _

theorem keymapLiteralType_blind (pairs : List KeymapPair)
    {infer infer' : Check (List (Except Reported (Ty × Ty)))} (inner : Blind v id infer infer') :
    Blindly v id (keymapLiteralType pairs infer)
      (keymapLiteralType (pairs.map (.relocate v.move)) infer') := by
  have keys : (pairs.map (.relocate v.move)).map (fun pair : KeymapPair => pair.key.span) =
      (pairs.map fun pair => pair.key.span).map v.move := by
    simp only [List.map_map]
    exact List.map_congr_left fun pair _ => by cases pair; exact Expr.span_relocate _ _
  have values : (pairs.map (.relocate v.move)).map (fun pair : KeymapPair => pair.value.span) =
      (pairs.map fun pair => pair.value.span).map v.move := by
    simp only [List.map_map]
    exact List.map_congr_left fun pair _ => by cases pair; exact Expr.span_relocate _ _
  refine .lift_same inner fun results => .bind_same (.settle _) fun types => ?_
  dsimp only
  rw [keys, values]
  exact .bind_same (unify_blind _ _) fun _ => .bind_same (unify_blind _ _) fun _ => .pure_same _

theorem storedType_view (kind : AssignKind) (target : Ty) (name : String) (value : Expr)
    (type : Ty) : storedType kind target name (value.relocate v.move) type =
      v.moved (storedType kind target name value type) := by
  unfold storedType
  rw [aliasType?_relocate, value.span_relocate]
  cases kind with
  | value =>
    dsimp only
    rw [moved_ite]
    rfl
  | reference =>
    dsimp only
    rw [moved_ite]
    cases aliasType? value type <;> rfl

theorem checkStore_view (kind : AssignKind) (target : Ty) (name : String) (value : Expr)
    (type : Ty) : checkStore kind target name (value.relocate v.move) type =
      v.moved (checkStore kind target name value type) := by
  unfold checkStore
  rw [storedType_view, value.span_relocate, moved_bind]
  simp only [moved_ite]
  rfl

theorem assignType_blind (kind : AssignKind) (target value : Expr) {a a' b b' : Infer Ty}
    (ha : Blindly v id a a') (hb : Blindly v id b b') :
    Blindly v id (assignType kind target value a b)
      (assignType kind (target.relocate v.move) (value.relocate v.move) a' b') := by
  refine .attempt_same ha fun left => .attempt_same hb fun right =>
    .bind_same (.settle _) fun targetType => .bind_same (.settle _) fun valueType => ?_
  rw [target.span_relocate, target.text_relocate]
  split
  · exact .fail_bind target.span _
  · exact .bind_same (.settleBy_same (checkStore_view ..)) fun _ => .pure_same _

end ClassLang
