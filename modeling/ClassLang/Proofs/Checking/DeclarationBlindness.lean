import ClassLang.Checking.Analysis
import ClassLang.Proofs.Checking.TreeBlindness
import Mathlib.Data.Option.Basic

/-!
Overload sets, inheritance and signatures are checked without regard to places and bodies, and whole
programs without regard to places.

* `Program.analyze_relocate`: a program whose places are moved has the same findings and the same
  reports, but for their places.
-/

namespace ClassLang

variable {v : View}

/-! ## Overload sets -/

def OverloadMember.relocate (f : Span → Span) (m : OverloadMember) : OverloadMember :=
  { m with span := f m.span }

def OverloadSet.relocate (f : Span → Span) (set : OverloadSet) : OverloadSet :=
  ⟨set.title, set.members.map (.relocate f)⟩

namespace OverloadSet

variable (f : Span → Span) (set : OverloadSet)

theorem faults_relocate : (set.relocate f).faults = set.faults.map (.relocate f) := by
  unfold faults relocate
  dsimp only
  rw [List.filterMap_map, List.map_flatMap]
  congr 1
  funext signature
  rw [List.filter_map, ← List.map_drop, List.map_map, List.map_map]
  rfl

theorem number_relocate (findings : Findings) :
    (set.relocate f).number findings = set.number findings := by
  unfold number relocate
  rw [List.zipIdx_map, List.foldl_map]
  rfl

end OverloadSet

theorem Function.title_view (function : Function) : (function.view v).title = function.title := rfl

theorem Program.functionSets_view (p : Program) (f : Findings) :
    (p.view v).functionSets f = (p.functionSets f).map (.relocate v.move) := by
  unfold functionSets
  simp only [functionGroups_view, functionAt_view, Function.title_view, List.map_map]
  refine List.map_congr_left fun group _ => ?_
  simp only [Function.comp_apply, OverloadSet.relocate, List.map_map, Function.view,
    Function.relocate, Findings.paramTypes?_relocate]
  rfl

theorem Program.methodSets_view (p : Program) (f : Findings) (owner : Nat) :
    (p.view v).methodSets f owner =
      (p.methodSets f owner).map (.relocate v.move) := by
  unfold methodSets
  simp only [classAt_view, Class.memberTitle_view]
  dsimp only [Class.view, Class.relocate]
  simp only [List.map_map, Function.comp_def, Method.view, Method.relocate, Ident.relocate,
    OverloadSet.relocate, List.zipIdx_map, List.filter_map, Prod.map, Findings.paramTypes?_relocate]
  rfl

theorem Method.staticFaults_view (m : Method) :
    (m.view v).staticFaults = m.staticFaults.map (.relocate v.move) := by
  unfold staticFaults Method.view Method.relocate
  dsimp only
  split
  · rw [List.map_append, List.map_append]
    congr 1
    · congr 1
      all_goals split <;> rfl
    · split <;> rfl
  · rfl

theorem checkSets_blind (sets : List OverloadSet) :
    Blind v id (checkSets sets) (checkSets (sets.map (.relocate v.move))) := by
  have numbered : (fun f : Findings => (sets.map (.relocate v.move)).foldl
      (fun f set => OverloadSet.number set f) f) =
      fun f => sets.foldl (fun f set => set.number f) f := by
    funext f
    rw [List.foldl_map]
    simp only [OverloadSet.number_relocate]
  have faults : (sets.map (.relocate v.move)).flatMap OverloadSet.faults =
      (sets.flatMap OverloadSet.faults).map (.relocate v.move) := by
    rw [List.flatMap_map, List.map_flatMap]
    simp only [OverloadSet.faults_relocate]
  unfold checkSets
  rw [numbered, faults]
  exact .bind_same (.learn _) fun _ => .reportAll _

theorem checkFunctionSets_blind : Blind v id checkFunctionSets checkFunctionSets := by
  refine .read fun scope => .findings fun f => ?_
  rw [Scope.view_program, Program.functionSets_view]
  exact checkSets_blind _

theorem checkMethodSets_blind (owner : Nat) :
    Blind v id (checkMethodSets owner) (checkMethodSets owner) := by
  refine .read fun scope => ?_
  have faults : ((scope.program.classAt owner).view v).methods.flatMap
      Method.staticFaults =
      ((scope.program.classAt owner).methods.flatMap Method.staticFaults).map
        (.relocate v.move) := by
    rw [Class.view, List.flatMap_map, List.map_flatMap]
    simp only [Method.staticFaults_view]
  dsimp only
  rw [Scope.view_program, Program.classAt_view, faults]
  refine .bind_same (.reportAll _) fun _ => .findings fun f => ?_
  rw [Program.methodSets_view]
  exact .bind_same (checkSets_blind _) fun _ => .pure_same _

/-! ## Inheritance -/

theorem TypeRef.className?_relocate (f : Span → Span) (t : TypeRef) :
    (t.relocate f).className? = t.className? := by
  cases t <;> rfl

theorem Findings.signature?_view (f : Findings) (m : Method) : f.signature? (m.view v) = f.signature? m := by
  unfold signature? Method.view Method.relocate
  dsimp only
  rw [List.mapM_map, TypeRef.id_relocate]
  simp only [Function.comp_def, Param.relocate, TypeRef.id_relocate]

namespace Program

variable (p : Program) (f : Findings)

theorem declaredSuperclass?_view (i : Nat) :
    (p.view v).declaredSuperclass? i = p.declaredSuperclass? i := by
  unfold declaredSuperclass?
  rw [classAt_view, Class.view, Class.relocate]
  simp only [funext p.theClass?_view]
  cases (p.classAt i).superclass with
  | none => rfl
  | some written =>
    simp only [Option.map_some, Option.bind_some, TypeRef.className?_relocate]

theorem leadsTo_view (target steps i : Nat) :
    (p.view v).leadsTo target steps i = p.leadsTo target steps i := by
  induction steps generalizing i with
  | zero => rfl
  | succ steps ih =>
    unfold leadsTo
    rw [declaredSuperclass?_view]
    simp only [ih]

theorem inCycle_view (i : Nat) : (p.view v).inCycle i = p.inCycle i := by
  rw [inCycle, leadsTo_view, view, List.length_map, inCycle]

theorem superclassName_view (i : Nat) (written : TypeRef) :
    (p.view v).superclassName i (written.relocate v.move) =
      v.moved (p.superclassName i written) := by
  unfold superclassName
  simp only [classAt_view, Class.params_view, Class.name_view, hasClass_view,
    inCycle_view, TypeRef.className?_relocate, TypeRef.mods_relocate, TypeRef.span_relocate,
    TypeRef.text_relocate]
  cases written.className? with
  | none => rfl
  | some name =>
    simp only [moved_ite]
    rfl

end Program

theorem Class.memberNameFaults_view (c : Class) :
    (c.view v).memberNameFaults = c.memberNameFaults.map (.relocate v.move) := by
  unfold memberNameFaults
  dsimp only
  simp only [fieldIndex?_view, name_view]
  dsimp only [Class.view, Class.relocate]
  rw [repeatedNames_map, List.map_append, List.map_map, List.map_map, List.filter_map,
    List.map_map, List.map_map]
  rfl

namespace Program

variable (p : Program) (f : Findings)

theorem inheritedField?_view (ancestors : List Ancestor) (name : String) :
    (p.view v).inheritedField? ancestors name =
      (p.inheritedField? ancestors name).map (.view v) := by
  unfold inheritedField?
  have seen : (ancestors.map fun ancestor => (p.view v).classAt ancestor.index) =
      (ancestors.map fun ancestor => p.classAt ancestor.index).map (.view v) := by
    simp only [classAt_view, List.map_map, Function.comp_def]
  rw [seen, List.find?_map]
  congr 2
  funext c
  simp only [Function.comp_apply, Class.view, Class.relocate, List.find?_map, Option.any_map]
  rfl

theorem inheritedFieldFaults_view (c : Class) (ancestors : List Ancestor) :
    (p.view v).inheritedFieldFaults (c.view v) ancestors =
      (p.inheritedFieldFaults c ancestors).map (.relocate v.move) := by
  unfold inheritedFieldFaults
  simp only [inheritedField?_view]
  dsimp only [Class.view, Class.relocate]
  rw [List.filterMap_map, List.map_filterMap]
  congr 1
  funext field
  simp only [Function.comp_apply, Field.relocate, Option.map_map]
  rfl

theorem overridden?_view (ancestors : List Ancestor) (name : String) (params : List Ty) :
    (p.view v).overridden? f ancestors name params =
      (p.overridden? f ancestors name params).map (Prod.map (.view v) id) := by
  unfold overridden?
  rw [List.map_findSome?]
  congr 1
  funext ancestor
  simp only [Function.comp_apply, classAt_view]
  dsimp only [Class.view, Class.relocate]
  rw [List.findSome?_map, List.map_findSome?]
  congr 1
  funext m
  have eligible : ((m.view v).name.name == name && (m.view v).isOverridable &&
      !(m.view v).isStatic) = (m.name.name == name && m.isOverridable && !m.isStatic) := rfl
  simp only [Function.comp_apply, Findings.signature?_view, eligible]
  by_cases here : (m.name.name == name && m.isOverridable && !m.isStatic) = true
  · cases f.signature? m with
    | none => simp only [here, Option.bind_eq_bind, Option.bind_none, Option.bind_fun_none,
        Option.map_none]
    | some types =>
      simp only [here, guard, if_true, Option.bind_eq_bind, Option.bind_some, Option.pure_def]
      by_cases same : (types.1.map ancestor.args.apply == params) = true
      · simp only [same, if_true]
        rfl
      · simp only [same]
        rfl
  · simp only [here, guard]
    rfl

theorem overrideFaults_view (ancestors : List Ancestor) (m : Method) :
    (p.view v).overrideFaults f ancestors (m.view v) =
      (p.overrideFaults f ancestors m).map (.relocate v.move) := by
  unfold overrideFaults
  rw [Findings.signature?_view]
  cases f.signature? m with
  | none => rfl
  | some types =>
    dsimp only
    have found := p.overridden?_view (v := v) f ancestors m.name.name types.1
    dsimp only [Method.view, Method.relocate, Ident.relocate]
    rw [found, TypeRef.span_relocate, apply_ite (List.map _)]
    cases p.overridden? f ancestors m.name.name types.1 with
    | none => rfl
    | some base =>
      dsimp only [Option.map_some, Prod.map, Method.view, Method.relocate, id_eq]
      rw [List.map_append, apply_ite (List.map _), apply_ite (List.map _)]
      rfl

theorem shadowsVirtual_view (ancestors : List Ancestor) (m : Method) :
    (p.view v).shadowsVirtual f ancestors (m.view v) =
      p.shadowsVirtual f ancestors m := by
  unfold shadowsVirtual
  rw [Findings.signature?_view]
  dsimp only [Method.view, Method.relocate, Ident.relocate]
  simp only [overridden?_view, Option.isSome_map]

theorem comparesWithInherited_view (c : Class) (superclassSound : Bool) (m : Method) :
    (c.view v).comparesWithInherited superclassSound (m.view v) =
      c.comparesWithInherited superclassSound m := by
  unfold Class.comparesWithInherited Class.view Class.relocate Method.view Method.relocate
  dsimp only
  rw [Option.isSome_map]

theorem methodFaults_view (c : Class) (superclassSound : Bool) (ancestors : List Ancestor)
    (m : Method) :
    (p.view v).methodFaults f (c.view v) superclassSound ancestors
        (m.view v) =
      (p.methodFaults f c superclassSound ancestors m).map (.relocate v.move) := by
  unfold methodFaults
  rw [comparesWithInherited_view, overrideFaults_view, List.map_append, List.map_append]
  have bare : (c.view v).superclass.isNone = c.superclass.isNone := Option.isNone_map
  rw [bare]
  dsimp only [Method.view, Method.relocate, Ident.relocate, Class.name_view]
  simp only [apply_ite (List.map (CheckError.relocate v.move))]
  rfl

theorem memberFaults_view (i : Nat) (superclassSound : Bool) :
    (p.view v).memberFaults f i superclassSound =
      (p.memberFaults f i superclassSound).map (.relocate v.move) := by
  unfold memberFaults
  dsimp only
  rw [classAt_view, Class.memberNameFaults_view, inheritedFieldFaults_view,
    List.map_append, List.map_append, List.map_flatMap]
  congr 1
  dsimp only [Class.view, Class.relocate]
  rw [List.flatMap_map]
  congr 1
  funext m
  exact p.methodFaults_view f (p.classAt i) superclassSound _ m

theorem shadowWarnings_view (i : Nat) (superclassSound : Bool) :
    (p.view v).shadowWarnings f i superclassSound =
      (p.shadowWarnings f i superclassSound).map (.relocate v.move) := by
  unfold shadowWarnings
  dsimp only
  rw [classAt_view]
  have compared (m : Method) : ((p.classAt i).view v).comparesWithInherited
      superclassSound (m.view v) = (p.classAt i).comparesWithInherited superclassSound m :=
    comparesWithInherited_view (p.classAt i) superclassSound m
  have methods : ((p.classAt i).view v).methods =
      (p.classAt i).methods.map (.view v) := rfl
  rw [methods, List.filter_map, List.map_map, List.map_map]
  simp only [Function.comp_def, compared, shadowsVirtual_view]
  rfl

end Program

/-- Examines a class while its superclass is examined blindly. -/
theorem checkSuperclass_blind {examine : Nat → Check Bool}
    (inner : ∀ i, Blind v id (examine i) (examine i)) (i : Nat) :
    Blind v id (checkSuperclass examine i) (checkSuperclass examine i) := by
  refine .read fun scope => ?_
  dsimp only
  rw [Scope.view_program, Program.classAt_view]
  dsimp only [Class.view, Class.relocate]
  cases (scope.program.classAt i).superclass with
  | none => exact .pure_same _
  | some written =>
    refine .succeeds (.bind_same (.settleBy_same (scope.program.superclassName_view i written))
      fun name => .bind_same (.of_run ?_) fun type => ?_)
    · rw [Infer.run_withReader, Infer.run_withReader]
      refine .withReader written.resolve_blind.run fun scope' => ?_
      rw [← (scope.program.classAt i).params_view (v := v)]
      rfl
    · rw [Program.classOf?_view, TypeRef.span_relocate]
      cases scope.program.classOf? type with
      | none => exact .throw
      | some superclass =>
        refine .lift_same (inner superclass) fun sound => ?_
        rw [Program.argsOf_view]
        split
        · exact .fail_bind written.span _
        · exact .lift (.learn _)

theorem warnAll_blind (warnings : List Warning) :
    Blind v id (warnings.forM warn) ((warnings.map (.relocate v.move)).forM warn) := by
  induction warnings with
  | nil => exact .pure_same _
  | cons w rest ih => exact .bind_same (.warn w) fun _ => ih

theorem checkMembers_blind (i : Nat) (superclassSound : Bool) :
    Blind v id (checkMembers i superclassSound) (checkMembers i superclassSound) := by
  refine .read fun scope => .findings fun f => ?_
  rw [Scope.view_program, Program.shadowWarnings_view, Program.memberFaults_view]
  exact .bind_same (warnAll_blind _) fun _ => .reportAll _

theorem examineClass_blind {examine : Nat → Check Bool}
    (inner : ∀ i, Blind v id (examine i) (examine i)) (i : Nat) :
    Blind v id (examineClass examine i) (examineClass examine i) := by
  refine .bind_same (.learn _) fun _ => .bind_same (checkSuperclass_blind inner i) fun superclassSound =>
    .bind_same (checkMembers_blind i superclassSound) fun membersSound =>
      .bind_same (.learn _) fun _ => .read fun scope => ?_
  rw [Scope.view_program, Program.classAt_view]
  exact .bind_same (.note _) fun _ => .pure_same _

theorem checkInheritance_blind (depth i : Nat) :
    Blind v id (checkInheritance depth i) (checkInheritance depth i) := by
  induction depth generalizing i with
  | zero =>
    unfold checkInheritance
    refine .findings fun f => ?_
    cases f.mark i <;> exact .pure_same _
  | succ depth ih =>
    unfold checkInheritance
    refine .findings fun f => ?_
    cases f.mark i with
    | done valid => exact .pure_same _
    | inProgress => exact .pure_same _
    | unvisited => exact examineClass_blind ih i

/-! ## Names and signatures -/

theorem Program.redeclarations_view (p : Program) :
    (p.view v).redeclarations = p.redeclarations.map (.relocate v.move) := by
  unfold redeclarations view
  dsimp only
  rw [repeatedNames_map, List.map_map, List.map_map]
  rfl

theorem Class.typeParameterFaults_view (c : Class) :
    (c.view v).typeParameterFaults = c.typeParameterFaults.map (.relocate v.move) := by
  unfold typeParameterFaults view relocate
  dsimp only
  rw [repeatedNames_map, List.map_map, List.map_map]
  rfl

theorem checkNames_blind (i : Nat) : Blind v id (checkNames i) (checkNames i) := by
  refine .read fun scope => ?_
  dsimp only
  rw [Scope.view_program, Program.classAt_view, Class.typeParameterFaults_view,
    Class.name_view, Program.findClass_view]
  exact .bind_same (.reportAll _) fun _ => .pure_same _

/-- The types of a signature, placed nowhere. -/
theorem signatureTypes_relocate (f : Span → Span) (params : List Param) (returnType : TypeRef) :
    (params.map (.relocate f)).map Param.type ++ [returnType.relocate f] =
      (params.map Param.type ++ [returnType]).map (.relocate f) := by
  rw [List.map_append, List.map_map, List.map_map]
  rfl

theorem checkClassSignatures_blind (i : Nat) :
    Blind v id (checkClassSignatures i) (checkClassSignatures i) := by
  refine .read fun scope => ?_
  dsimp only
  rw [Scope.view_program, Program.classAt_view, Class.params_view]
  dsimp only [Class.view, Class.relocate]
  refine .withReader ?_ fun _ => rfl
  have fields : ((scope.program.classAt i).fields.map (.relocate v.move)).map Field.type =
      ((scope.program.classAt i).fields.map Field.type).map (.relocate v.move) := by
    rw [List.map_map, List.map_map]
    rfl
  rw [fields]
  refine .bind_same (resolveAll_blind _) fun fieldsSound =>
    .bind_same (.mapM (Method.view v) _ fun m => ?_) fun _ => .pure_same _
  have types := resolveAll_blind (v := v) (m.params.map Param.type ++ [m.returnType])
  rwa [← signatureTypes_relocate] at types

theorem Scope.ofFunction_view (function : Function) (scope : Scope) :
    (scope.view v).ofFunction (function.view v) =
      (scope.ofFunction function).view v := by
  unfold ofFunction
  rw [view_program, Function.view, Function.relocate]
  dsimp only
  cases function.owner with
  | none => rfl
  | some owner =>
    simp only [Option.map_some, Option.bind_some, Program.theClass?_view, Ident.relocate]
    cases scope.program.theClass? owner.name with
    | none => rfl
    | some i => exact (scope.inClass_view i false).symm

theorem checkFunctionSignature_blind (i : Nat) :
    Blind v id (checkFunctionSignature i) (checkFunctionSignature i) := by
  refine .read fun scope => ?_
  dsimp only
  rw [Scope.view_program, Program.functionAt_view]
  have types := resolveAll_blind (v := v) ((scope.program.functionAt i).params.map Param.type ++
    [(scope.program.functionAt i).returnType])
  rw [← signatureTypes_relocate] at types
  exact .withReader types (Scope.ofFunction_view _)

/-! ## Declared bodies -/

theorem bindParams_blind (env : Environment) (params : List Param) :
    Blind v id (bindParams env params) (bindParams env (params.map (.relocate v.move))) := by
  induction params generalizing env with
  | nil => exact .pure_same _
  | cons param rest ih =>
    rw [List.map_cons, bindParams, bindParams]
    dsimp only
    have named : (param.relocate v.move).name.name = param.name.name := rfl
    simp only [named]
    split
    · exact .bind_same (.report ⟨param.name.span, _⟩) fun _ => .bind_same (ih env) fun _ =>
        .pure_same _
    · exact .bind_same param.type.resolve_blind.run fun _ => ih _

theorem checkCallable_blind (title : String) (params : List Param) (returnType : TypeRef)
    (body : Block) :
    Blind v id (checkCallable title params returnType body)
      (checkCallable title (params.map (.relocate v.move)) (returnType.relocate v.move)
        (body.relocate v.move)) :=
  .bind_same (bindParams_blind .empty params) fun _ =>
    .bind_same returnType.resolve_blind.run fun _ =>
      .bind_same (.withReader (checkBody_blind title body) fun _ => rfl) fun _ => .pure_same _

theorem checkField_blind (owner : Nat) (field : Field) :
    Blind v id (checkField owner field) (checkField owner (field.relocate v.move)) := by
  unfold checkField
  dsimp only [Field.relocate]
  cases field.init with
  | none => exact .pure_same _
  | some init =>
    exact .withReader
      (.bind_same field.type.resolve_blind.run fun type =>
        checkInitializer_blind type field.name.name init)
      fun scope => (scope.inClass_view owner _).symm

theorem checkMethod_blind (owner : Nat) (m : Method) :
    Blind v id (checkMethod owner m) (checkMethod owner (m.relocate v.move)) := by
  refine .read fun scope => ?_
  dsimp only
  rw [Scope.view_program, Program.classAt_view, Class.memberTitle_view]
  exact .withReader (checkCallable_blind _ m.params m.returnType m.body)
    fun scope => (scope.inClass_view owner _).symm

theorem checkClass_blind (i : Nat) (c : Class) :
    Blind v id (checkClass i c) (checkClass i (c.relocate v.move)) :=
  .bind_same (.note (.classBody _)) fun _ =>
    .bind_same (.mapM (Field.relocate v.move) _ (checkField_blind i)) fun _ =>
      .bind_same (.mapM (Method.relocate v.move) _ (checkMethod_blind i)) fun _ => .pure_same _

theorem checkFunction_blind (function : Function) :
    Blind v id (checkFunction function) (checkFunction (function.relocate v.move)) :=
  .bind_same (.note (.functionBody _)) fun _ =>
    .withReader (checkCallable_blind function.title function.params function.returnType function.body)
      (Scope.ofFunction_view function)

/-- Through the view bodies and statements are seen as they are, but for their places. -/
structure View.Faithful (v : View) : Prop where
  body : ∀ b, v.body b = b.relocate v.move
  statements : ∀ ss, v.statements ss = ss.map (.relocate v.move)

section Faithful

variable (faithful : v.Faithful)
include faithful

theorem View.Faithful.function (function : Function) : function.view v = function.relocate v.move := by
  rw [Function.view, faithful.body]
  rfl

theorem View.Faithful.class (c : Class) : c.view v = c.relocate v.move := by
  have method : Method.view v = Method.relocate v.move :=
    funext fun m => by
      rw [Method.view, faithful.body]
      rfl
  rw [Class.view, method]
  rfl

theorem checkClassBody_blind (i : Nat) : Blind v id (checkClassBody i) (checkClassBody i) := by
  rw [checkClassBody_eq]
  refine .read fun scope => ?_
  rw [Scope.view_program, Program.classAt_view, faithful.class]
  exact checkClass_blind i (scope.program.classAt i)

theorem checkFunctionBody_blind (i : Nat) :
    Blind v id (checkFunctionBody i) (checkFunctionBody i) := by
  rw [checkFunctionBody_eq]
  refine .read fun scope => ?_
  rw [Scope.view_program, Program.functionAt_view, faithful.function]
  exact checkFunction_blind (scope.program.functionAt i)

end Faithful

/-! ## Programs -/

theorem judgeEach_blind (ids : List Nat) (verdicts : List Bool) :
    Blind v id (judgeEach ids verdicts) (judgeEach ids verdicts) := by
  unfold judgeEach
  induction ids.zip verdicts with
  | nil => exact .pure_same _
  | cons first rest ih => exact .bind_same (.learn _) fun _ => ih

theorem finish_blind (verdict : Verdict) :
    Blind v id (do note (.finished (← get).errors.length verdict.valid); return verdict)
      (do note (.finished (← get).errors.length verdict.valid); return verdict) := by
  intro scope s
  have counted : (s.relocate v.move).errors.length = s.errors.length := List.length_map _
  change Check.exec (do
      note (.finished (s.relocate v.move).errors.length verdict.valid)
      return verdict) (scope.view v) (s.relocate v.move) = _
  rw [counted]
  exact Blind.bind_same (.note (.finished s.errors.length verdict.valid)) (fun _ => .pure_same verdict)
    scope s

theorem checkProgram_blind (faithful : v.Faithful) : Blind v id checkProgram checkProgram := by
  refine .read fun scope => ?_
  dsimp only
  have classIds : (scope.program.view v).classes.map Class.id =
      scope.program.classes.map Class.id := List.map_map
  have functionIds : ((scope.program.view v).functions.map fun f => f.node.id) =
      scope.program.functions.map fun f => f.node.id := List.map_map
  have statements : (scope.program.view v).statements =
      relocateStatements v.move scope.program.statements := by
    rw [relocateStatements_eq]
    exact faithful.statements _
  rw [Scope.view_program, Program.classIndices_view, Program.functionIndices_view,
    Program.redeclarations_view, classIds, functionIds, statements]
  exact .bind_same (.reportAll _) fun _ => .bind_same (.mapM_same _ checkNames_blind) fun named =>
    .bind_same (.note _) fun _ => .bind_same (.mapM_same _ checkClassSignatures_blind) fun typed =>
    .bind_same (.mapM_same _ checkFunctionSignature_blind) fun functionsTyped =>
    .bind_same (.note _) fun _ => .bind_same (.mapM_same _ (checkInheritance_blind _)) fun derived =>
    .bind_same (.note _) fun _ => .bind_same checkFunctionSets_blind fun setsSound =>
    .bind_same (.mapM_same _ checkMethodSets_blind) fun overloaded =>
    .bind_same (.note _) fun _ => .bind_same (.mapM_same _ (checkClassBody_blind faithful)) fun implemented =>
    .bind_same (.mapM_same _ (checkFunctionBody_blind faithful)) fun functionsImplemented =>
    .bind_same (checkStatements_blind [] false _) fun statementsSound =>
    .bind_same (judgeEach_blind _ _) fun _ => .bind_same (judgeEach_blind _ _) fun _ => finish_blind _

theorem Program.analyze_relocate (p : Program) {move : Span → Span} (keeps : move default = default)
    (settings : Settings) : (p.relocate move).analyze settings =
      ⟨(p.analyze settings).verdict, (p.analyze settings).state.relocate move⟩ :=
  congrArg (fun out : Verdict × CheckState => (⟨out.1, out.2⟩ : Analysis))
    (checkProgram_blind (v := .moving move keeps) ⟨fun _ => rfl, fun _ => rfl⟩ (.top p settings) .empty)

end ClassLang
