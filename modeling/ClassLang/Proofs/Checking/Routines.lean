import ClassLang.Compile
import ClassLang.Proofs.Checking.Analyses
import ClassLang.Proofs.Checking.ClassOrder
import ClassLang.Proofs.Checking.Decoration
import ClassLang.Proofs.Checking.Portions
import ClassLang.Proofs.Parsing.Numbering

/-!
The functions and methods of a program, and what is known of their bodies when the program has been
checked.

* `Program.situated_checked`: every statement of a program has been checked where it stands.
* `Program.roots_settled`: all names and calls of a program have been settled where they stand.
-/

namespace ClassLang

variable {p : Program} {settings : Settings} {base f g : Findings} {scope : Scope} {ns : List Node}
  {s last : CheckState}

/-! ## Routines -/

/-- A function or a method, and the place where its body stands. -/
structure Routine where
  place : Place
  params : List Param
  returnType : TypeRef
  body : Block

namespace Routine

variable (r : Routine)

def vars : Variables := r.params.map fun param => (param.name.name, param.type)

/-- The types in the signature. -/
def signature : List TypeRef := r.params.map Param.type ++ [r.returnType]

def around : Surroundings := ⟨r.place, r.vars, some r.returnType⟩

end Routine

namespace Program

def methodRoutine (p : Program) (owner : Nat) (m : Method) : Routine :=
  ⟨p.memberPlace owner !m.isStatic, m.params, m.returnType, m.body⟩

def functionRoutine (p : Program) (function : Function) : Routine :=
  ⟨p.functionPlace function, function.params, function.returnType, function.body⟩

/-- The methods of all classes, and all functions, those that define operators among them. -/
def routines (p : Program) : List Routine :=
  (p.classIndices.flatMap fun i => (p.classAt i).methods.map (p.methodRoutine i)) ++
    p.functions.map p.functionRoutine

/-- The surroundings of the first value of a field. -/
def fieldAround (p : Program) (owner : Nat) (field : Field) : Surroundings :=
  ⟨p.memberPlace owner !field.isStatic, [], none⟩

/-- The statements of a program, each with its surroundings. -/
def situated (p : Program) : List (Surroundings × Statement) :=
  (p.routines.flatMap fun r =>
    (r.body.scoped r.vars).map fun here => (⟨r.place, here.1, some r.returnType⟩, here.2)) ++
  (scopedStatements [] [] p.statements).map fun here => (⟨.top, here.1, none⟩, here.2)

/-- The expressions that are not part of others, each with its surroundings. -/
def roots (p : Program) : List (Surroundings × Expr) :=
  (p.situated.flatMap fun here => here.2.roots.map (here.1, ·)) ++
  p.classIndices.flatMap fun i => (p.classAt i).fields.flatMap fun field =>
    (field.init.map fun init => (p.fieldAround i field, init.value)).toList

end Program

/-! ## Bodies -/

/-- What is known of a function or method when it has been checked with some verdict. -/
structure Routine.Checked (p : Program) (r : Routine) (sound : Bool) (s : CheckState) : Prop where
  explained : Explained p r.place (some r.returnType) (r.body.scoped r.vars) s.findings
  inner : s.findings.validity r.body.id = some true →
    ∀ inner ∈ r.body.statements, s.findings.validity inner.id = some true
  judged : sound = true → s.findings.validity r.body.id = some true
  returns : ∀ type, s.findings.cached r.returnType.id = some (.ok type) → type.isVoid = false →
    r.body.containsReturn = false → sound = false ∧
      ∃ title, ⟨r.body.span, .missingReturn title⟩ ∈ s.errors

theorem Routine.Checked.weaken {r : Routine} {sound sound' : Bool} (h : r.Checked p sound s)
    (le : sound' = true → sound = true) : r.Checked p sound' s where
  explained := h.explained
  inner := h.inner
  judged given := h.judged (le given)
  returns type known valued empty := by
    obtain ⟨failed, reported⟩ := h.returns type known valued empty
    refine ⟨Bool.eq_false_iff.2 fun given => ?_, reported⟩
    rw [le given] at failed
    cases failed

theorem bindParams_fits (params : List Param) (env : Environment) (vars : Variables)
    (known : ∀ t ∈ params.map Param.type, (f.cached t.id).isSome = true)
    (before : ∀ name, Option.Rel (fun r (t : TypeRef) => f.cached t.id = some r) (env.get? name)
      (vars.lookup name)) :
    Ensures (bindParams env params) scope f fun bound g => g = f ∧ ∀ name,
      Option.Rel (fun r (t : TypeRef) => f.cached t.id = some r) (bound.1.get? name)
        ((vars ++ params.map fun param => (param.name.name, param.type)).lookup name) := by
  induction params generalizing env vars with
  | nil => exact .pure ⟨rfl, by simpa using before⟩
  | cons param rest ih =>
    obtain ⟨first, others⟩ := List.forall_mem_cons.1 known
    unfold bindParams
    dsimp only
    split
    · rename_i bound
      refine .silent (fun _ => rfl) fun _ => .bind (ih env vars others before) ?_
      rintro ⟨after, _⟩ _ ⟨rfl, fits⟩
      refine .pure ⟨rfl, fun name => ?_⟩
      -- the name is taken, so the new pair is never found
      have taken : (vars.lookup param.name.name).isSome = true := by
        have here := before param.name.name
        rw [Environment.contains] at bound
        cases found : env.get? param.name.name with
        | none => rw [found] at bound; cases bound
        | some r =>
          rw [found] at here
          cases here' : vars.lookup param.name.name with
          | none => rw [here'] at here; cases here
          | some t => rfl
      have fits := fits name
      rw [List.lookup_append] at fits ⊢
      rw [List.map_cons, List.lookup_cons]
      by_cases same : name = param.name.name
      · subst same
        obtain ⟨t, found⟩ := Option.isSome_iff_exists.1 taken
        rw [found] at fits ⊢
        exact fits
      · rw [beq_eq_false_iff_ne.2 same]
        exact fits
    · rename_i free
      obtain ⟨r, known⟩ := Option.isSome_iff_exists.1 first
      refine .bind (TypeRef.resolve_still known) ?_
      rintro r _ ⟨rfl, rfl⟩
      have more := ih (env.insert param.name.name r) (vars ++ [(param.name.name, param.type)]) others
      simp only [List.append_assoc, List.singleton_append] at more
      refine more fun name => ?_
      have here := before name
      rw [Environment.get?_insert, List.lookup_append, List.lookup_cons]
      by_cases same : name = param.name.name
      · subst same
        have unbound : env.get? param.name.name = none := by
          simpa [Environment.contains] using free
        rw [unbound] at here
        cases found : vars.lookup param.name.name with
        | some t => rw [found] at here; cases here
        | none =>
          rw [if_pos rfl, beq_self_eq_true]
          exact .some known
      · rw [if_neg same, beq_eq_false_iff_ne.2 same]
        simpa using here

theorem Block.check_passes (b : Block) (grounded : scope.Grounded) :
    Passes scope.program base b.check scope b.nodes := by
  intro s _ awaits
  have grown := Steps.errors_prefix ((b.check_honest awaits.distinct).within scope s rfl)
  rw [← b.subtrees_nodes] at awaits
  exact ⟨⟨_, At.inside b.subtrees_nodes, (b.check_leaves scope _ awaits grounded s rfl).trail⟩, grown⟩

theorem missingReturnFaults_eq (title : String) (body : Block) {type : Ty} (valued : type.isVoid = false)
    (empty : body.containsReturn = false) :
    missingReturnFaults (some (.ok type)) title body = [⟨body.span, .missingReturn title⟩] := by
  simp [missingReturnFaults, valued, empty]

theorem exec_checkBody (title : String) (body : Block) :
    (checkBody title body).exec scope s = ((body.check.exec scope s).1 &&
      (missingReturnFaults scope.returnType title body).isEmpty,
      { (body.check.exec scope s).2 with
        errors := (body.check.exec scope s).2.errors ++
          missingReturnFaults scope.returnType title body }) := rfl

theorem checkBody_ran {r : Routine} {title : String}
    (ran : Ran scope.program base (checkBody title r.body) scope r.body.nodes s last)
    (fits : scope.Fits base r.around) (grounded : scope.Grounded) :
    r.Checked scope.program ((checkBody title r.body).exec scope s).1 last := by
  have whole : Ran scope.program base (checkBody title r.body) scope (r.body.nodes ++ []) s last := by
    rw [List.append_nil]
    exact ran
  have passes : Passes scope.program base _ scope _ := r.body.check_passes grounded
  have others (sound : Bool) : Passes scope.program base (do
      return sound && (← reportAll (missingReturnFaults scope.returnType title r.body))) scope [] :=
    Passes.map (.reportAll _)
  have body := whole.left passes others
  have awaits := body.awaits
  rw [← r.body.subtrees_nodes] at awaits
  obtain ⟨done, judged⟩ := r.body.check_establishes scope s.findings r.around ⟨awaits, grounded⟩
    (fits.later ran.later) s rfl
  have keeps := body.keeps
  rw [← r.body.subtrees_nodes] at keeps
  have done := Compound.lasting (.block r.body) _ _ _ _ _ keeps done
  have judged := keeps.extends_.validity judged
  refine ⟨done.explained, fun valid => ?_, fun sound => ?_, fun type known valued empty => ?_⟩
  · exact done.blocks (Option.some.inj (judged.symm.trans valid)) r.body (List.mem_singleton_self _)
  · rw [judged]
    exact congrArg some (Bool.and_eq_true_iff.1 sound).1
  · have returns := fits.returns
    cases expected : scope.returnType with
    | none =>
      rw [expected] at returns
      cases returns
    | some result =>
      rw [expected] at returns
      obtain ⟨known'⟩ := returns
      cases known.symm.trans ((body.extends_ passes).cached known')
      have reports := ran.reports
      rw [exec_checkBody, expected, missingReturnFaults_eq title r.body valued empty] at reports ⊢
      exact ⟨Bool.and_false _, title,
        reports.subset (List.mem_append_right _ (List.mem_singleton_self _))⟩

/-! ## Routines in a run -/

theorem exec_checkCallable {title : String} {params : List Param} {returnType : TypeRef} {body : Block}
    {env : Environment} {paramsSound : Bool} {type : Resolved} {t u : CheckState}
    (bound : (bindParams .empty params).exec scope s = ((env, paramsSound), t))
    (resolved : Check.exec returnType.resolve.run scope t = (type, u)) :
    (checkCallable title params returnType body).exec scope s =
      (paramsSound && ((checkBody title body).exec (scope.inBody env type) u).1,
        ((checkBody title body).exec (scope.inBody env type) u).2) := by
  rw [checkCallable, Check.exec_bind, bound]
  dsimp only
  rw [Check.exec_bind, resolved]
  rfl

theorem checkCallable_ran {r : Routine} {title : String}
    (ran : Ran scope.program base (checkCallable title r.params r.returnType r.body) scope
      r.body.nodes s last)
    (place : scope.place = r.place)
    (grounds : base.Grounds scope.program scope.generics r.signature) :
    r.Checked scope.program
      ((checkCallable title r.params r.returnType r.body).exec scope s).1 last := by
  have grounds := grounds.mono ran.later
  have written (t : TypeRef) (listed : t ∈ r.params.map Param.type) :=
    grounds t (List.mem_append_left _ listed)
  have known (t : TypeRef) (listed : t ∈ r.params.map Param.type) :
      (s.findings.cached t.id).isSome = true := by
    obtain ⟨_, known, _⟩ := written t listed
    rw [known]
    rfl
  obtain ⟨result, returns, -⟩ :=
    grounds r.returnType (List.mem_append_right _ (List.mem_singleton_self _))
  have bound : Ensures (bindParams .empty r.params) scope s.findings _ :=
    bindParams_fits r.params .empty [] known fun _ => .none
  obtain ⟨still, inScope⟩ := bound s rfl
  obtain ⟨-, grounded⟩ := bindParams_still r.params .empty written (.of_empty rfl) s rfl
  rcases run : (bindParams .empty r.params).exec scope s with ⟨⟨env, paramsSound⟩, t⟩
  rw [run] at still inScope grounded
  have resolved : Ensures r.returnType.resolve.run scope t.findings fun type g =>
    g = t.findings ∧ type = result := TypeRef.resolve_still (still ▸ returns)
  have resolved := resolved t rfl
  rcases run' : Check.exec r.returnType.resolve.run scope t with ⟨type, u⟩
  rw [run'] at resolved
  obtain ⟨still', rfl⟩ := resolved
  have same : u.findings = s.findings := still'.trans still
  have answer : (checkCallable title r.params r.returnType r.body).exec scope s = _ :=
    exec_checkCallable run run'
  have keeps := ran.keeps
  have reports := ran.reports
  rw [answer] at keeps reports ⊢
  have body : Ran scope.program s.findings (checkBody title r.body) (scope.inBody env type)
      r.body.nodes u last :=
    ⟨by rw [same]; exact .refl _, by rw [same]; exact ran.awaits, keeps, reports⟩
  have fits : (scope.inBody env type).Fits s.findings r.around := ⟨place, inScope, .some returns⟩
  exact (checkBody_ran body fits grounded).weaken fun sound => (Bool.and_eq_true_iff.1 sound).2

theorem checkMethod_ran {i : Nat} {m : Method}
    (ran : Ran p base (checkMethod i m) (.top p settings) m.body.nodes s last)
    (grounds : base.Grounds p (p.classAt i).params m.signature) :
    (p.methodRoutine i m).Checked p ((checkMethod i m).exec (.top p settings) s).1 last := by
  have body : Ran ((Scope.top p settings).inClass i !m.isStatic).program base
      (checkCallable ((p.classAt i).memberTitle m.name.name) m.params m.returnType m.body)
      ((Scope.top p settings).inClass i !m.isStatic) m.body.nodes s last :=
    ⟨ran.later, ran.awaits, ran.keeps, ran.reports⟩
  exact checkCallable_ran (r := p.methodRoutine i m) body rfl grounds

theorem checkFunctionBody_ran {i : Nat}
    (ran : Ran p base (checkFunctionBody i) (.top p settings) (p.functionAt i).body.nodes s last)
    (grounds : base.Grounds p (p.functionPlace (p.functionAt i)).generics (p.functionAt i).signature) :
    (p.functionRoutine (p.functionAt i)).Checked p
      ((checkFunctionBody i).exec (.top p settings) s).1 last := by
  have program : ((Scope.top p settings).ofFunction (p.functionAt i)).program = p :=
    (Scope.top p settings).ofFunction_program (p.functionAt i)
  have body : Ran ((Scope.top p settings).ofFunction (p.functionAt i)).program base
      (checkCallable (p.functionAt i).title (p.functionAt i).params (p.functionAt i).returnType
        (p.functionAt i).body) ((Scope.top p settings).ofFunction (p.functionAt i))
      (p.functionAt i).body.nodes (s.noted (.functionBody (p.functionAt i).name.name)) last := by
    rw [program]
    exact ⟨ran.later, ran.awaits, ran.keeps, ran.reports⟩
  have checked := checkCallable_ran (r := p.functionRoutine (p.functionAt i)) body
    (Scope.ofFunction_place _) (by rw [program, Scope.ofFunction_generics]; exact grounds)
  rw [program] at checked
  exact checked

/-- What is known of the first value of a field when it has been checked with some verdict. -/
structure Field.Checked (p : Program) (owner : Nat) (field : Field) (init : Initializer) (sound : Bool)
    (f : Findings) : Prop where
  settled : ∃ scope, scope.program = p ∧ scope.Fits f (p.fieldAround owner field) ∧
    AllSettled scope init.value.subtrees f
  stored : sound = true → ∃ target type, f.cached field.type.id = some (.ok target) ∧
    f.cached init.value.id = some (.ok type) ∧
      checkStore init.kind target field.name.name init.value type = .ok ()

theorem checkField_passes {i : Nat} {field : Field} (distinct : Distinct (field.type.nodes ++
      initializerNodes field.init)) (known : (base.cached field.type.id).isSome = true) :
    Passes p base (checkField i field) (.top p settings) (initializerNodes field.init) := by
  intro s later awaits
  obtain ⟨r, here⟩ := Option.isSome_iff_exists.1 known
  have trail : Ensures (checkField i field) (.top p settings) s.findings _ :=
    checkField_trail (by rw [later.cached here]; rfl) awaits
  have trail := trail s rfl
  exact ⟨⟨_, At.inside (initializerSubtrees_nodes _), trail.trail⟩,
    Steps.errors_prefix ((checkField_honest i field distinct).within (.top p settings) s rfl)⟩

theorem checkField_ran {i : Nat} {field : Field} {init : Initializer} (given : field.init = some init)
    (ran : Ran p base (checkField i field) (.top p settings) (initializerNodes field.init) s last)
    (known : (base.cached field.type.id).isSome = true) (passes : Passes p base (checkField i field)
      (.top p settings) (initializerNodes field.init)) :
    field.Checked p i init ((checkField i field).exec (.top p settings) s).1 last.findings := by
  obtain ⟨r, known⟩ := Option.isSome_iff_exists.1 known
  have whole := ran.extends_ passes
  have keeps := ran.keeps
  have nodes : initializerNodes field.init = init.value.subtrees.map Subtree.node := by
    rw [given, init.value.subtrees_nodes]
    rfl
  rw [nodes] at keeps
  have established : Ensures (checkField i field) (.top p settings) s.findings fun sound g =>
      AllSettled ((Scope.top p settings).inClass i !field.isStatic) init.value.subtrees g ∧
        (sound = true → ∃ t type, r = .ok t ∧ g.cached init.value.id = some (.ok type) ∧
          checkStore init.kind t field.name.name init.value type = .ok ()) := by
    unfold checkField
    rw [given]
    refine .withReader (.bind (TypeRef.resolve_still (ran.later.cached known)) ?_)
    rintro target _ ⟨rfl, rfl⟩
    exact checkInitializer_establishes target field.name.name init _ _ (p.fieldAround i field)
      ⟨nodes ▸ ran.awaits, .of_empty rfl⟩ ⟨rfl, fun _ => .none, .none⟩
  obtain ⟨settled, stored⟩ := established s rfl
  refine ⟨⟨(Scope.top p settings).inClass i !field.isStatic, rfl, ⟨rfl, fun _ => .none, .none⟩, ?_⟩,
    fun sound => ?_⟩
  · exact settled.alike init.value.subtrees_closed keeps.alike
  · obtain ⟨target, type, rfl, typed, fits⟩ := stored sound
    exact ⟨target, type, whole.cached known, keeps.extends_.cached typed, fits⟩

/-! ## Classes in a run -/

/-- What is known of the fields and methods of a class when its body has been checked with some
verdict. -/
structure Program.CheckedClass (p : Program) (i : Nat) (sound : Bool) (s : CheckState) : Prop where
  fields : ∀ field ∈ (p.classAt i).fields, ∀ init, field.init = some init →
    field.Checked p i init sound s.findings
  methods : ∀ m ∈ (p.classAt i).methods, (p.methodRoutine i m).Checked p sound s

theorem Field.Checked.weaken {i : Nat} {field : Field} {init : Initializer} {sound sound' : Bool}
    (h : field.Checked p i init sound f) (le : sound' = true → sound = true) :
    field.Checked p i init sound' f :=
  ⟨h.settled, fun given => h.stored (le given)⟩

section Class

variable {i : Nat} (distinct : Distinct (TypeRef.nodesAll (p.classAt i).signature ++
    (p.classAt i).bodyNodes)) (grounds : base.Grounds p (p.classAt i).params (p.classAt i).signature)

section

include grounds

theorem Class.field_known {field : Field} (listed : field ∈ (p.classAt i).fields) :
    (base.cached field.type.id).isSome = true := by
  obtain ⟨r, known, _⟩ := grounds _ (List.mem_append_left _ (List.mem_map_of_mem listed))
  rw [known]
  rfl

theorem Class.method_grounds {m : Method} (listed : m ∈ (p.classAt i).methods) :
    base.Grounds p (p.classAt i).params m.signature := fun t written =>
  grounds t (List.mem_append_right _ (List.mem_flatMap.2 ⟨m, listed, written⟩))

end

section

include distinct

theorem Class.distinct_field {field : Field} (listed : field ∈ (p.classAt i).fields) :
    Distinct (field.type.nodes ++ initializerNodes field.init) := by
  have types := distinct.left
  rw [Class.signature, TypeRef.nodesAll_append] at types
  have written : field.type ∈ (p.classAt i).fields.map Field.type := List.mem_map_of_mem listed
  have type := types.left
  rw [TypeRef.nodesAll_eq] at type
  refine (type.of_flatMap written).append (distinct.right.left.of_flatMap listed)
    (distinct.apart.mono ?_ ?_)
  · exact TypeRef.nodes_subset_nodesAll (List.mem_append_left _ written)
  · exact fun n inside => List.mem_append_left _ (List.mem_flatMap.2 ⟨field, listed, inside⟩)

theorem Class.distinct_method {m : Method} (listed : m ∈ (p.classAt i).methods) :
    Distinct (TypeRef.nodesAll m.signature ++ m.body.nodes) := by
  have types := distinct.left
  rw [Class.signature, TypeRef.nodesAll_append] at types
  have signatures : Distinct ((p.classAt i).methods.flatMap fun m => TypeRef.nodesAll m.signature) := by
    simpa only [TypeRef.nodesAll_eq, List.flatMap_assoc] using types.right
  refine (signatures.of_flatMap listed).append (distinct.right.right.of_flatMap listed)
    (distinct.apart.mono ?_ ?_)
  · refine TypeRef.nodesAll_subset fun t written => List.mem_append_right _ ?_
    exact List.mem_flatMap.2 ⟨m, listed, written⟩
  · exact fun n inside => List.mem_append_right _ (List.mem_flatMap.2 ⟨m, listed, inside⟩)

end

include distinct grounds

theorem checkFields_pass (field : Field) (listed : field ∈ (p.classAt i).fields) :
    Passes p base (checkField i field) (.top p settings) (initializerNodes field.init) :=
  checkField_passes (Class.distinct_field distinct listed) (Class.field_known grounds listed)

theorem checkMethods_pass (m : Method) (listed : m ∈ (p.classAt i).methods) :
    Passes p base (checkMethod i m) (.top p settings) m.body.nodes := by
  intro s later awaits
  have grounds := (Class.method_grounds grounds listed).mono later
  have trail : Ensures (checkMethod i m) (.top p settings) s.findings _ :=
    checkMethod_trail grounds awaits
  have trail := trail s rfl
  have parts := Class.distinct_method distinct listed
  exact ⟨⟨_, At.inside m.body.subtrees_nodes, trail.trail⟩,
    Steps.errors_prefix ((checkMethod_honest i m parts).within (.top p settings) s rfl)⟩

theorem checkClassBody_passes :
    Passes p base (checkClassBody i) (.top p settings) (p.classAt i).bodyNodes := by
  intro s later awaits
  have trail : Ensures (checkClassBody i) (.top p settings) s.findings _ :=
    checkClassBody_trail i (grounds.mono later) awaits
  have trail := trail s rfl
  exact ⟨⟨_, fun _ _ => Program.ClassBody.inside, trail.1⟩,
    Steps.errors_prefix ((checkClassBody_honest i distinct).within (.top p settings) s rfl)⟩

theorem checkClassBody_ran
    (ran : Ran p base (checkClassBody i) (.top p settings) (p.classAt i).bodyNodes s last) :
    p.CheckedClass i ((checkClassBody i).exec (.top p settings) s).1 last := by
  have fields : Passes p base ((p.classAt i).fields.mapM (checkField i)) (.top p settings) _ :=
    .mapM (checkFields_pass distinct grounds)
  have methods : Passes p base ((p.classAt i).methods.mapM (checkMethod i)) (.top p settings) _ :=
    .mapM (checkMethods_pass distinct grounds)
  have body : Ran p base (do
      let fieldsSound ← (p.classAt i).fields.mapM (checkField i)
      let methodsSound ← (p.classAt i).methods.mapM (checkMethod i)
      return fieldsSound.all id && methodsSound.all id) (.top p settings) (p.classAt i).bodyNodes
      (s.noted (.classBody (p.classAt i).name.name)) last :=
    ⟨ran.later, ran.awaits, ran.keeps, ran.reports⟩
  have first := body.left fields fun _ => methods.map
  have second := body.right fields
  have second : Ran p base ((p.classAt i).methods.mapM (checkMethod i)) (.top p settings) _ _ last :=
    ⟨second.later, second.awaits, second.keeps, second.reports⟩
  refine ⟨fun field listed init given => ?_, fun m listed => ?_⟩
  · obtain ⟨t, made, all⟩ := first.mapM_all (checkFields_pass distinct grounds) field listed
    refine (checkField_ran given made (Class.field_known grounds listed)
      (checkFields_pass distinct grounds field listed)).weaken fun sound => all ?_
    exact (Bool.and_eq_true_iff.1 sound).1
  · obtain ⟨t, made, all⟩ := second.mapM_all (checkMethods_pass distinct grounds) m listed
    refine (checkMethod_ran made (Class.method_grounds grounds listed)).weaken
      fun sound => all ?_
    exact (Bool.and_eq_true_iff.1 sound).2

end Class

/-! ## The whole run -/

namespace Phase

section Distinct

variable (settings) (distinct : Distinct p.nodes)
include distinct

theorem grounds_class (i : Nat) : (methodSets p settings).2.findings.Grounds p (p.classAt i).params
    (p.classAt i).signature := by
  obtain ⟨course, start⟩ := declarations_course settings distinct
  exact (Findings.TypesDenoted.empty.course course ⟨nofun, nofun⟩ distinct).ofClass start.known i

theorem grounds_function {i : Nat} (listed : i ∈ p.functionIndices) :
    (methodSets p settings).2.findings.Grounds p (p.functionPlace (p.functionAt i)).generics
      (p.functionAt i).signature := by
  obtain ⟨course, start⟩ := declarations_course settings distinct
  exact (Findings.TypesDenoted.empty.course course ⟨nofun, nofun⟩ distinct).ofFunction start.known listed

theorem classes_pass (i : Nat) (listed : i ∈ p.classIndices) : Passes p
    (methodSets p settings).2.findings (checkClassBody i) (.top p settings) (p.classAt i).bodyNodes :=
  checkClassBody_passes ((Program.distinct_bodies distinct).of_flatMap listed)
    (grounds_class settings distinct i)

theorem distinct_function {i : Nat} (listed : i ∈ p.functionIndices) :
    Distinct (TypeRef.nodesAll (p.functionAt i).signature ++ (p.functionAt i).body.nodes) := by
  have parts := (Program.distinct_parts distinct).right
  have bodies := parts.right.right.left.right
  rw [Program.flatMap_functions] at bodies
  refine ((signature_distinct distinct).2.1.of_flatMap listed).append (bodies.of_flatMap listed)
    (parts.apart.mono ?_ ?_)
  · refine TypeRef.nodesAll_subset fun t written => ?_
    rw [Program.signature_eq]
    exact List.mem_append_right _ (List.mem_flatMap.2 ⟨i, listed, written⟩)
  · refine fun n inside => List.mem_append_right _ (List.mem_append_left _ ?_)
    exact List.mem_append_right _ (List.mem_flatMap.2 ⟨_, Program.functionAt_mem listed, inside⟩)

theorem functions_pass (i : Nat) (listed : i ∈ p.functionIndices) : Passes p
    (methodSets p settings).2.findings (checkFunctionBody i) (.top p settings)
      (p.functionAt i).body.nodes := by
  intro s later awaits
  have grounds := (grounds_function settings distinct listed).mono later
  have trail : Ensures (checkFunctionBody i) (.top p settings) s.findings _ :=
    checkFunctionBody_trail i grounds awaits
  have trail := trail s rfl
  have honest := checkFunctionBody_honest i (distinct_function distinct listed)
  exact ⟨⟨_, At.inside (Block.subtrees_nodes _), trail.trail⟩,
    Steps.errors_prefix (honest.within (.top p settings) s rfl)⟩

omit distinct in
theorem statements_pass : Passes p (methodSets p settings).2.findings
    (checkStatements [] false p.statements) (.top p settings) (statementNodes p.statements) := by
  intro s later awaits
  have honest := checkStatements_honest (p := p) [] false p.statements awaits.distinct
  have grown := Steps.errors_prefix (honest.within (.top p settings) s rfl)
  rw [← statementSubtrees_nodes] at awaits
  exact ⟨⟨_, At.inside (statementSubtrees_nodes _), (checkStatements_leaves [] false p.statements
    (.top p settings) _ awaits (.of_empty rfl) s rfl).trail⟩, grown⟩

/-- The checks of the bodies, one after the other. -/
theorem bodies_ran :
    Ran p (methodSets p settings).2.findings (p.classIndices.mapM checkClassBody) (.top p settings)
      (p.classIndices.flatMap fun i => (p.classAt i).bodyNodes)
      ((methodSets p settings).2.noted .checkingBodies) (p.analyze settings).state ∧
    Ran p (methodSets p settings).2.findings (p.functionIndices.mapM checkFunctionBody)
      (.top p settings) (p.functionIndices.flatMap fun i => (p.functionAt i).body.nodes)
      (implemented p settings).2 (p.analyze settings).state ∧
    Ran p (methodSets p settings).2.findings (checkStatements [] false p.statements)
      (.top p settings) (statementNodes p.statements) (functionsImplemented p settings).2
      (p.analyze settings).state := by
  obtain ⟨_, start⟩ := declarations_course settings distinct
  have trail := (statements_trail settings distinct).1
  have tidy := trail.tidy start.tidy
  have known := (trail.extends_ start.tidy).known start.known
  have keeps (ns : List Node) : (statements p settings).2.findings.Later p ns
      (p.analyze settings).state.findings := by
    change Findings.Later _ _ _ (judged p settings).findings
    rw [judged_eq, ← Findings.judgeAll_append]
    exact .judgeAll _ tidy known
  have whole : Ran p (methodSets p settings).2.findings (do
      let implemented ← p.classIndices.mapM checkClassBody
      let functionsImplemented ← p.functionIndices.mapM checkFunctionBody
      let sound ← checkStatements [] false p.statements
      return (implemented, functionsImplemented, sound)) (.top p settings)
      ((p.classIndices.flatMap fun i => (p.classAt i).bodyNodes) ++
        ((p.functionIndices.flatMap fun i => (p.functionAt i).body.nodes) ++
          statementNodes p.statements))
      ((methodSets p settings).2.noted .checkingBodies) (p.analyze settings).state := by
    refine ⟨.refl _, ?_, keeps _, ?_⟩
    · rw [Program.bodyNodes, Program.flatMap_classes, Program.flatMap_functions,
        List.append_assoc] at start
      exact start
    · change (statements p settings).2.errors <+: (judged p settings).errors
      rw [judged_eq]
  have classes := Passes.mapM (classes_pass settings distinct)
  have functions := Passes.mapM (functions_pass settings distinct)
  have others := statements_pass (p := p) settings
  have later := whole.right classes
  have last := later.right functions
  exact ⟨whole.left classes fun _ => functions.bind fun _ => others.map,
    later.left functions fun _ => others.map,
    ⟨last.later, last.awaits, last.keeps, last.reports⟩⟩

theorem classes_checked (pair : Nat × Bool)
    (listed : pair ∈ p.classIndices.zip (implemented p settings).1) :
    p.CheckedClass pair.1 pair.2 (p.analyze settings).state := by
  have inside : pair.1 ∈ p.classIndices := (List.of_mem_zip listed).1
  obtain ⟨t, made, answer⟩ :=
    (bodies_ran settings distinct).1.mapM (classes_pass settings distinct) pair listed
  rw [← answer]
  exact checkClassBody_ran ((Program.distinct_bodies distinct).of_flatMap inside)
    (grounds_class settings distinct pair.1) made

theorem functions_checked (pair : Nat × Bool)
    (listed : pair ∈ p.functionIndices.zip (functionsImplemented p settings).1) :
    (p.functionRoutine (p.functionAt pair.1)).Checked p pair.2 (p.analyze settings).state := by
  have inside : pair.1 ∈ p.functionIndices := (List.of_mem_zip listed).1
  obtain ⟨t, made, answer⟩ :=
    (bodies_ran settings distinct).2.1.mapM (functions_pass settings distinct) pair listed
  rw [← answer]
  exact checkFunctionBody_ran made (grounds_function settings distinct inside)

theorem statements_explained : Explained p .top none (scopedStatements [] [] p.statements)
    (p.analyze settings).state.findings := by
  have ran := (bodies_ran settings distinct).2.2
  have awaits := ran.awaits
  have keeps := ran.keeps
  rw [← statementSubtrees_nodes] at awaits
  have established := checkStatements_establishes [] false p.statements (.top p settings) _
    ⟨.top, [], none⟩ ⟨awaits, .of_empty rfl⟩ ⟨rfl, fun _ => .none, .none⟩ _ rfl
  refine established.1.mono keeps fun vars s inside e root => ?_
  exact List.Subset.trans (Statement.roots_nodes root) (scopedStatements_nodes inside)

end Distinct

end Phase

section Program

variable (settings) (distinct : Distinct p.nodes)
include distinct

theorem Program.class_checked {i : Nat} (listed : i ∈ p.classIndices) :
    p.CheckedClass i false (p.analyze settings).state := by
  obtain ⟨sound, _, paired⟩ := exists_paired (Phase.implemented p settings).1
    (Check.length_mapM ..).symm listed
  have checked := Phase.classes_checked settings distinct _ paired
  exact ⟨fun field declared init given => (checked.fields field declared init given).weaken nofun,
    fun m declared => (checked.methods m declared).weaken nofun⟩

theorem Program.routine_checked {r : Routine} (listed : r ∈ p.routines) :
    r.Checked p false (p.analyze settings).state := by
  rcases List.mem_append.1 listed with ofClass | ofFunction
  · obtain ⟨i, inside, listed⟩ := List.mem_flatMap.1 ofClass
    obtain ⟨m, declared, rfl⟩ := List.mem_map.1 listed
    exact (Program.class_checked settings distinct inside).methods m declared
  · obtain ⟨function, declared, rfl⟩ := List.mem_map.1 ofFunction
    rw [← p.map_functionAt] at declared
    obtain ⟨i, inside, rfl⟩ := List.mem_map.1 declared
    obtain ⟨sound, _, paired⟩ := exists_paired (Phase.functionsImplemented p settings).1
      (Check.length_mapM ..).symm inside
    exact (Phase.functions_checked settings distinct _ paired).weaken nofun

/-- Every statement of a program has been checked where it stands. -/
theorem Program.situated_checked {around : Surroundings} {s : Statement}
    (listed : (around, s) ∈ p.situated) : ∃ scope, scope.program = p ∧
      scope.Fits (p.analyze settings).state.findings around ∧
        s.Checked scope (p.analyze settings).state.findings := by
  rcases List.mem_append.1 listed with inRoutine | top
  · obtain ⟨r, declared, inRoutine⟩ := List.mem_flatMap.1 inRoutine
    obtain ⟨⟨vars, s⟩, inside, same⟩ := List.mem_map.1 inRoutine
    cases same
    exact (Program.routine_checked settings distinct declared).explained vars s inside
  · obtain ⟨⟨vars, s⟩, inside, same⟩ := List.mem_map.1 top
    cases same
    exact Phase.statements_explained settings distinct vars s inside

/-- All names and calls of a program have been settled where they stand. -/
theorem Program.roots_settled {around : Surroundings} {e : Expr} (listed : (around, e) ∈ p.roots) :
    ∃ scope, scope.program = p ∧ scope.Fits (p.analyze settings).state.findings around ∧
      AllSettled scope e.subtrees (p.analyze settings).state.findings := by
  rcases List.mem_append.1 listed with inStatement | inField
  · obtain ⟨⟨around, s⟩, inside, root⟩ := List.mem_flatMap.1 inStatement
    obtain ⟨e, root, same⟩ := List.mem_map.1 root
    cases same
    obtain ⟨scope, program, fits, checked⟩ := Program.situated_checked settings distinct inside
    exact ⟨scope, program, fits, checked.settled e root⟩
  · obtain ⟨i, here, inField⟩ := List.mem_flatMap.1 inField
    obtain ⟨field, declared, first⟩ := List.mem_flatMap.1 inField
    obtain ⟨init, given, same⟩ := Option.map_eq_some_iff.1 (Option.mem_toList.1 first)
    cases same
    exact ((Program.class_checked settings distinct here).fields field declared init given).settled

end Program

/-! ## Where expressions lie -/

/-- An expression lies below one that stands in some surroundings. -/
def Program.Situates (p : Program) (around : Surroundings) (e : Expr) : Prop :=
  ∃ root, (around, root) ∈ p.roots ∧ .expr e ∈ root.subtrees

section Situates

variable {around : Surroundings} {e root : Expr} {t : Statement}

theorem Program.situates_of_statement (stands : (around, t) ∈ p.situated) (listed : root ∈ t.roots)
    (inside : .expr e ∈ root.subtrees) : p.Situates around e :=
  ⟨root, List.mem_append_left _ (List.mem_flatMap.2 ⟨_, stands, List.mem_map_of_mem listed⟩), inside⟩

theorem Program.situates_of_routine {r : Routine} (declared : r ∈ p.routines)
    (inside : .expr e ∈ r.body.subtrees) : ∃ around, p.Situates around e := by
  obtain ⟨t, within, root, listed, inside⟩ := r.body.rooted inside
  obtain ⟨here, stands⟩ := Block.exists_scoped within r.vars
  refine ⟨⟨r.place, here, some r.returnType⟩,
    Program.situates_of_statement (List.mem_append_left _ ?_) listed inside⟩
  exact List.mem_flatMap.2 ⟨r, declared, List.mem_map.2 ⟨_, stands, rfl⟩⟩

theorem Program.expr_stands (listed : .expr e ∈ p.subtrees) : ∃ place, p.Stands (.expr e) place := by
  rcases Program.stands_of_mem listed with ⟨_, _, same⟩ | stands
  · cases same
  · exact stands

/-- Every expression of a program lies somewhere. -/
theorem Program.exists_situates (listed : .expr e ∈ p.subtrees) : ∃ around, p.Situates around e := by
  obtain ⟨place, stands⟩ := Program.expr_stands listed
  cases stands.embodies with
  | @ofClass i _ _ here inClass =>
    cases inClass with
    | @init field _ declared inside =>
      obtain ⟨root, given, inside⟩ := initializerSubtrees_root inside
      obtain ⟨init, isGiven, rfl⟩ := Option.map_eq_some_iff.1 (Option.mem_toList.1 given)
      refine ⟨p.fieldAround i field, init.value, List.mem_append_right _ ?_, inside⟩
      refine List.mem_flatMap.2 ⟨i, here, List.mem_flatMap.2 ⟨field, declared, ?_⟩⟩
      rw [isGiven]
      exact List.mem_singleton_self _
    | @method m _ declared inside =>
      refine Program.situates_of_routine (r := p.methodRoutine i m) ?_ inside
      exact List.mem_append_left _
        (List.mem_flatMap.2 ⟨i, here, List.mem_map_of_mem declared⟩)
  | @ofFunction i _ here inside =>
    refine Program.situates_of_routine (r := p.functionRoutine (p.functionAt i)) ?_ inside
    exact List.mem_append_right _ (List.mem_map_of_mem (Program.functionAt_mem here))
  | statement inside =>
    obtain ⟨t, within, root, listed, inside⟩ := statementSubtrees_rooted _ inside
    rw [← scopedStatements_within [] []] at within
    obtain ⟨here, stands, rfl⟩ := List.mem_map.1 within
    exact ⟨⟨.top, here.1, none⟩, Program.situates_of_statement
      (List.mem_append_right _ (List.mem_map.2 ⟨_, stands, rfl⟩)) listed inside⟩

theorem Routine.params_subtrees {r : Routine} {x : Subtree} {xs : List Subtree}
    (inside : x :: (r.returnType.subtrees ++ r.params.flatMap Param.subtrees ++ r.body.subtrees) ⊆ xs) :
    r.body.subtrees ⊆ xs ∧ ∀ v ∈ r.vars, .type v.2 ∈ xs := by
  refine ⟨fun y below => inside (List.mem_cons_of_mem _ (List.mem_append_right _ below)), fun v named => ?_⟩
  obtain ⟨param, listed, rfl⟩ := List.mem_map.1 named
  refine inside (List.mem_cons_of_mem _ (List.mem_append_left _ (List.mem_append_right _ ?_)))
  exact List.mem_flatMap.2 ⟨param, listed, List.mem_cons_of_mem _ param.type.subtree_mem_subtrees⟩

theorem Program.routine_subtrees {r : Routine} (declared : r ∈ p.routines) :
    r.body.subtrees ⊆ p.subtrees ∧ ∀ v ∈ r.vars, .type v.2 ∈ p.subtrees := by
  rcases List.mem_append.1 declared with ofClass | ofFunction
  · obtain ⟨i, here, ofClass⟩ := List.mem_flatMap.1 ofClass
    obtain ⟨m, listed, rfl⟩ := List.mem_map.1 ofClass
    have inside : m.subtrees ⊆ p.subtrees := fun x inside =>
      Program.class_subtrees here (List.mem_cons_of_mem _
        (List.mem_append_right _ (List.mem_flatMap.2 ⟨m, listed, inside⟩)))
    exact Routine.params_subtrees (r := p.methodRoutine i m) inside
  · obtain ⟨function, listed, rfl⟩ := List.mem_map.1 ofFunction
    have inside : function.subtrees ⊆ p.subtrees := fun x inside =>
      List.mem_append_left _ (List.mem_append_right _ (List.mem_flatMap.2 ⟨function, listed, inside⟩))
    exact Routine.params_subtrees (r := p.functionRoutine function) inside

theorem Program.situated_subtrees (stands : (around, t) ∈ p.situated) :
    t.subtrees ⊆ p.subtrees ∧ ∀ v ∈ around.vars, .type v.2 ∈ p.subtrees := by
  rcases List.mem_append.1 stands with inRoutine | top
  · obtain ⟨r, declared, inRoutine⟩ := List.mem_flatMap.1 inRoutine
    obtain ⟨⟨vars, t⟩, inside, same⟩ := List.mem_map.1 inRoutine
    cases same
    obtain ⟨body, params⟩ := Program.routine_subtrees declared
    refine ⟨List.Subset.trans (r.body.within_subtrees (Block.mem_within inside)) body, fun v inScope => ?_⟩
    exact (r.body.scoped_declared _ inside v inScope).elim (params v) (@body _)
  · obtain ⟨⟨vars, t⟩, inside, same⟩ := List.mem_map.1 top
    cases same
    have body : statementSubtrees p.statements ⊆ p.subtrees := List.subset_append_right _ _
    refine ⟨List.Subset.trans (scopedStatements_subtrees inside) body, fun v inScope => ?_⟩
    exact (scopedStatements_declared _ _ _ inside v inScope).elim nofun (@body _)

/-- What lies in some surroundings is part of the program, and so are the types of the variables. -/
theorem Program.Situates.subtrees (h : p.Situates around e) :
    .expr e ∈ p.subtrees ∧ ∀ v ∈ around.vars, .type v.2 ∈ p.subtrees := by
  obtain ⟨root, stands, inside⟩ := h
  rcases List.mem_append.1 stands with inStatement | inField
  · obtain ⟨⟨around, t⟩, here, inStatement⟩ := List.mem_flatMap.1 inStatement
    obtain ⟨root, listed, same⟩ := List.mem_map.1 inStatement
    cases same
    obtain ⟨part, declared⟩ := Program.situated_subtrees here
    exact ⟨part (Statement.roots_subtrees listed inside), declared⟩
  · obtain ⟨i, here, inField⟩ := List.mem_flatMap.1 inField
    obtain ⟨field, declared, first⟩ := List.mem_flatMap.1 inField
    obtain ⟨init, given, same⟩ := Option.map_eq_some_iff.1 (Option.mem_toList.1 first)
    cases same
    refine ⟨Program.Embodied.mem (.ofClass here (.init declared ?_)), fun _ => nofun⟩
    rw [given]
    exact inside

end Situates

/-- What is compiled has been parsed, so its nodes have different numbers. -/
theorem Source.compile_ok {source : Source} {settings : Settings} {c : Compilation}
    (compiled : source.compile settings = .ok c) :
    ∃ p : Program, Distinct p.nodes ∧ p.compile settings = c := by
  rw [Source.compile] at compiled
  cases parsed : source.parse Parser.program with
  | error e =>
    rw [parsed] at compiled
    cases compiled
  | ok p =>
    rw [parsed] at compiled
    exact ⟨p, source.parse_program_nodup parsed, Except.ok.inj compiled⟩

end ClassLang
