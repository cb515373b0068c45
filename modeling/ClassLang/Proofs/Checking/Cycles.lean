import ClassLang.Proofs.Checking.DeclarationParallels
import ClassLang.Proofs.Checking.Surveys

/-!
Reports of cycles among classes: each class on a cycle is told of once, whichever way the examination
enters the cycle, and every class that leads to one is left unsound and without a superclass.
-/

namespace ClassLang

variable {p : Program} {scope : Scope} {s t : CheckState} {i j : Nat}

/-! ## Classes on a cycle -/

/-- A class on a cycle whose extends clause is in order but for that. -/
structure Program.OnCycle (p : Program) (i : Nat) : Prop where
  cycle : Relation.TransGen p.Names i i
  unmodified : ∀ written ∈ (p.classAt i).superclass, written.mods = .none
  foreign : ∀ written ∈ (p.classAt i).superclass, ∀ name ∈ written.className?,
    name ∉ (p.classAt i).params

def Program.cycleFault (p : Program) (i : Nat) : CheckError :=
  ⟨(p.classAt i).name.span, .inheritanceCycle (p.classAt i).name.name⟩

theorem Program.OnCycle.mem (h : p.OnCycle i) : i ∈ p.classIndices :=
  have ⟨_, _, named⟩ := Relation.TransGen.tail'_iff.1 h.cycle
  named.mem

theorem Program.hasClass_of_theClass? {name : String} (found : p.theClass? name = some i) :
    p.hasClass name = true := by
  obtain ⟨c, here, called⟩ := mem_classesNamed.1 (by
    rw [findClass_found.1 (theClass?_found found)]
    exact List.mem_singleton_self i)
  exact List.any_eq_true.2 ⟨c, List.mem_iff_getElem?.2 ⟨i, here⟩, by simpa using called⟩

theorem Program.OnCycle.superclassName (h : p.OnCycle i) {written : TypeRef}
    (extends_ : (p.classAt i).superclass = some written) :
    p.superclassName i written = .error (p.cycleFault i) := by
  obtain ⟨next, named, _⟩ := Relation.TransGen.head'_iff.1 h.cycle
  rw [Names, declaredSuperclass?, extends_] at named
  obtain ⟨name, called, found⟩ := Option.bind_eq_some_iff.1 named
  have called : written.className? = some name := called
  have plain := h.unmodified written extends_
  have foreign := h.foreign written extends_ name called
  unfold Program.superclassName
  simp [called, plain, foreign, hasClass_of_theClass? found, inCycle_iff.2 h.cycle, cycleFault]

theorem Program.onCycle_of_error {written : TypeRef} {e : CheckError}
    (extends_ : (p.classAt i).superclass = some written)
    (refused : p.superclassName i written = .error e) (tells : e.cause.isCycle = true) :
    p.OnCycle i := by
  unfold Program.superclassName at refused
  dsimp only at refused
  split at refused
  · cases refused
    cases tells
  rename_i name called
  split at refused
  · cases refused
    cases tells
  rename_i plain
  split at refused
  · cases refused
    cases tells
  split at refused
  · rename_i cyclic
    rw [Bool.or_eq_true, decide_eq_true_eq, not_or, not_not, List.contains_iff_mem] at plain
    refine ⟨inCycle_iff.1 cyclic, fun written' same => ?_, fun written' same name' called' => ?_⟩
    · cases extends_.symm.trans same
      exact plain.1
    · cases extends_.symm.trans same
      cases called.symm.trans called'
      exact plain.2
  · cases refused

/-! ## Reports -/

/-- The errors that tell of cycles. -/
def CheckState.cycles (s : CheckState) : List CheckError := s.errors.filter (·.cause.isCycle)

theorem filter_plain {errors : List CheckError} (plain : ∀ e ∈ errors, e.cause.isCycle = false) :
    errors.filter (·.cause.isCycle) = [] :=
  List.filter_eq_nil_iff.2 fun e listed => by simp [plain e listed]

theorem Class.memberNameFaults_plain (c : Class) :
    ∀ e ∈ c.memberNameFaults, e.cause.isPlain = true := by
  intro e listed
  rcases List.mem_append.1 listed with listed | listed
  · obtain ⟨_, _, rfl⟩ := List.mem_map.1 listed
    rfl
  · obtain ⟨_, _, rfl⟩ := List.mem_map.1 listed
    rfl

theorem Program.inheritedFieldFaults_plain (p : Program) (c : Class) (ancestors : List Ancestor) :
    ∀ e ∈ p.inheritedFieldFaults c ancestors, e.cause.isPlain = true := by
  intro e listed
  obtain ⟨_, _, fault⟩ := List.mem_filterMap.1 listed
  obtain ⟨_, _, rfl⟩ := Option.map_eq_some_iff.1 fault
  rfl

theorem Program.overrideFaults_plain (p : Program) (f : Findings) (ancestors : List Ancestor)
    (m : Method) : ∀ e ∈ p.overrideFaults f ancestors m, e.cause.isPlain = true := by
  intro e listed
  unfold overrideFaults at listed
  split at listed
  · cases listed
  split at listed
  · cases listed
  split at listed
  · cases List.mem_singleton.1 listed
    rfl
  · rcases List.mem_append.1 listed with listed | listed <;> split at listed
    · cases listed
    · cases List.mem_singleton.1 listed
      rfl
    · cases listed
    · cases List.mem_singleton.1 listed
      rfl

theorem Program.methodFaults_plain (p : Program) (f : Findings) (c : Class) (sound : Bool)
    (ancestors : List Ancestor) (m : Method) :
    ∀ e ∈ p.methodFaults f c sound ancestors m, e.cause.isPlain = true := by
  intro e listed
  rcases List.mem_append.1 listed with listed | listed
  · rcases List.mem_append.1 listed with listed | listed <;> split at listed
    · cases List.mem_singleton.1 listed
      rfl
    · cases listed
    · cases List.mem_singleton.1 listed
      rfl
    · cases listed
  · split at listed
    · cases List.mem_singleton.1 listed
      rfl
    split at listed
    · exact p.overrideFaults_plain f ancestors m e listed
    · cases listed

theorem Program.memberFaults_plain (p : Program) (f : Findings) (i : Nat) (sound : Bool) :
    ∀ e ∈ p.memberFaults f i sound, e.cause.isPlain = true := by
  intro e listed
  rcases List.mem_append.1 listed with listed | listed
  · rcases List.mem_append.1 listed with listed | listed
    · exact Class.memberNameFaults_plain _ e listed
    · exact p.inheritedFieldFaults_plain _ _ e listed
  · obtain ⟨m, _, listed⟩ := List.mem_flatMap.1 listed
    exact p.methodFaults_plain f _ sound _ m e listed

theorem Program.standing_plain (p : Program) (i : Nat) (written : TypeRef) (name : String)
    (result : Resolved) (verdict : Nat → Bool) :
    ∀ e ∈ (p.standing i written name result).faults verdict, e.cause.isCycle = false := by
  intro e listed
  unfold standing at listed
  split at listed
  · cases listed
  split at listed
  · cases listed
  · dsimp only [Standing.faults] at listed
    split at listed
    · cases listed
    · cases List.mem_singleton.1 listed
      rfl

/-- Before its superclass is examined, a class on a cycle is refused, and no other class is told that
it lies on one. -/
theorem Scope.standing_cycles (scope : Scope) (s : CheckState) (verdict : Nat → Bool) :
    (scope.program.OnCycle i → scope.standing s i = .refused [scope.program.cycleFault i]) ∧
      (¬scope.program.OnCycle i →
        ∀ e ∈ (scope.standing s i).faults verdict, e.cause.isCycle = false) := by
  rw [Scope.standing, exec_resolveSuperclass rfl]
  cases extends_ : (scope.program.classAt i).superclass with
  | none =>
    refine ⟨fun h => ?_, fun _ => nofun⟩
    obtain ⟨_, named, _⟩ := Relation.TransGen.head'_iff.1 h.cycle
    rw [Program.Names, Program.declaredSuperclass?, extends_] at named
    cases named
  | some written =>
    dsimp only
    cases refused : scope.program.superclassName i written with
    | error e =>
      dsimp only
      refine ⟨fun h => ?_, fun other e' listed => ?_⟩
      · cases refused.symm.trans (h.superclassName extends_)
        rfl
      · cases List.mem_singleton.1 listed
        exact Bool.eq_false_iff.2 fun tells => other (Program.onCycle_of_error extends_ refused tells)
    | ok name =>
      refine ⟨fun h => ?_, fun _ e listed => ?_⟩
      · cases refused.symm.trans (h.superclassName extends_)
      · exact scope.program.standing_plain _ _ _ _ _ e listed

/-- What the examination of a class tells of cycles. -/
theorem Scope.faultsOf_cycles (scope : Scope) (s : CheckState) (f : Findings) :
    (scope.program.OnCycle i →
      (scope.faultsOf s f i).filter (·.cause.isCycle) = [scope.program.cycleFault i]) ∧
      (¬scope.program.OnCycle i → (scope.faultsOf s f i).filter (·.cause.isCycle) = []) := by
  have alike := resolveSuperclass_parallel (.refl scope.program) .full i
    (fun _ _ => trivial) scope s s rfl (.refl _)
  obtain ⟨es, reported, _, plain⟩ := alike.errors
  have resolved : (s.newErrors (scope.resolved s i)).filter (·.cause.isCycle) = [] := by
    rw [CheckState.newErrors, Scope.resolved, reported, List.drop_left]
    exact filter_plain plain
  have members := filter_plain fun e listed => CheckCause.isCycle_of_isPlain
    (scope.program.memberFaults_plain f i (scope.superclassSound s f i) e listed)
  rw [Scope.faultsOf, List.filter_append, List.filter_append, resolved, members, List.append_nil,
    List.nil_append]
  obtain ⟨told, untold⟩ := scope.standing_cycles (i := i) s f.sound
  refine ⟨fun h => ?_, fun h => filter_plain (untold h)⟩
  rw [told h]
  rfl

/-! ## The other phases -/

/-- A check that runs alongside itself tells of no cycles. -/
theorem Parallel.cycles {α β : Type} {ren : α → β} {x : Check α} {y : Check β}
    (h : Parallel p p (Equiv.refl Nat) .full ren x y) (scope : Scope) (same : scope.program = p)
    (s : CheckState) :
    (x.exec scope s).2.cycles = s.cycles := by
  obtain ⟨es, reported, _, plain⟩ := (h scope s s same (.refl _)).errors
  rw [CheckState.cycles, reported, List.filter_append, filter_plain plain, List.append_nil]
  rfl

namespace Phase

variable (settings : Settings)

theorem functionsTyped_cycles : (functionsTyped p settings).2.cycles = [] := by
  have h := Program.Renumbered.refl p
  have redeclared := (Parallel.reportPlain p.redeclarations_plain).cycles (p := p)
    (.top p settings) rfl .empty
  have names := (Parallel.mapM_same p.classIndices fun i _ => checkNames_parallel h i).cycles
    (.top p settings) rfl
      ((reportAll p.redeclarations).exec (.top p settings) .empty).2
  have types := (Parallel.mapM_same p.classIndices fun i _ =>
    checkClassSignatures_parallel h i fun _ _ => trivial).cycles (.top p settings) rfl
      ((named p settings).2.noted .resolvingSignatures)
  have functions := (Parallel.mapM_same p.functionIndices fun i _ =>
    checkFunctionSignature_parallel h i fun _ _ => trivial).cycles (.top p settings) rfl
      (typed p settings).2
  exact functions.trans (types.trans (names.trans redeclared))

theorem judged_cycles : (judged p settings).cycles = (derived p settings).2.cycles := by
  have h := Program.Renumbered.refl p
  have reads : Sight.full.Reads p := ⟨fun _ _ => trivial, trivial⟩
  have sets := (checkFunctionSets_parallel h reads).cycles (.top p settings) rfl
    ((derived p settings).2.noted .validatingOverloads)
  have methods := (Parallel.mapM_same p.classIndices fun i _ =>
    checkMethodSets_parallel h reads i).cycles (.top p settings) rfl
      (functionSets p settings).2
  have bodies := (Parallel.mapM_same p.classIndices fun i _ =>
    checkClassBody_parallel h reads i fun _ _ => trivial).cycles (.top p settings) rfl
      ((methodSets p settings).2.noted .checkingBodies)
  have functions := (Parallel.mapM_same p.functionIndices fun i _ =>
    checkFunctionBody_parallel h reads i fun _ _ => trivial).cycles (.top p settings) rfl
      (implemented p settings).2
  have last := (checkStatements_parallel h reads [] false p.statements fun _ _ => trivial).cycles
    (.top p settings) rfl (functionsImplemented p settings).2
  have verdicts : (judged p settings).cycles = (statements p settings).2.cycles := by
    rw [judged_eq]
    rfl
  exact verdicts.trans (last.trans (functions.trans (bodies.trans (methods.trans sets))))

theorem derived_cycles (distinct : Distinct p.nodes) : ∃ cyclic : List Nat, cyclic.Nodup ∧
    (∀ i, i ∈ cyclic ↔ p.OnCycle i) ∧
      (derived p settings).2.cycles.Perm (cyclic.map p.cycleFault) := by
  classical
  refine ⟨p.classIndices.filter fun i => decide (p.OnCycle i), List.nodup_range.filter _, fun i => ?_,
    ?_⟩
  · rw [List.mem_filter, decide_eq_true_iff]
    exact ⟨And.right, fun h => ⟨h.mem, h⟩⟩
  obtain ⟨_, survey⟩ := derived_survey settings distinct
  have perm := survey.errors.filter (·.cause.isCycle)
  have before : ((functionsTyped p settings).2.noted .validatingInheritance).errors.filter
      (·.cause.isCycle) = [] := functionsTyped_cycles settings
  rw [List.filter_append, before, List.flatMap_nil, List.nil_append, List.nil_append,
    List.filter_flatMap] at perm
  refine perm.trans (List.Perm.of_eq ?_)
  generalize p.classIndices = classes
  induction classes with
  | nil => rfl
  | cons i rest ih =>
    obtain ⟨told, untold⟩ := (Scope.top p settings).faultsOf_cycles (i := i)
      ((functionsTyped p settings).2.noted .validatingInheritance) (derived p settings).2.findings
    rw [List.flatMap_cons, ih]
    by_cases h : p.OnCycle i
    · rw [told h, List.filter_cons_of_pos (by simpa using h)]
      rfl
    · rw [untold h, List.filter_cons_of_neg (by simpa using h)]
      rfl

end Phase

/-! ## Classes that lead to a cycle -/

theorem Scope.standing_root (root : scope.standing s i = .root) :
    (scope.program.classAt i).superclass = none := by
  rw [Scope.standing, exec_resolveSuperclass rfl] at root
  cases extends_ : (scope.program.classAt i).superclass with
  | none => rfl
  | some written =>
    rw [extends_] at root
    dsimp only at root
    split at root
    · cases root
    · unfold Program.standing at root
      dsimp only at root
      split at root
      · cases root
      split at root <;> cases root

theorem Standing.link?_unsound {standing : Standing} {verdict : Nat → Bool}
    (unsound : standing.sound verdict = false) : standing.link? verdict = none := by
  cases standing with
  | root | refused _ => rfl
  | under link fault => exact if_neg (Bool.eq_false_iff.1 unsound)

namespace CheckState.Untouched

variable (untouched : s.Untouched scope.program)
include untouched

/-- The superclass of a class on a cycle, or of one that extends an unsound class, does not count as
sound. -/
theorem superclassSound_eq_false {f : Findings} (names : scope.program.Names i j)
    (ruined : scope.program.inCycle i = true ∨ f.sound j = false) :
    scope.superclassSound s f i = false := by
  unfold Scope.superclassSound
  cases standing : scope.standing s i with
  | root =>
    rw [Program.Names, Program.declaredSuperclass?, Scope.standing_root standing] at names
    cases names
  | refused _ => rfl
  | under link fault =>
    have extends_ : (scope.standing s i).superclass? = some link.superclass := by
      rw [standing]
      rfl
    obtain ⟨names', acyclic⟩ := resolveSuperclass_names rfl (untouched.fresh i) extends_
    have same : link.superclass = j := Option.some.inj (names'.symm.trans names)
    rcases ruined with cyclic | unsound
    · cases acyclic.symm.trans cyclic
    · exact (congrArg f.sound same).trans unsound

theorem ruined (survey : Survey scope s [] scope.program.classIndices t)
    (leads : Relation.ReflTransGen scope.program.Names i j)
    (cycle : Relation.TransGen scope.program.Names j j) :
    t.findings.mark i = .done false ∧ t.findings.superclass? i = none := by
  have unsound {i k : Nat} (names : scope.program.Names i k)
      (ruined : scope.program.inCycle i = true ∨ t.findings.sound k = false) :
      t.findings.mark i = .done false ∧ t.findings.superclass? i = none := by
    have superclass := untouched.superclassSound_eq_false names ruined
    have placed := survey.placed i names.mem_left
    have mark := placed.mark
    rw [superclass] at mark
    exact ⟨mark, placed.link.trans (Standing.link?_unsound superclass)⟩
  induction leads using Relation.ReflTransGen.head_induction_on with
  | refl =>
    obtain ⟨next, names, _⟩ := Relation.TransGen.head'_iff.1 cycle
    exact unsound names (.inl (Program.inCycle_iff.2 cycle))
  | head names _ ih => exact unsound names (.inr (Findings.sound_of_done ih.1))

end CheckState.Untouched

/-! ## Programs -/

/-- Each class on a cycle of extends clauses is told of once if its own clause has no modifier and does
not name one of its type parameters, and no other class is. Every class from which extends clauses lead
to a cycle is unsound in the end, and is not linked to a superclass. -/
theorem Source.cycles_exact {source : Source} (settings : Settings) {p : Program}
    (parsed : source.parse Parser.program = .ok p) :
    (∃ cyclic : List Nat, cyclic.Nodup ∧ (∀ i, i ∈ cyclic ↔ p.OnCycle i) ∧
      ((p.analyze settings).state.errors.filter (·.cause.isCycle)).Perm (cyclic.map p.cycleFault)) ∧
    ∀ i j, Relation.ReflTransGen p.Names i j → Relation.TransGen p.Names j j →
      (p.analyze settings).state.findings.mark i = .done false ∧
        (p.analyze settings).state.findings.superclass? i = none := by
  have distinct : Distinct p.nodes := source.parse_program_nodup parsed
  refine ⟨?_, fun i j leads cycle => ?_⟩
  · obtain ⟨cyclic, nodup, members, told⟩ := Phase.derived_cycles settings distinct
    rw [← Phase.judged_cycles] at told
    exact ⟨cyclic, nodup, members, told⟩
  · obtain ⟨_, survey⟩ := Phase.derived_survey settings distinct
    have untouched : CheckState.Untouched (Scope.top p settings).program _ :=
      Phase.functionsTyped_untouched settings distinct
    obtain ⟨mark, link⟩ := untouched.ruined survey leads cycle
    obtain ⟨marks, links⟩ := Phase.judged_places settings distinct
    exact ⟨(marks i).trans mark, (congrArg (Table.get? · i) links).trans link⟩

/-- A cycle of two classes with another that leads to it, and two classes that extend themselves. The
last one is told that it extends a type parameter, not of the cycle. -/
def loops : Source :=
  ⟨"class C extends A \x7b \x7d class A extends B \x7b \x7d class B extends A \x7b \x7d " ++
    "class D extends D \x7b \x7d class E[E] extends E \x7b \x7d", none⟩

theorem loops_cycles_exact : ∃ p, loops.parse Parser.program = .ok p ∧
    ((p.analyze ⟨true, true⟩).state.errors.filter (·.cause.isCycle)).map CheckError.cause =
      ["A", "B", "D"].map .inheritanceCycle ∧
    (∃ cyclic : List Nat, cyclic.length = 3 ∧ ∀ i, i ∈ cyclic ↔ p.OnCycle i) ∧
    (p.analyze ⟨true, true⟩).state.findings.mark 0 = .done false ∧
      (p.analyze ⟨true, true⟩).state.findings.superclass? 0 = none := by
  have run : (loops.parse Parser.program).toOption.map (fun p =>
      (((p.analyze ⟨true, true⟩).state.errors.filter (·.cause.isCycle)).map CheckError.cause,
        p.declaredSuperclass? 0, p.declaredSuperclass? 1, p.declaredSuperclass? 2)) =
      some (["A", "B", "D"].map .inheritanceCycle, some 1, some 2, some 1) := by
    decide +kernel
  obtain ⟨p, parsed, views⟩ := Option.map_eq_some_iff.1 run
  simp only [Prod.mk.injEq] at views
  obtain ⟨told, lower, here, there⟩ := views
  have parsed := ok_of_toOption parsed
  obtain ⟨⟨cyclic, _, members, reported⟩, ruined⟩ := Source.cycles_exact ⟨true, true⟩ parsed
  have three : cyclic.length = 3 := by
    have same := (reported.map CheckError.cause).length_eq
    rw [told] at same
    simpa using same.symm
  have cycle : Relation.TransGen p.Names 1 1 := .tail (.single here) there
  exact ⟨p, parsed, told, ⟨cyclic, three, members⟩, ruined 0 1 (.single lower) cycle⟩

end ClassLang
