import ClassLang.Proofs.Checking.Decoration
import ClassLang.Proofs.Checking.DeclarationVerdicts
import ClassLang.Proofs.Checking.DeclarationReporting
import ClassLang.Proofs.Checking.OverloadSets

/-!
Overload sets in a run. Two phases number declarations and tell of those that repeat an earlier one;
no other phase does. Both see the parameter types with which the run ends.

* `Source.overloads_exact`: what is reported of overloads, and how they are numbered.
-/

namespace ClassLang

variable {α : Type} {scope : Scope} {p : Program} {settings : Settings} {f g : Findings}

/-! ## What is said of duplicates -/

def CheckState.duplicates (s : CheckState) : List CheckError :=
  s.errors.filter fun e => e.cause.isDuplicate

/-- An error that is not about a duplicate. -/
def CheckError.Unrepeated (e : CheckError) : Prop := e.cause.isDuplicate = false

theorem admitsPlain_unrepeated : AdmitsPlain CheckError.Unrepeated := fun _ plain =>
  (CheckCause.isPlain_iff.1 plain).2.2

theorem unrepeated_of_cycle (e : CheckError) (cyclic : e.cause.isCycle = true) : e.Unrepeated := by
  obtain ⟨span, cause⟩ := e
  cases cause with
  | inheritanceCycle => rfl
  | _ => cases cyclic

theorem Reports.duplicates_eq {x : Check α} (h : Reports CheckError.Unrepeated Warning.Any scope x)
    (s : CheckState) : (x.exec scope s).2.duplicates = s.duplicates := by
  obtain ⟨⟨errors, told, fine⟩, -⟩ := h s
  have none_ : errors.filter (fun e => e.cause.isDuplicate) = [] :=
    List.filter_eq_nil_iff.2 fun e listed => by simp [show e.cause.isDuplicate = false from fine e listed]
  rw [CheckState.duplicates, told, List.filter_append, none_, List.append_nil]
  rfl

namespace Phase

variable (p settings)

theorem derived_duplicates : (derived p settings).2.duplicates = [] := by
  have plain := admitsPlain_unrepeated
  have redeclared : Reports CheckError.Unrepeated Warning.Any (.top p settings)
      (reportAll p.redeclarations) :=
    .reportPlain plain p.redeclarations_plain
  have names : Reports CheckError.Unrepeated Warning.Any (.top p settings)
      (p.classIndices.mapM checkNames) :=
    .mapM fun i _ => checkNames_reports plain i
  have classes : Reports CheckError.Unrepeated Warning.Any (.top p settings)
      (p.classIndices.mapM checkClassSignatures) := .mapM fun i _ => checkClassSignatures_reports plain i
  have functions : Reports CheckError.Unrepeated Warning.Any (.top p settings)
      (p.functionIndices.mapM checkFunctionSignature) :=
    .mapM fun i _ => checkFunctionSignature_reports plain i
  have supers : Reports CheckError.Unrepeated Warning.Any (.top p settings)
      (p.classIndices.mapM (checkInheritance p.classIndices.length)) :=
    .mapM fun i _ => checkInheritance_reports plain unrepeated_of_cycle _ i
  calc (derived p settings).2.duplicates
    _ = (functionsTyped p settings).2.duplicates := supers.duplicates_eq _
    _ = (typed p settings).2.duplicates := functions.duplicates_eq _
    _ = (named p settings).2.duplicates := classes.duplicates_eq _
    _ = ((reportAll p.redeclarations).exec (.top p settings) .empty).2.duplicates :=
      names.duplicates_eq _
    _ = [] := redeclared.duplicates_eq .empty

theorem judged_duplicates :
    (judged p settings).duplicates = (methodSets p settings).2.duplicates := by
  have plain := admitsPlain_unrepeated
  have classes : Reports CheckError.Unrepeated Warning.Any (.top p settings)
      (p.classIndices.mapM checkClassBody) :=
    .mapM fun _ _ => checkClassBody_reports plain fun _ _ _ _ _ => rfl
  have functions : Reports CheckError.Unrepeated Warning.Any (.top p settings)
      (p.functionIndices.mapM checkFunctionBody) :=
    .mapM fun _ _ => checkFunctionBody_reports plain fun _ _ _ => rfl
  have rest : Reports CheckError.Unrepeated Warning.Any (.top p settings)
      (checkStatements [] false p.statements) :=
    checkStatements_reports [] false p.statements
      ⟨plain.admits _, fun _ _ _ _ _ => rfl, fun _ _ _ _ => rfl⟩
  calc (judged p settings).duplicates
    _ = (statements p settings).2.duplicates := by rw [judged_eq]; rfl
    _ = (functionsImplemented p settings).2.duplicates := rest.duplicates_eq _
    _ = (implemented p settings).2.duplicates := functions.duplicates_eq _
    _ = (methodSets p settings).2.duplicates := classes.duplicates_eq _

end Phase

/-! ## The checks of overload sets -/

theorem exec_checkSets (sets : List OverloadSet) (scope : Scope) (s : CheckState) :
    ((checkSets sets).exec scope s).2 = { s with
      findings := s.findings.numberAll (sets.flatMap OverloadSet.numbers)
      errors := s.errors ++ sets.flatMap OverloadSet.faults } := by
  rw [← numberAll_sets]
  rfl

theorem filter_faults (sets : List OverloadSet) :
    (sets.flatMap OverloadSet.faults).filter (fun e => e.cause.isDuplicate) =
      sets.flatMap OverloadSet.faults :=
  List.filter_eq_self.2 fun e listed =>
    have ⟨set, _, listed⟩ := List.mem_flatMap.1 listed
    set.faults_duplicate e listed

/-- Numbers say nothing of types. -/
theorem Overloads.sets_numberAll (o : Overloads α) (f : Findings) (numbers : List (Decl × Nat)) :
    o.sets (f.numberAll numbers) = o.sets f := by
  obtain ⟨_, same⟩ := f.numberAll_eq numbers
  rw [same]
  rfl

theorem exec_checkMethodSets (same : scope.program = p) (i : Nat) (s : CheckState) :
    ((checkMethodSets i).exec scope s).2.findings =
        s.findings.numberAll (p.methodOverloads i).numbers ∧
      ((checkMethodSets i).exec scope s).2.duplicates =
        s.duplicates ++ ((p.methodOverloads i).sets s.findings).flatMap OverloadSet.faults := by
  subst same
  have sets := exec_checkSets (scope.program.methodSets s.findings i) scope
    ((reportAll ((scope.program.classAt i).methods.flatMap Method.staticFaults)).exec scope s).2
  have run : ((checkMethodSets i).exec scope s).2 = _ := sets
  rw [run]
  constructor
  · rw [← Overloads.flatMap_numbers _ s.findings]
    rfl
  · have statics : ((scope.program.classAt i).methods.flatMap Method.staticFaults).filter
        (fun e => e.cause.isDuplicate) = [] :=
      List.filter_eq_nil_iff.2 fun e listed => by
        simp [(CheckCause.isPlain_iff.1 (Class.staticFaults_plain _ e listed)).2.2]
    change ((s.errors ++ _) ++ _).filter _ = _
    rw [List.filter_append, List.filter_append, statics, filter_faults, List.append_nil]
    rfl

/-- The classes are independent of each other here, for numbers say nothing of types. -/
theorem exec_checkMethodSets_all (same : scope.program = p) (classes : List Nat) (s : CheckState) :
    ((classes.mapM checkMethodSets).exec scope s).2.findings =
        s.findings.numberAll (classes.flatMap fun i => (p.methodOverloads i).numbers) ∧
      ((classes.mapM checkMethodSets).exec scope s).2.duplicates = s.duplicates ++
        classes.flatMap fun i => ((p.methodOverloads i).sets s.findings).flatMap OverloadSet.faults := by
  induction classes generalizing s with
  | nil => exact ⟨rfl, (List.append_nil _).symm⟩
  | cons i rest ih =>
    obtain ⟨numbered, told⟩ := exec_checkMethodSets same i s
    obtain ⟨numberedAll, toldAll⟩ := ih ((checkMethodSets i).exec scope s).2
    rw [Check.exec_mapM_cons]
    constructor
    · refine numberedAll.trans ?_
      rw [numbered, Findings.numberAll, Findings.numberAll, ← List.foldl_append]
      rfl
    · refine toldAll.trans ?_
      simp only [told, numbered, Overloads.sets_numberAll, List.flatMap_cons, List.append_assoc]

namespace Phase

variable (p settings)

/-- What is known of overloads after both phases. -/
theorem methodSets_overloads :
    (methodSets p settings).2.findings =
        (derived p settings).2.findings.numberAll p.overloadNumbers ∧
      (methodSets p settings).2.duplicates =
        (p.functionOverloads.sets (derived p settings).2.findings).flatMap OverloadSet.faults ++
          p.classIndices.flatMap fun i =>
            ((p.methodOverloads i).sets (derived p settings).2.findings).flatMap OverloadSet.faults := by
  have first : (functionSets p settings).2 = _ :=
    exec_checkSets (p.functionSets (derived p settings).2.findings) (.top p settings)
      ((derived p settings).2.noted .validatingOverloads)
  obtain ⟨numbered, told⟩ :=
    exec_checkMethodSets_all (rfl : (Scope.top p settings).program = p) p.classIndices
      (functionSets p settings).2
  rw [Program.functionSets_eq, Overloads.flatMap_numbers] at first
  have before : (functionSets p settings).2.duplicates =
      (p.functionOverloads.sets (derived p settings).2.findings).flatMap OverloadSet.faults := by
    have silent : (derived p settings).2.errors.filter (fun e => e.cause.isDuplicate) = [] :=
      derived_duplicates p settings
    rw [first, CheckState.duplicates]
    change ((derived p settings).2.errors ++ _).filter _ = _
    rw [List.filter_append, silent, filter_faults, List.nil_append]
  constructor
  · refine numbered.trans ?_
    rw [first, Program.overloadNumbers, Findings.numberAll, Findings.numberAll, Findings.numberAll,
      List.foldl_append]
    rfl
  · refine told.trans ?_
    rw [before, first]
    simp only [Overloads.sets_numberAll]
    rfl

end Phase

/-! ## What stays -/

theorem Visit.overloads_eq {own : Subtree → Place → Prop} (v : Visit p own f g) :
    g.overloads = f.overloads := by
  have referAny (f : Findings) (id : Nat) (decl : Option Decl) :
      (f.referAny id decl).overloads = f.overloads := by cases decl <;> rfl
  have setValid (f : Findings) (id : Nat) (valid : Bool) :
      (f.setValid id valid).overloads = f.overloads := by
    unfold Findings.setValid
    split <;> rfl
  have record (f : Findings) (id : Nat) (r : Resolved) : (f.record id r).overloads = f.overloads := by
    cases r <;> exact setValid f id _
  cases v with
  | judge _ => exact setValid f _ _
  | @resolve t place r _ _ _ =>
    obtain ⟨_, _, _, same⟩ := f.taken_eq (p := p) t.id (t.aliasIn place.generics) r
    rw [record, same]
  | infer _ _ _ _ _ => rw [record, referAny]
  | name _ _ _ _ => rw [referAny, record]
  | pair _ _ _ => rw [record]

theorem Trail.overloads_eq {own : Subtree → Place → Prop} (t : Trail p own f g) :
    g.overloads = f.overloads := by
  induction t with
  | refl => rfl
  | tail _ v ih => exact v.overloads_eq.trans ih

theorem mapM_option_isSome {ι β : Type} {h : ι → Option β} {items : List ι}
    (each : ∀ i ∈ items, (h i).isSome = true) : (items.mapM h).isSome = true := by
  induction items with
  | nil => rfl
  | cons i rest ih =>
    obtain ⟨a, first⟩ := Option.isSome_iff_exists.1 (each i (List.mem_cons_self ..))
    obtain ⟨others, known⟩ := Option.isSome_iff_exists.1
      (ih fun j listed => each j (List.mem_cons_of_mem i listed))
    rw [List.mapM_cons, first, known]
    rfl

namespace Overloads

variable {o : Overloads α}

theorem duplicates_congr (same : ∀ a ∈ o.items, o.types? g a = o.types? f a) :
    o.duplicates g = o.duplicates f := by
  have item {m : α × Nat} (listed : m ∈ o.items.zipIdx) : o.types? g m.1 = o.types? f m.1 :=
    same m.1 (List.fst_mem_of_mem_zipIdx listed)
  have repeats {m : α × Nat} (listed : m ∈ o.items.zipIdx) : o.repeats g m = o.repeats f m := by
    rw [Overloads.repeats, Overloads.repeats, item listed]
    congr 1
    rw [Bool.eq_iff_iff, List.any_eq_true, List.any_eq_true]
    refine exists_congr fun a => and_congr_right fun earlier => ?_
    rw [same a (List.mem_of_mem_take earlier)]
  rw [duplicates, List.filter_congr fun m listed => repeats listed]
  refine List.map_congr_left fun m listed => ?_
  rw [item (List.mem_filter.1 listed).1]

end Overloads

section Program

variable (settings) (distinct : Distinct p.nodes)
include distinct

/-- The parameter types of signatures are those that the overload sets are taken apart by. -/
theorem Program.analyze_paramTypes {params : List Param}
    (written : params.map Param.type ⊆ p.signature) :
    (p.analyze settings).state.findings.paramTypes? params =
      (Phase.derived p settings).2.findings.paramTypes? params := by
  refine mapM_option_congr fun param listed => ?_
  have inside := written (List.mem_map_of_mem listed)
  obtain ⟨r, known⟩ := Option.isSome_iff_exists.1
    (Phase.functionsTyped_known settings distinct param.type inside)
  have before := (Phase.derived_steps settings distinct).cached_of_some
    (lineage_spares_types distinct _ inside) known
  exact ((Phase.functionsTyped_later settings distinct).typeOf known).trans before.2.symm

omit distinct in
theorem Program.mem_functions_params {a : Function} (listed : a ∈ p.functions) :
    a.params.map Param.type ⊆ p.signature := fun _ written =>
  List.mem_append_right _ (List.mem_flatMap.2 ⟨a, listed, List.mem_append_left _ written⟩)

omit distinct in
theorem Program.mem_methods_params {i : Nat} (declared : i ∈ p.classIndices) {m : Method}
    (listed : m ∈ (p.classAt i).methods) : m.params.map Param.type ⊆ p.signature := fun _ written =>
  List.mem_append_left _ (List.mem_flatMap.2 ⟨_, classAt_mem declared,
    List.mem_append_right _ (List.mem_flatMap.2 ⟨m, listed, List.mem_append_left _ written⟩)⟩)

theorem Program.functionOverloads_types {a : Function} (listed : a ∈ p.functions) :
    p.functionOverloads.types? (p.analyze settings).state.findings a =
      p.functionOverloads.types? (Phase.derived p settings).2.findings a :=
  analyze_paramTypes settings distinct (mem_functions_params listed)

theorem Program.methodOverloads_types {i : Nat} (declared : i ∈ p.classIndices) {m : Method}
    (listed : m ∈ (p.classAt i).methods) :
    (p.methodOverloads i).types? (p.analyze settings).state.findings m =
      (p.methodOverloads i).types? (Phase.derived p settings).2.findings m :=
  analyze_paramTypes settings distinct (mem_methods_params declared listed)

theorem Program.analyze_duplicates :
    ((p.analyze settings).state.errors.filter fun e => e.cause.isDuplicate).Perm
      (p.functionOverloads.duplicates (p.analyze settings).state.findings ++
        p.classIndices.flatMap fun i =>
          (p.methodOverloads i).duplicates (p.analyze settings).state.findings) := by
  have told : ((p.analyze settings).state.errors.filter fun e => e.cause.isDuplicate) = _ :=
    (Phase.judged_duplicates p settings).trans (Phase.methodSets_overloads p settings).2
  rw [told, Overloads.duplicates_congr fun _ listed =>
    p.functionOverloads_types settings distinct listed]
  refine (Overloads.faults_perm).append (List.Perm.flatMap_left _ fun i declared => ?_)
  rw [Overloads.duplicates_congr fun _ listed =>
    p.methodOverloads_types settings distinct declared listed]
  exact Overloads.faults_perm

/-- Every declaration ends with the number that it is given. -/
theorem Program.analyze_overloadIndex {decl : Decl} {k : Nat}
    (given : (decl, k) ∈ p.overloadNumbers) :
    (p.analyze settings).state.findings.overloadIndex decl = some k := by
  have later : (p.analyze settings).state.findings.overloads =
      (Phase.methodSets p settings).2.findings.overloads :=
    Phase.judged_trail.overloads_eq.trans (Phase.statements_trail settings distinct).1.overloads_eq
  rw [Findings.overloadIndex, later, (Phase.methodSets_overloads p settings).1]
  exact Findings.overloadIndex_numberAll _ given fun j also => p.overloadNumbers_unique also given

/-- Where nothing is reported, all types of signatures are known. -/
theorem Program.analyze_paramTypes_isSome (none_ : (p.analyze settings).state.errors = [])
    {params : List Param} (written : params.map Param.type ⊆ p.signature) :
    ((p.analyze settings).state.findings.paramTypes? params).isSome = true := by
  have clean := analyze_clean distinct none_
  have complete := p.analyze_complete settings distinct
  refine mapM_option_isSome fun param listed => ?_
  obtain ⟨type, known⟩ := clean.ok (complete.known _ (written (List.mem_map_of_mem listed)))
  exact Option.isSome_iff_exists.2 ⟨type, complete.tidy.cached.2 known⟩

theorem Program.analyze_apart (none_ : (p.analyze settings).state.errors = [])
    (functions : p.functionOverloads.Numbered (p.analyze settings).state.findings)
    (methods : ∀ i ∈ p.classIndices, (p.methodOverloads i).Numbered (p.analyze settings).state.findings) :
    p.functionOverloads.Apart (p.analyze settings).state.findings ∧
      ∀ i ∈ p.classIndices, (p.methodOverloads i).Apart (p.analyze settings).state.findings := by
  have told := analyze_duplicates settings distinct
  rw [none_] at told
  obtain ⟨noFunctions, noMethods⟩ := List.append_eq_nil_iff.1 told.nil_eq.symm
  refine ⟨Overloads.apart_of functions noFunctions fun a listed => ?_, fun i declared =>
    Overloads.apart_of (methods i declared) (List.flatMap_eq_nil_iff.1 noMethods i declared)
      fun m listed => ?_⟩
  · exact analyze_paramTypes_isSome settings distinct none_ (Program.mem_functions_params listed)
  · exact analyze_paramTypes_isSome settings distinct none_ (Program.mem_methods_params declared listed)

end Program

/-- An operator function and a free function under its name, methods of which the last repeats the first,
and functions of which two have a type that does not exist. -/
def repeatedOverloads : Source :=
  ⟨"class A \x7b A operator +(A a, A b) \x7b return a; \x7d public void m(integer a) \x7b \x7d " ++
    "public void m(float a) \x7b \x7d public void m(integer b) \x7b \x7d \x7d " ++
    "A operator_add(A a, A b) \x7b return b; \x7d void f(integer a) \x7b \x7d " ++
    "void f(Missing a) \x7b \x7d void f(integer b) \x7b \x7d void f(Missing c) \x7b \x7d " ++
    "void f(float d) \x7b \x7d", none⟩

/-- Functions and methods that differ in their parameter types, if only by a modifier. -/
def separateOverloads : Source :=
  ⟨"class A \x7b public void m(integer a) \x7b \x7d public void m(float a) \x7b \x7d \x7d " ++
    "void f(integer a) \x7b \x7d void f(const integer a) \x7b \x7d", none⟩

end ClassLang
