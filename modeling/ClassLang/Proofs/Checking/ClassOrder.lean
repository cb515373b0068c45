import ClassLang.Proofs.Checking.DeclarationParallels
import ClassLang.Proofs.Checking.Lineages

/-!
The order of the classes of a program does not matter: phase by phase, the check of a program and that
of the same program with its classes in another order leave states that agree.
-/

namespace ClassLang

variable {p q : Program} {σ : Equiv.Perm Nat} {scope : Scope} {s t : CheckState}

/-! ## Separate checks -/

theorem checkNames_separate : Separate p checkNames (fun _ _ => False) fun _ => False where
  within _ _ _ _ t same := by
    rw [exec_checkNames same]
    exact Steps.single (.report _)
  parallel h i _ _ _ _ _ := checkNames_parallel h i
  apart _ _ _ _ _ _ mine := (mine.elim id id).elim
  spared _ _ _ := False.elim
  places _ _ := id

theorem checkClassSignatures_separate (distinct : Distinct p.nodes) :
    Separate p checkClassSignatures (fun i => mentions (TypeRef.nodesAll (p.classAt i).signature))
      fun _ => False where
  within {_ σ} h i listed scope t same := by
    have mine := (signature_distinct distinct).1.of_flatMap listed
    have honest := checkClassSignatures_honest (σ i) (p := scope.program)
    rw [same, h.classAt] at honest
    exact (honest mine).within scope t same
  parallel h i _ nodes _ mine _ := checkClassSignatures_parallel h i fun n written =>
    mine n.id (.inr (List.mem_map_of_mem written))
  apart i first j second other id mine mine' := by
    have apart := (signature_distinct distinct).1.flatMap_apart first second other
    exact apart (mine.resolve_left False.elim) (mine'.resolve_left False.elim)
  spared _ _ _ := False.elim
  places _ _ := id

/-- The numbers of the types in signatures. -/
def Program.SignatureId (p : Program) (id : Nat) : Prop := ∃ w ∈ p.signature, w.id = id

theorem Program.reads_signature {nodes : Sight} (shared : ∀ id, p.SignatureId id → nodes id)
    (classes : nodes.classes) : nodes.Reads p :=
  ⟨fun w written => shared w.id ⟨w, written, rfl⟩, classes⟩

theorem checkMethodSets_separate :
    Separate p checkMethodSets (fun _ _ => False) p.SignatureId where
  within _ _ _ scope t same := (checkMethodSets_honest _).within scope t same
  parallel h i _ _ shared _ classes :=
    checkMethodSets_parallel h (Program.reads_signature shared classes) i
  apart _ _ _ _ _ _ mine := (mine.elim id id).elim
  spared _ _ _ _ := id
  places _ _ := id

theorem Program.distinct_bodies (distinct : Distinct p.nodes) :
    Distinct (p.classIndices.flatMap fun i =>
      TypeRef.nodesAll (p.classAt i).signature ++ (p.classAt i).bodyNodes) := by
  refine (Program.distinct_parts distinct).right.of_copies_le fun i => ?_
  rw [← flatMap_classes fun c => TypeRef.nodesAll c.signature ++ c.bodyNodes, copies_flatMap_append,
    p.nodes_signature, bodyNodes]
  simp only [copies_append]
  omega

theorem Mine.of_reaches {types : List TypeRef} {bodies : List Node} {id : Nat}
    (mine : Mine (reaches types bodies) id) : id ∈ (TypeRef.nodesAll types ++ bodies).map Node.id := by
  rw [List.map_append]
  rcases mine with (impossible | ofBody) | (ofType | impossible)
  · exact impossible.elim
  · exact List.mem_append_right _ ofBody
  · exact List.mem_append_left _ ofType
  · exact impossible.elim

theorem checkClassBody_separate (distinct : Distinct p.nodes) :
    Separate p checkClassBody (fun i => reaches (p.classAt i).signature (p.classAt i).bodyNodes)
      p.SignatureId where
  within {_ σ} h i listed scope t same := by
    have mine := (Program.distinct_bodies distinct).of_flatMap listed
    have honest := checkClassBody_honest (σ i) (p := scope.program)
    rw [same, h.classAt] at honest
    exact (honest mine).within scope t same
  parallel h i _ nodes shared mine classes :=
    checkClassBody_parallel h (Program.reads_signature shared classes) i fun n written => by
      refine mine n.id ?_
      rcases List.mem_append.1 written with ofType | ofBody
      · exact .inr (.inl (List.mem_map_of_mem ofType))
      · exact .inl (.inr (List.mem_map_of_mem ofBody))
  apart i first j second other id mine mine' := by
    exact (Program.distinct_bodies distinct).flatMap_apart first second other mine.of_reaches
      mine'.of_reaches
  spared i listed id := by
    rintro ⟨w, written, rfl⟩ mine
    have bodies : (p.classAt i).bodyNodes ⊆ p.bodyNodes := fun n below =>
      List.mem_append_left _ (List.mem_append_left _
        (List.mem_flatMap.2 ⟨_, Program.classAt_mem listed, below⟩))
    exact reaches_spares_types distinct w written
      (reaches_mono (Program.classAt_signature i) bodies _ mine)
  places _ _ mine := mine.elim id id

/-! ## Verdicts on nodes -/

namespace Findings

theorem judgeAll_eq (f : Findings) (entries : List (Nat × Bool)) :
    ∃ validities, f.judgeAll entries = { f with validities } := by
  induction entries generalizing f with
  | nil => exact ⟨_, rfl⟩
  | cons entry rest ih =>
    obtain ⟨validities, same⟩ := ih (f.setValid entry.1 entry.2)
    refine ⟨validities, same.trans ?_⟩
    unfold setValid
    split <;> rfl

/-- A node keeps its verdict, and one without a verdict is given the one listed. -/
theorem validity_judgeAll (f : Findings) {entries : List (Nat × Bool)}
    (nodup : (entries.map Prod.fst).Nodup) {id : Nat} {valid : Bool} :
    (f.judgeAll entries).validity id = some valid ↔
      f.validity id = some valid ∨ f.validity id = none ∧ (id, valid) ∈ entries := by
  induction entries generalizing f with
  | nil => simp [judgeAll]
  | cons entry rest ih =>
    obtain ⟨first, later⟩ := List.nodup_cons.1 nodup
    obtain ⟨key, verdict⟩ := entry
    refine (ih (f.setValid key verdict) later).trans ?_
    rw [validity_setValid, List.mem_cons, Prod.mk.injEq]
    by_cases same : id = key
    · subst same
      have unlisted : (id, valid) ∉ rest := fun listed => first (List.mem_map.2 ⟨_, listed, rfl⟩)
      cases f.validity id <;> simp [unlisted, eq_comm]
    · simp [same]

end Findings

theorem Findings.MirrorsOn.judgeAll {f g : Findings} (m : f.MirrorsOn σ .full g)
    {entries entries' : List (Nat × Bool)} (perm : entries.Perm entries')
    (nodup : (entries.map Prod.fst).Nodup) :
    (f.judgeAll entries).MirrorsOn σ .full (g.judgeAll entries') := by
  obtain ⟨_, same⟩ := f.judgeAll_eq entries
  obtain ⟨_, same'⟩ := g.judgeAll_eq entries'
  refine m.enter (fun id _ => ?_) (by rw [same]; exact ⟨rfl, rfl⟩) (by rw [same']; exact ⟨rfl, rfl⟩)
  have node := m.node id trivial
  refine ⟨Option.ext fun valid => ?_, ?_, ?_, ?_⟩
  · rw [validity_judgeAll _ ((perm.map Prod.fst).nodup_iff.1 nodup), validity_judgeAll _ nodup,
      node.validity, perm.mem_iff]
  · rw [same, same']
    exact node.typeOf
  · rw [same, same']
    exact node.failed
  · rw [same, same']
    exact node.resolution

/-! ## States that agree -/

namespace Agree

variable (before : Agree σ s t)
include before

theorem noted (event event' : Event) : Agree σ (s.noted event) (t.noted event') :=
  ⟨before.findings, before.errors, before.warnings⟩

theorem parallel {α : Type} {x y : Check α} (run : Parallel p q σ .full id x y) (scope : Scope)
    (same : scope.program = p) : (y.exec (scope.mirrored q σ) t).1 = (x.exec scope s).1 ∧
      Agree σ (x.exec scope s).2 (y.exec (scope.mirrored q σ) t).2 := by
  have alike := run scope s t same before.findings
  refine ⟨alike.result, alike.findings, ?_, ?_⟩
  · rw [alike.newErrors.1, alike.newErrors.2]
    exact before.errors.append_right _
  · rw [alike.newWarnings.1, alike.newWarnings.2]
    exact before.warnings.append_right _

end Agree

/-- Verdicts on classes, in one order and in another. -/
def Matched (classes order : List Nat) (here there : List Bool) : Prop :=
  ∃ verdict : Nat → Bool, here = classes.map verdict ∧ there = order.map verdict

theorem Matched.both {classes order : List Nat} {a b a' b' : List Bool}
    (first : Matched classes order a a') (second : Matched classes order b b') :
    Matched classes order (bothValid a b) (bothValid a' b') := by
  obtain ⟨u, rfl, rfl⟩ := first
  obtain ⟨v, rfl, rfl⟩ := second
  refine ⟨fun i => u i && v i, ?_, ?_⟩
  · rw [bothValid, List.zipWith_map, List.zipWith_self]
  · rw [bothValid, List.zipWith_map, List.zipWith_self]

theorem Matched.all {classes order : List Nat} {here there : List Bool} (perm : order.Perm classes)
    (h : Matched classes order here there) : there.all id = here.all id := by
  obtain ⟨verdict, rfl, rfl⟩ := h
  exact (perm.map verdict).all_eq

/-! ## The phases -/

/-- The same program with its classes, which have different names, in another order. -/
structure Reordered (p q : Program) (σ : Equiv.Perm Nat) (order : List Nat) : Prop where
  renumbered : p.Renumbered q σ
  distinct : Distinct p.nodes
  names : (p.classes.map fun c => c.name.name).Nodup
  perm : order.Perm p.classIndices
  indices : q.classIndices = order.map σ

theorem redeclarations_nil (names : (p.classes.map fun c => c.name.name).Nodup) :
    p.redeclarations = [] := by
  refine redeclarations_eq_nil.2 fun i _ ambiguous => ?_
  obtain ⟨j, k, before, first, second⟩ := findClass_ambiguous.1 ambiguous
  obtain ⟨c, atJ, named⟩ := Program.mem_classesNamed.1 first
  obtain ⟨d, atK, sameName⟩ := Program.mem_classesNamed.1 second
  have there := (List.getElem?_eq_some_iff.1 atK).1
  refine List.nodup_iff_getElem?_ne_getElem?.1 names j k before (by simpa using there) ?_
  rw [List.getElem?_map, List.getElem?_map, atJ, atK]
  exact congrArg some (named.trans sameName.symm)

namespace Reordered

variable {order : List Nat} (r : Reordered p q σ order) (settings : Settings)
include r

theorem redeclarations : q.redeclarations = [] :=
  redeclarations_nil ((r.renumbered.classes_perm.map _).nodup_iff.2 r.names)

theorem separate {check : Nat → Check Bool} {own : Nat → Subject → Prop} {shared : Nat → Prop}
    (sep : Separate p check own shared) (scope : Scope) (same : scope.program = p)
    (known : ∀ id, shared id → (s.findings.cached id).isSome = true) (before : Agree σ s t) :
    Matched p.classIndices order ((p.classIndices.mapM check).exec scope s).1
        ((q.classIndices.mapM check).exec (scope.mirrored q σ) t).1 ∧
      Agree σ ((p.classIndices.mapM check).exec scope s).2
        ((q.classIndices.mapM check).exec (scope.mirrored q σ) t).2 :=
  sep.agree r.renumbered r.perm r.indices same known before

open Phase

theorem named : Matched p.classIndices order (named p settings).1 (named q settings).1 ∧
    Agree σ (named p settings).2 (named q settings).2 := by
  have start : Agree σ ((reportAll p.redeclarations).exec (.top p settings) .empty).2
      ((reportAll q.redeclarations).exec (.top q settings) .empty).2 := by
    rw [redeclarations_nil r.names, r.redeclarations]
    exact ⟨⟨fun _ _ => ⟨rfl, rfl, Iff.rfl, rfl⟩, fun _ _ => rfl, fun _ _ => rfl⟩, .refl _, .refl _⟩
  exact r.separate checkNames_separate (.top p settings) rfl (fun _ => False.elim) start

theorem typed : Matched p.classIndices order (typed p settings).1 (typed q settings).1 ∧
    Agree σ (typed p settings).2 (typed q settings).2 :=
  r.separate (checkClassSignatures_separate r.distinct) (.top p settings) rfl
    (fun _ => False.elim) ((r.named settings).2.noted .resolvingSignatures .resolvingSignatures)

theorem functionsTyped : (functionsTyped q settings).1 = (functionsTyped p settings).1 ∧
    Agree σ (functionsTyped p settings).2 (functionsTyped q settings).2 := by
  have run : Parallel p q σ .full id _ _ := Parallel.mapM_same p.functionIndices fun i _ =>
    checkFunctionSignature_parallel r.renumbered i fun _ _ => trivial
  rw [Phase.functionsTyped, Phase.functionsTyped, r.renumbered.functionIndices]
  exact (r.typed settings).2.parallel run (.top p settings) rfl

theorem derived : Matched p.classIndices order (derived p settings).1 (derived q settings).1 ∧
    Agree σ (derived p settings).2 (derived q settings).2 := by
  obtain ⟨here, survey⟩ := derived_survey settings r.distinct
  obtain ⟨there, survey'⟩ := derived_survey settings (r.renumbered.distinct r.distinct)
  have pair : Paired p q σ (.top p settings) _ _ (Phase.derived p settings).2
      (Phase.derived q settings).2 := {
    renumbered := r.renumbered
    program := rfl
    distinct := r.distinct
    before := (r.functionsTyped settings).2.noted .validatingInheritance .validatingInheritance
    untouched := functionsTyped_untouched settings r.distinct
    here := survey
    there := survey' }
  refine ⟨⟨_, here, ?_⟩, pair.agree⟩
  rw [there, r.indices, List.map_map]
  exact List.map_congr_left fun i _ => (pair.samePlaces i).sound

theorem functionSets : (functionSets q settings).1 = (functionSets p settings).1 ∧
    Agree σ (functionSets p settings).2 (functionSets q settings).2 :=
  ((r.derived settings).2.noted .validatingOverloads .validatingOverloads).parallel
    (checkFunctionSets_parallel r.renumbered ⟨fun _ _ => trivial, trivial⟩)
    (.top p settings) rfl

theorem methodSets : Matched p.classIndices order (methodSets p settings).1 (methodSets q settings).1 ∧
    Agree σ (methodSets p settings).2 (methodSets q settings).2 := by
  refine r.separate checkMethodSets_separate (.top p settings) rfl ?_
    (r.functionSets settings).2
  rintro id ⟨w, written, rfl⟩
  have examined := (derived_steps settings r.distinct).known (lineage_spares_types r.distinct)
    (functionsTyped_known settings r.distinct)
  have sets := (checkFunctionSets_honest (p := p)).within (.top p settings)
    ((Phase.derived p settings).2.noted .validatingOverloads) rfl
  exact sets.known (fun _ _ => False.elim) examined w written

theorem implemented :
    Matched p.classIndices order (implemented p settings).1 (implemented q settings).1 ∧
      Agree σ (implemented p settings).2 (implemented q settings).2 := by
  refine r.separate (checkClassBody_separate r.distinct) (.top p settings) rfl ?_
    ((r.methodSets settings).2.noted .checkingBodies .checkingBodies)
  rintro id ⟨w, written, rfl⟩
  exact methodSets_known settings r.distinct w written

theorem functionsImplemented :
    (functionsImplemented q settings).1 = (functionsImplemented p settings).1 ∧
      Agree σ (functionsImplemented p settings).2 (functionsImplemented q settings).2 := by
  have run : Parallel p q σ .full id _ _ := Parallel.mapM_same p.functionIndices fun i _ =>
    checkFunctionBody_parallel r.renumbered ⟨fun _ _ => trivial, trivial⟩ i fun _ _ => trivial
  rw [Phase.functionsImplemented, Phase.functionsImplemented, r.renumbered.functionIndices]
  exact (r.implemented settings).2.parallel run (.top p settings) rfl

theorem statements : (statements q settings).1 = (statements p settings).1 ∧
    Agree σ (statements p settings).2 (statements q settings).2 := by
  rw [Phase.statements, Phase.statements, r.renumbered.statements]
  exact (r.functionsImplemented settings).2.parallel (checkStatements_parallel r.renumbered
    ⟨fun _ _ => trivial, trivial⟩ [] false p.statements fun _ _ => trivial)
    (.top p settings) rfl

theorem classVerdicts :
    Matched p.classIndices order (classVerdicts p settings) (classVerdicts q settings) :=
  ((((r.named settings).1.both (r.typed settings).1).both (r.derived settings).1).both
    (r.methodSets settings).1).both (r.implemented settings).1

theorem functionVerdicts : functionVerdicts q settings = functionVerdicts p settings := by
  rw [Phase.functionVerdicts, Phase.functionVerdicts, (r.functionsTyped settings).1,
    (r.functionsImplemented settings).1]

theorem verdict : verdict q settings = verdict p settings := by
  rw [Phase.verdict, Phase.verdict, (r.classVerdicts settings).all r.perm, r.functionVerdicts,
    (r.functionSets settings).1, (r.statements settings).1]

theorem classIds : q.classes.map Class.id = order.map fun i => (p.classAt i).id := by
  rw [← q.map_classAt, r.indices, List.map_map, List.map_map]
  exact List.map_congr_left fun i _ => congrArg Class.id (r.renumbered.classAt i)

theorem judged : Agree σ (judged p settings) (judged q settings) := by
  obtain ⟨agreed, errors, warnings⟩ := (r.statements settings).2
  obtain ⟨verdict, here, there⟩ := r.classVerdicts settings
  have heads := (Program.distinct_parts r.distinct).left
  have classes : (p.classes.map Class.id).zip (Phase.classVerdicts p settings) =
      p.classIndices.map fun i => ((p.classAt i).id, verdict i) := by
    rw [here, ← p.map_classAt, List.map_map, List.zip_map']
    rfl
  have classes' : (q.classes.map Class.id).zip (Phase.classVerdicts q settings) =
      order.map fun i => ((p.classAt i).id, verdict i) := by
    rw [there, r.classIds, List.zip_map']
  have nodup : ((p.classIndices.map fun i => ((p.classAt i).id, verdict i)).map Prod.fst).Nodup := by
    have ids : (p.classIndices.map fun i => ((p.classAt i).id, verdict i)).map Prod.fst =
        (p.classes.map Class.node).map Node.id := by
      rw [← p.map_classAt, List.map_map, List.map_map, List.map_map]
      rfl
    rw [ids]
    exact heads.left
  have first := agreed.judgeAll (r.perm.symm.map _) nodup
  have functions : (((p.functions.map fun f => f.node.id).zip
      (Phase.functionVerdicts p settings)).map Prod.fst).Nodup := by
    rw [List.map_fst_zip (by rw [List.length_map, length_functionVerdicts])]
    have ids : (p.functions.map fun f => f.node.id) = (p.functions.map Function.node).map Node.id :=
      List.map_map.symm
    rw [ids]
    exact heads.right
  rw [judged_eq, judged_eq, classes, classes', r.functionVerdicts, r.renumbered.functions]
  exact ⟨first.judgeAll (.refl _) functions, errors, warnings⟩

end Reordered

/-! ## Programs -/

/-- Two analyses that say the same, up to the numbers of classes and the order of reports. -/
structure Analysis.Same (σ : Equiv.Perm Nat) (a b : Analysis) : Prop where
  verdict : b.verdict = a.verdict
  validity : ∀ id, b.state.findings.validity id = a.state.findings.validity id
  typeOf : ∀ id, b.state.findings.typeOf id = a.state.findings.typeOf id
  resolution : ∀ id, b.state.findings.resolution id =
    (a.state.findings.resolution id).map (Decl.renumber σ)
  mark : ∀ i, b.state.findings.mark (σ i) = a.state.findings.mark i
  chain : ∀ i, b.state.findings.chain (σ i) = (a.state.findings.chain i).map (Ancestor.renumber σ)
  errors : a.state.errors.Perm b.state.errors
  warnings : a.state.warnings.Perm b.state.warnings

/-- A program with its classes in another order is judged the same. -/
theorem Program.class_order_irrelevant (settings : Settings) {p q : Program}
    (distinct : (p.nodes.map Node.id).Nodup) (names : (p.classes.map fun c => c.name.name).Nodup)
    (classes : p.classes.Perm q.classes) (functions : q.functions = p.functions)
    (statements : q.statements = p.statements) :
    ∃ σ : Equiv.Perm Nat, (∀ i, q.classes[σ i]? = p.classes[i]?) ∧
      Analysis.Same σ (p.analyze settings) (q.analyze settings) := by
  obtain ⟨σ, renumbered⟩ := exists_renumbered classes functions statements
  obtain ⟨order, perm, indices⟩ := renumbered.order
  have reordered : Reordered p q σ order := ⟨renumbered, distinct, names, perm, indices⟩
  have agreed := reordered.judged settings
  exact ⟨σ, renumbered.classes, {
    verdict := reordered.verdict settings
    validity := fun id => (agreed.findings.node id trivial).validity
    typeOf := fun id => (agreed.findings.node id trivial).typeOf
    resolution := fun id => (agreed.findings.node id trivial).resolution
    mark := agreed.findings.mark trivial
    chain := agreed.findings.chain trivial
    errors := agreed.errors
    warnings := agreed.warnings }⟩

/-- A sound class below another one, two classes that extend themselves, and one that leads to a
cycle. -/
def fiveClasses : Source :=
  ⟨"class A extends D \x7b integer get() \x7b return n; \x7d \x7d " ++
    "class B extends C \x7b \x7d class C extends C \x7b \x7d " ++
    "class D \x7b protected integer n := 1; \x7d class E extends E \x7b \x7d", none⟩

theorem fiveClasses_class_order_irrelevant : ∃ p, fiveClasses.parse Parser.program = .ok p ∧
    let q : Program := { p with classes := p.classes.reverse }
    (p.analyze ⟨true, true⟩).state.errors.map CheckError.cause =
        [.inheritanceCycle "C", .invalidSuperclass "B" "C", .inheritanceCycle "E"] ∧
      (q.analyze ⟨true, true⟩).state.errors.map CheckError.cause =
        [.inheritanceCycle "E", .inheritanceCycle "C", .invalidSuperclass "B" "C"] ∧
      ∃ σ : Equiv.Perm Nat, (∀ i, q.classes[σ i]? = p.classes[i]?) ∧
        Analysis.Same σ (p.analyze ⟨true, true⟩) (q.analyze ⟨true, true⟩) := by
  have run : (fiveClasses.parse Parser.program).toOption.map (fun p =>
        let q : Program := { p with classes := p.classes.reverse }
        ((p.analyze ⟨true, true⟩).state.errors.map CheckError.cause,
          (q.analyze ⟨true, true⟩).state.errors.map CheckError.cause,
          p.classes.map fun c => c.name.name)) =
      some ([.inheritanceCycle "C", .invalidSuperclass "B" "C", .inheritanceCycle "E"],
        [.inheritanceCycle "E", .inheritanceCycle "C", .invalidSuperclass "B" "C"],
        ["A", "B", "C", "D", "E"]) := by
    decide +kernel
  obtain ⟨p, parsed, views⟩ := Option.map_eq_some_iff.1 run
  simp only [Prod.mk.injEq] at views
  obtain ⟨told, told', names⟩ := views
  have parsed := ok_of_toOption parsed
  have unique : (p.classes.map fun c => c.name.name).Nodup := by
    rw [names]
    decide
  exact ⟨p, parsed, told, told', Program.class_order_irrelevant ⟨true, true⟩
    (Source.parse_program_nodup parsed) unique (List.reverse_perm _).symm rfl rfl⟩

end ClassLang
