import ClassLang.Proofs.Checking.TreeParallels

/-!
Declarations are checked alike in renumbered programs: a class in one of them is checked as the same
class in the other.
-/

namespace ClassLang

variable {p q : Program} {σ : Equiv.Perm Nat} {nodes : Sight} (h : p.Renumbered q σ)

/-! ## Names -/

theorem Class.typeParameterFaults_plain (c : Class) :
    ∀ e ∈ c.typeParameterFaults, e.cause.isPlain = true := by
  intro e listed
  obtain ⟨_, _, rfl⟩ := List.mem_map.1 listed
  rfl

theorem Program.redeclarations_plain (p : Program) :
    ∀ e ∈ p.redeclarations, e.cause.isPlain = true := by
  intro e listed
  obtain ⟨_, _, rfl⟩ := List.mem_map.1 listed
  rfl

include h in
theorem checkNames_parallel (i : Nat) :
    Parallel p q σ nodes id (checkNames i) (checkNames (σ i)) := by
  refine .read fun scope same => ?_
  dsimp only
  rw [Scope.mirrored_program, same, h.classAt, h.findClass]
  have ambiguous : ((p.findClass (p.classAt i).name.name).renumber σ != .ambiguous) =
      (p.findClass (p.classAt i).name.name != .ambiguous) := by
    cases p.findClass (p.classAt i).name.name <;> rfl
  rw [ambiguous]
  exact .bind (.reportPlain (p.classAt i).typeParameterFaults_plain) fun _ => .pure rfl

/-! ## Signatures -/

include h in
theorem checkClassSignatures_parallel (i : Nat)
    (inside : Inside nodes (TypeRef.nodesAll (p.classAt i).signature)) :
    Parallel p q σ nodes id (checkClassSignatures i) (checkClassSignatures (σ i)) := by
  rw [Class.nodes_signature] at inside
  refine .read fun scope same => ?_
  rw [Scope.mirrored_program, same, h.classAt]
  have fields := resolveAll_parallel h _ (inside.mono (List.subset_append_left _ _))
  have methods : Parallel p q σ nodes id
      ((p.classAt i).methods.mapM fun m => resolveAll (m.params.map Param.type ++ [m.returnType]))
      ((p.classAt i).methods.mapM fun m => resolveAll (m.params.map Param.type ++ [m.returnType])) := by
    refine .mapM_same _ fun m listed => resolveAll_parallel h _ (inside.mono fun n below => ?_)
    exact List.mem_append_right _ (List.mem_flatMap.2 ⟨m, listed, below⟩)
  exact .inner _ (.bind_same fields fun _ => .bind_same methods fun _ => .pure rfl) (fun _ => rfl)
    fun _ => rfl

include h in
theorem Parallel.ofFunction {x : Check Bool} (function : Function)
    (inner : Parallel p q σ nodes id x x) :
    Parallel p q σ nodes id (MonadWithReader.withReader (Scope.ofFunction · function) x : Check Bool)
      (MonadWithReader.withReader (Scope.ofFunction · function) x : Check Bool) :=
  .withReader inner fun scope same => ⟨(scope.ofFunction_program function).trans same,
    (Scope.mirrored_ofFunction h same function).symm⟩

include h in
theorem Parallel.inClass {x : Check Bool} (owner : Nat) (isInstance : Bool)
    (inner : Parallel p q σ nodes id x x) :
    Parallel p q σ nodes id (MonadWithReader.withReader (Scope.inClass · owner isInstance) x : Check Bool)
      (MonadWithReader.withReader (Scope.inClass · (σ owner) isInstance) x : Check Bool) :=
  .withReader inner fun _ same => ⟨same, (Scope.mirrored_inClass h same owner isInstance).symm⟩

include h in
theorem checkFunctionSignature_parallel (i : Nat)
    (inside : Inside nodes (TypeRef.nodesAll (p.functionAt i).signature)) :
    Parallel p q σ nodes id (checkFunctionSignature i) (checkFunctionSignature i) := by
  refine .read fun scope same => ?_
  dsimp only
  rw [Scope.mirrored_program, same, h.functionAt]
  exact .ofFunction h _ (resolveAll_parallel h _ inside)

/-! ## Overload sets -/

def OverloadSet.renumber (σ : Equiv.Perm Nat) (set : OverloadSet) : OverloadSet :=
  { set with members := set.members.map fun m => { m with decl := m.decl.renumber σ } }

theorem OverloadSet.faults_renumber (set : OverloadSet) : (set.renumber σ).faults = set.faults := by
  simp only [OverloadSet.faults, OverloadSet.renumber, List.filterMap_map, List.filter_map,
    ← List.map_drop, List.map_map, Function.comp_def]

theorem OverloadSet.faults_duplicate (set : OverloadSet) :
    ∀ e ∈ set.faults, e.cause.isDuplicate = true := by
  intro e listed
  obtain ⟨_, _, listed⟩ := List.mem_flatMap.1 listed
  obtain ⟨_, _, rfl⟩ := List.mem_map.1 listed
  rfl

theorem Method.staticFaults_plain (m : Method) : ∀ e ∈ m.staticFaults, e.cause.isPlain = true := by
  unfold staticFaults
  split
  · simp only [List.forall_mem_append]
    refine ⟨⟨?_, ?_⟩, ?_⟩
    all_goals
      split
      all_goals simp [CheckCause.isPlain, CheckCause.isCycle, CheckCause.isMisplacement, CheckCause.isDuplicate]
  · exact List.forall_mem_nil _

/-- Gives numbers to declarations. -/
def Findings.numberAll (f : Findings) (numbers : List (Decl × Nat)) : Findings :=
  numbers.foldl (fun f m => f.setOverloadIndex m.1 m.2) f

/-- Numbering says nothing of nodes. -/
theorem Findings.numberAll_eq (f : Findings) (numbers : List (Decl × Nat)) :
    ∃ overloads, f.numberAll numbers = { f with overloads } := by
  induction numbers generalizing f with
  | nil => exact ⟨f.overloads, rfl⟩
  | cons m rest ih => exact ih (f.setOverloadIndex m.1 m.2)

def OverloadSet.numbers (set : OverloadSet) : List (Decl × Nat) :=
  set.members.zipIdx.map fun m => (m.1.decl, m.2)

theorem numberAll_sets (f : Findings) (sets : List OverloadSet) :
    sets.foldl (fun f set => set.number f) f = f.numberAll (sets.flatMap OverloadSet.numbers) := by
  rw [Findings.numberAll, List.foldl_flatMap]
  simp only [OverloadSet.numbers, List.foldl_map]
  rfl

theorem checkSets_parallel {sets sets' : List OverloadSet}
    (same : sets'.flatMap OverloadSet.faults = sets.flatMap OverloadSet.faults) :
    Parallel p q σ nodes id (checkSets sets) (checkSets sets') := by
  refine .bind_same (.learn fun f g m => ?_) fun _ => ?_
  · obtain ⟨_, numbered⟩ := f.numberAll_eq (sets.flatMap OverloadSet.numbers)
    obtain ⟨_, numbered'⟩ := g.numberAll_eq (sets'.flatMap OverloadSet.numbers)
    rw [numberAll_sets, numberAll_sets, numbered, numbered']
    exact m.enter_aside (fun _ => ⟨rfl, rfl, rfl⟩) (fun _ => ⟨rfl, rfl, rfl⟩) rfl rfl ⟨rfl, rfl⟩
      ⟨rfl, rfl⟩
  · rw [same]
    refine .reportAll fun e listed => ?_
    obtain ⟨set, _, listed⟩ := List.mem_flatMap.1 listed
    exact (CheckCause.of_isDuplicate (set.faults_duplicate e listed)).1

namespace Findings.Mirrors

variable {f g : Findings} (m : f.Mirrors p σ g)
include h m

theorem functionSets : q.functionSets g = p.functionSets f := by
  unfold Program.functionSets
  rw [h.functionGroups]
  refine List.map_congr_left fun group listed => ?_
  obtain ⟨name, _, rfl⟩ := List.mem_map.1 listed
  dsimp only
  simp only [h.functionAt]
  congr 1
  refine List.map_congr_left fun i named => ?_
  have written := Program.functionAt_signature named
  rw [m.paramTypes? fun t listed => written (List.mem_append_left _ listed)]

theorem methodSets (owner : Nat) :
    q.methodSets g (σ owner) = (p.methodSets f owner).map (OverloadSet.renumber σ) := by
  unfold Program.methodSets
  rw [h.classAt, List.map_map]
  refine List.map_congr_left fun name _ => ?_
  rw [Function.comp_apply, OverloadSet.renumber]
  dsimp only
  rw [List.map_map]
  congr 1
  refine List.map_congr_left fun method listed => ?_
  have declared := List.mem_zipIdx_iff_getElem?.1 (List.mem_filter.1 listed).1
  have written : method.1.signature ⊆ p.signature := fun t listed =>
    Program.classAt_signature owner (List.mem_append_right _
      (List.mem_flatMap.2 ⟨_, List.mem_of_getElem? declared, listed⟩))
  rw [m.paramTypes? fun t listed => written (List.mem_append_left _ listed)]
  rfl

end Findings.Mirrors

section Reads

variable (reads : nodes.Reads p)
include h reads

theorem checkFunctionSets_parallel :
    Parallel p q σ nodes id checkFunctionSets checkFunctionSets := by
  refine .read fun scope same => .findings fun f g m => ?_
  rw [Scope.mirrored_program, (m.mirrors reads).functionSets h, same]
  exact checkSets_parallel rfl

theorem checkMethodSets_parallel (i : Nat) :
    Parallel p q σ nodes id (checkMethodSets i) (checkMethodSets (σ i)) := by
  refine .read fun scope same => ?_
  dsimp only
  rw [Scope.mirrored_program, same, h.classAt]
  refine .bind_same (.reportPlain fun e listed => ?_) fun _ => .findings fun f g m => ?_
  · obtain ⟨method, _, listed⟩ := List.mem_flatMap.1 listed
    exact method.staticFaults_plain e listed
  · refine .bind_same (checkSets_parallel ?_) fun _ => .pure rfl
    rw [(m.mirrors reads).methodSets h, List.flatMap_map]
    simp only [OverloadSet.faults_renumber]

/-! ## Bodies -/

theorem checkField_parallel (owner : Nat) {field : Field}
    (inside : Inside nodes (field.type.nodes ++ initializerNodes field.init)) :
    Parallel p q σ nodes id (checkField owner field) (checkField (σ owner) field) := by
  unfold checkField
  cases given : field.init with
  | none => exact .pure rfl
  | some init =>
    rw [given] at inside
    have written := field.type.resolve_along h (inside.mono (List.subset_append_left _ _))
    exact .inClass h _ _ (.bind_same written.run fun type =>
      checkInitializer_parallel h reads type _ (inside.mono (List.subset_append_right _ _)))

theorem checkMethod_parallel (owner : Nat) {m : Method}
    (inside : Inside nodes (TypeRef.nodesAll m.signature ++ m.body.nodes)) :
    Parallel p q σ nodes id (checkMethod owner m) (checkMethod (σ owner) m) := by
  refine .read fun scope same => ?_
  dsimp only
  rw [Scope.mirrored_program, same, h.classAt]
  exact .inClass h _ _ (checkCallable_parallel h reads _ inside)

theorem checkFields_parallel (i : Nat) {fields : List Field}
    (types : Inside nodes (TypeRef.nodesAll (fields.map Field.type)))
    (inits : Inside nodes (fields.flatMap fun field => initializerNodes field.init)) :
    Parallel p q σ nodes id (fields.mapM (checkField i)) (fields.mapM (checkField (σ i))) := by
  refine .mapM_same _ fun field listed => checkField_parallel h reads i fun n below => ?_
  rcases List.mem_append.1 below with ofType | ofInit
  · exact types n (TypeRef.nodes_subset_nodesAll (List.mem_map_of_mem listed) ofType)
  · exact inits n (List.mem_flatMap.2 ⟨field, listed, ofInit⟩)

theorem checkMethods_parallel (i : Nat) {methods : List Method}
    (types : Inside nodes (TypeRef.nodesAll (methods.flatMap Method.signature)))
    (bodies : Inside nodes (methods.flatMap fun m => m.body.nodes)) :
    Parallel p q σ nodes id (methods.mapM (checkMethod i)) (methods.mapM (checkMethod (σ i))) := by
  refine .mapM_same _ fun m listed => checkMethod_parallel h reads i fun n below => ?_
  rcases List.mem_append.1 below with ofType | ofBody
  · refine types n (TypeRef.nodesAll_subset (fun t written => ?_) ofType)
    exact List.mem_flatMap.2 ⟨m, listed, written⟩
  · exact bodies n (List.mem_flatMap.2 ⟨m, listed, ofBody⟩)

theorem checkClass_parallel (i : Nat) (c : Class)
    (inside : Inside nodes (TypeRef.nodesAll c.signature ++ c.bodyNodes)) :
    Parallel p q σ nodes id (checkClass i c) (checkClass (σ i) c) := by
  have types := inside.mono (List.subset_append_left _ _)
  rw [Class.signature, TypeRef.nodesAll_append] at types
  have bodies := inside.mono (List.subset_append_right _ _)
  have fields := checkFields_parallel h reads i (types.mono (List.subset_append_left _ _))
    (bodies.mono (List.subset_append_left _ _))
  have methods := checkMethods_parallel h reads i (types.mono (List.subset_append_right _ _))
    (bodies.mono (List.subset_append_right _ _))
  exact .bind_same (.note _ _) fun _ => .bind_same fields fun _ => .bind_same methods fun _ =>
    .pure rfl

theorem checkClassBody_parallel (i : Nat)
    (inside : Inside nodes (TypeRef.nodesAll (p.classAt i).signature ++ (p.classAt i).bodyNodes)) :
    Parallel p q σ nodes id (checkClassBody i) (checkClassBody (σ i)) := by
  rw [checkClassBody_eq, checkClassBody_eq]
  refine .read fun scope same => ?_
  rw [Scope.mirrored_program, same, h.classAt]
  exact checkClass_parallel h reads i (p.classAt i) inside

theorem checkFunction_parallel (function : Function)
    (inside : Inside nodes (TypeRef.nodesAll function.signature ++ function.body.nodes)) :
    Parallel p q σ nodes id (checkFunction function) (checkFunction function) :=
  .bind_same (.note _ _) fun _ => .ofFunction h _ (checkCallable_parallel h reads _ inside)

theorem checkFunctionBody_parallel (i : Nat)
    (inside : Inside nodes (TypeRef.nodesAll (p.functionAt i).signature ++
      (p.functionAt i).body.nodes)) :
    Parallel p q σ nodes id (checkFunctionBody i) (checkFunctionBody i) := by
  rw [checkFunctionBody_eq]
  refine .read fun scope same => ?_
  rw [Scope.mirrored_program, same, h.functionAt]
  exact checkFunction_parallel h reads (p.functionAt i) inside

end Reads

end ClassLang
