import ClassLang.Proofs.Checking.Parts

/-!
Each phase of the check of a program is honest. A class with the name of an earlier one is reported
before all phases, and fails in the first of them.
-/

namespace ClassLang

variable {p : Program} {scope : Scope} {s : CheckState}

/-! ## Names -/

theorem positions_sorted {α : Type} (test : α → Bool) (items : List α) :
    (positions test items).Pairwise (· < ·) := by
  have indices : (items.zipIdx.map Prod.snd).Pairwise (· < ·) := by
    rw [List.zipIdx_map_snd]
    exact List.pairwise_lt_range'
  exact indices.sublist ((List.filter_sublist).map Prod.snd)

theorem findClass_ambiguous {name : String} : p.findClass name = .ambiguous ↔
    ∃ i j, i < j ∧ i ∈ p.classesNamed name ∧ j ∈ p.classesNamed name := by
  have sorted : (p.classesNamed name).Pairwise (· < ·) := positions_sorted _ _
  unfold Program.findClass
  split
  · rename_i none_
    simp [none_]
  · rename_i only one
    constructor
    · nofun
    · rintro ⟨i, j, before, first, second⟩
      rw [one] at first second
      rw [List.mem_singleton.1 first, List.mem_singleton.1 second] at before
      exact absurd before (Nat.lt_irrefl only)
  · rename_i several notOne
    refine ⟨fun _ => ?_, fun _ => rfl⟩
    match listed : p.classesNamed name with
    | [] => exact absurd listed several
    | [i] => exact absurd listed (notOne i)
    | i :: j :: rest =>
      rw [listed] at sorted
      exact ⟨i, j, List.rel_of_pairwise_cons sorted (List.mem_cons_self ..), by simp, by simp⟩

theorem redeclarations_eq_nil : p.redeclarations = [] ↔
    ∀ i ∈ p.classIndices, p.findClass (p.classAt i).name.name ≠ .ambiguous := by
  unfold Program.redeclarations repeatedNames
  rw [List.map_eq_nil_iff, List.map_eq_nil_iff, List.filter_eq_nil_iff]
  constructor
  · intro fresh i _ ambiguous
    obtain ⟨j, k, before, first, second⟩ := findClass_ambiguous.1 ambiguous
    obtain ⟨c, atJ, named⟩ := Program.mem_classesNamed.1 first
    obtain ⟨d, atK, sameName⟩ := Program.mem_classesNamed.1 second
    refine fresh (d, k) (List.mem_zipIdx_iff_getElem?.2 atK) (List.any_eq_true.2 ⟨c, ?_, ?_⟩)
    · exact List.mem_of_getElem? ((List.getElem?_take_of_lt before).trans atJ)
    · simp [named, sameName]
  · rintro unique ⟨d, k⟩ listed repeated
    have atK := List.mem_zipIdx_iff_getElem?.1 listed
    obtain ⟨c, earlier, sameName⟩ := List.any_eq_true.1 repeated
    obtain ⟨j, atJ⟩ := List.mem_iff_getElem?.1 earlier
    rw [List.getElem?_take] at atJ
    split at atJ
    swap
    · cases atJ
    rename_i before
    have inRange : k ∈ p.classIndices := List.mem_range.2 (List.getElem?_eq_some_iff.1 atK).1
    have here : p.classAt k = d := by
      simp [Program.classAt, List.getD_eq_getElem?_getD, show p.classes[k]? = some d from atK]
    refine unique k inRange (findClass_ambiguous.2 ⟨j, k, before, ?_, ?_⟩)
    · exact Program.mem_classesNamed.2 ⟨c, atJ, by simpa [here] using sameName⟩
    · exact Program.mem_classesNamed.2 ⟨d, atK, by rw [here]⟩

theorem exec_checkNames {i : Nat} (same : scope.program = p) : (checkNames i).exec scope s =
    ((p.classAt i).typeParameterFaults.isEmpty &&
      p.findClass (p.classAt i).name.name != .ambiguous,
      { s with errors := s.errors ++ (p.classAt i).typeParameterFaults }) := by
  subst same
  rfl

theorem checkNames_honest : Honest p (fun _ => False) (fun _ => p.redeclarations = [])
    (p.classIndices.mapM checkNames) (·.all id = true) (·.all id = false) := by
  have each (i : Nat) (listed : i ∈ p.classIndices) : Honest p (fun _ => False)
      (fun _ => p.redeclarations = []) (checkNames i) (· = true) (· = false) := by
    refine ⟨fun scope s same => ?_, fun scope s tidy clean none_ => ?_⟩
    · rw [exec_checkNames same]
      exact Steps.single (.report _)
    · have unique := redeclarations_eq_nil.1 none_ i listed
      rw [exec_checkNames tidy.program, bne_iff_ne.2 unique, Bool.and_true]
      have reported : Honest p (fun _ => False) (fun _ => True)
          (reportAll (p.classAt i).typeParameterFaults) (· = true) (· = false) := .reportAll
      exact reported.faithful scope s tidy clean trivial
  refine ((Honest.mapM p.classIndices each (List.pairwise_of_forall
    fun _ _ _ _ none_ _ => none_)).widen fun subject h => ?_).weaken (fun _ none_ _ _ => none_)
    (fun _ h => h) fun _ h => h
  obtain ⟨_, _, impossible⟩ := h
  exact impossible

/-- A redeclaration that is reported makes the class fail as well. -/
theorem checkNames_redeclared (same : scope.program = p)
    (sound : ((p.classIndices.mapM checkNames).exec scope s).1.all id = true) :
    p.redeclarations = [] := by
  have values (classes : List Nat) (s : CheckState)
      (sound : ((classes.mapM checkNames).exec scope s).1.all id = true) :
      ∀ i ∈ classes, p.findClass (p.classAt i).name.name ≠ .ambiguous := by
    induction classes generalizing s with
    | nil => exact fun _ => nofun
    | cons i rest ih =>
      rw [Check.exec_mapM_cons, exec_checkNames same, List.all_cons, Bool.and_eq_true] at sound
      intro j listed
      rcases List.mem_cons.1 listed with rfl | later
      · exact bne_iff_ne.1 (Bool.and_eq_true _ _ ▸ sound.1).2
      · exact ih _ sound.2 j later
  exact redeclarations_eq_nil.2 (values _ s sound)

/-! ## Signatures -/

section Signatures

variable {check : Nat → Check Bool} {types : Nat → List TypeRef} {items : List Nat}

/-- The check of the signatures of some declarations, given the check of one. -/
theorem signatures_honest
    (honest : ∀ i, Distinct (TypeRef.nodesAll (types i)) →
      Honest p (mentions (TypeRef.nodesAll (types i))) (fun _ => True) (check i) (· = true) (· = false))
    (distinct : Distinct (items.flatMap fun i => TypeRef.nodesAll (types i))) :
    Honest p (mentions (items.flatMap fun i => TypeRef.nodesAll (types i))) (fun _ => True)
      (items.mapM check) (·.all id = true) (·.all id = false) := by
  have all := Honest.mapM items (fun i listed => honest i (distinct.of_flatMap listed))
    (List.pairwise_of_forall fun _ _ _ _ _ _ => trivial)
  refine (all.widen fun subject h => ?_).weaken (fun _ _ _ _ => trivial) (fun _ h => h) fun _ h => h
  obtain ⟨i, listed, mine⟩ := h
  exact mentions_mono (fun n below => List.mem_flatMap.2 ⟨i, listed, below⟩) subject mine

theorem signatures_known
    (honest : ∀ i, Distinct (TypeRef.nodesAll (types i)) →
      Honest p (mentions (TypeRef.nodesAll (types i))) (fun _ => True) (check i) (· = true) (· = false))
    (known : ∀ i s, Distinct (TypeRef.nodesAll (types i)) → s.Fresh (TypeRef.nodesAll (types i)) →
      ((check i).exec scope s).2.findings.Known (types i))
    (distinct : Distinct (items.flatMap fun i => TypeRef.nodesAll (types i)))
    (same : scope.program = p)
    (fresh : s.Fresh (items.flatMap fun i => TypeRef.nodesAll (types i))) :
    ((items.mapM check).exec scope s).2.findings.Known (items.flatMap types) := by
  obtain ⟨each, apart⟩ := Distinct.flatMap_iff.1 distinct
  have all := Check.mapM_establishes scope items (f := check)
    (A := fun i s => s.Fresh (TypeRef.nodesAll (types i)))
    (D := fun i s => s.findings.Known (types i))
    (fun i listed s fresh => known i s (each i listed) fresh)
    (apart.imp_of_mem fun listed _ apart s fresh =>
      ((honest _ (each _ listed)).within scope s same).fresh apart.mentions fresh)
    (fun i j listed s known => ((honest j (each j listed)).within scope s same).known
      (fun _ _ => id) known)
    s fun i listed => fresh.mono fun n below => List.mem_flatMap.2 ⟨i, listed, below⟩
  intro t written
  obtain ⟨i, listed, written⟩ := List.mem_flatMap.1 written
  exact all i listed t written

end Signatures

/-! ## Overload sets -/

theorem numbered_steps {own : Subject → Prop} (sets : List OverloadSet) (s : CheckState) :
    Steps own s { s with findings := sets.foldl (fun f set => set.number f) s.findings } := by
  have one (set : OverloadSet) (s : CheckState) :
      Steps own s { s with findings := set.number s.findings } := by
    unfold OverloadSet.number
    induction set.members.zipIdx generalizing s with
    | nil => exact Steps.refl s
    | cons m rest ih => exact (Steps.single (.enter (.number m.1.decl m.2))).trans (ih _)
  induction sets generalizing s with
  | nil => exact Steps.refl s
  | cons set rest ih => exact (one set s).trans (ih _)

theorem checkSets_honest {given : CheckState → Prop} (sets : List OverloadSet) :
    Honest p (fun _ => False) given (checkSets sets) (· = true) (· = false) where
  within _ s _ := (numbered_steps sets s).trans (Steps.single (.report _))
  faithful scope s tidy clean _ := by
    have steps : Steps (fun _ => False) s _ := numbered_steps sets s
    have numbered : CheckState.Clean
        { s with findings := sets.foldl (fun f set => set.number f) s.findings } :=
      ⟨clean.1, clean.2.of_eq (fun _ => steps.validity_eq id id) fun _ => steps.mark_eq id⟩
    have reported : Honest p (fun _ => False) (fun _ => True)
        (reportAll (sets.flatMap OverloadSet.faults)) (· = true) (· = false) := .reportAll
    exact reported.faithful scope _ tidy numbered trivial

theorem checkFunctionSets_honest :
    Honest p (fun _ => False) (fun _ => True) checkFunctionSets (· = true) (· = false) :=
  .read fun _ _ => .findings fun _ => checkSets_honest _

theorem checkMethodSets_honest (owner : Nat) :
    Honest p (fun _ => False) (fun _ => True) (checkMethodSets owner) (· = true) (· = false) := by
  refine .read fun scope _ => .bind (Q := fun _ => True) .reportAll (fun _ h => h)
    (fun _ _ _ _ => trivial) (fun statics => ?_) fun statics scope s failed _ => ?_
  · refine .findings fun known => .bind (Q := fun _ => statics = true) (checkSets_honest _)
      (fun _ h => h) (fun _ _ h _ => h.2.1) (fun sets => .pure fun _ h => ?_)
      fun sets scope s failed _ => ?_
    · rw [h.1, h.2]
      rfl
    · rw [Check.exec_pure, failed, Bool.and_false]
  · simp only [Check.exec_bind, Check.exec_pure, failed, Bool.false_and]

theorem methodSets_honest (classes : List Nat) :
    Honest p (fun _ => False) (fun _ => True) (classes.mapM checkMethodSets) (·.all id = true)
      (·.all id = false) := by
  have all := Honest.mapM classes (fun i _ => checkMethodSets_honest (p := p) i)
    (List.pairwise_of_forall fun _ _ _ _ _ _ => trivial)
  refine (all.widen fun subject h => ?_).weaken (fun _ _ _ _ => trivial) (fun _ h => h) fun _ h => h
  obtain ⟨_, _, impossible⟩ := h
  exact impossible

/-! ## Verdicts on declarations -/

theorem judgeEach_honest (nodes : List Node) (verdicts : List Bool) :
    Honest p (covers nodes) (fun _ => verdicts.all id = true)
      (judgeEach (nodes.map Node.id) verdicts) (fun _ => True) (fun _ => False) := by
  have each (pairs : List (Nat × Bool)) (listed : ∀ pair ∈ pairs, pair.1 ∈ nodes.map Node.id) :
      Honest p (covers nodes) (fun _ => ∀ pair ∈ pairs, pair.2 = true)
        (pairs.forM fun pair => learn (·.setValid pair.1 pair.2)) (fun _ => True)
        (fun _ => False) := by
    induction pairs with
    | nil => exact .pure fun _ _ => trivial
    | cons pair rest ih =>
      change Honest p (covers nodes) _ (learn (·.setValid pair.1 pair.2) >>= fun _ =>
        rest.forM fun pair => learn (·.setValid pair.1 pair.2)) _ _
      refine .learn (fun _ => .setValid _ _ (listed pair (List.mem_cons_self ..)))
        (fun s known all clean => ?_) ((ih fun pair h => listed pair (List.mem_cons_of_mem _ h)).weaken
          (fun _ all pair h => all pair (List.mem_cons_of_mem _ h)) (fun _ h => h) fun _ h => h)
        fun _ _ all _ => all
      rw [all pair (List.mem_cons_self ..)]
      exact clean.setValid _
  refine (each _ fun pair listed => (List.of_mem_zip listed).1).weaken (fun _ all pair listed => ?_)
    (fun _ h => h) fun _ h => h
  exact List.all_eq_true.1 all _ (List.of_mem_zip listed).2

/-! ## The phases -/

section Phases

variable (distinct : Distinct p.nodes)
include distinct

theorem signature_distinct : Distinct (p.classIndices.flatMap fun i =>
    TypeRef.nodesAll (p.classAt i).signature) ∧
      Distinct (p.functionIndices.flatMap fun i => TypeRef.nodesAll (p.functionAt i).signature) ∧
      Apart (p.classIndices.flatMap fun i => TypeRef.nodesAll (p.classAt i).signature)
        (p.functionIndices.flatMap fun i => TypeRef.nodesAll (p.functionAt i).signature) := by
  have types := (Program.distinct_parts distinct).right.left
  rw [Program.nodes_signature, Program.flatMap_classes, Program.flatMap_functions] at types
  exact ⟨types.left, types.right, types.apart⟩

theorem classSignatures_honest : Honest p (mentions (TypeRef.nodesAll p.signature)) (fun _ => True)
    (p.classIndices.mapM checkClassSignatures) (·.all id = true) (·.all id = false) := by
  have all := signatures_honest (p := p) checkClassSignatures_honest (signature_distinct distinct).1
  refine all.widen (mentions_mono ?_)
  rw [Program.nodes_signature, Program.flatMap_classes]
  exact List.subset_append_left _ _

theorem functionSignatures_honest :
    Honest p (mentions (TypeRef.nodesAll p.signature)) (fun _ => True)
      (p.functionIndices.mapM checkFunctionSignature) (·.all id = true) (·.all id = false) := by
  have all := signatures_honest (p := p) checkFunctionSignature_honest
    (signature_distinct distinct).2.1
  refine all.widen (mentions_mono ?_)
  rw [Program.nodes_signature, Program.flatMap_functions]
  exact List.subset_append_right _ _

theorem inheritance_honest : Honest p (lineage p) (·.Idle p)
    (p.classIndices.mapM (checkInheritance p.classIndices.length)) (·.all id = true)
    (·.all id = false) := by
  have parts := Program.distinct_parts distinct
  by_cases none_ : p.classIndices = []
  · rw [none_]
    exact .pure fun _ _ => rfl
  · exact checkInheritances_honest (Program.superclasses_apart parts.right.right.left)
      (fun empty => none_ (List.length_eq_zero_iff.1 empty)) _

theorem classBodies_honest :
    Honest p (reaches p.signature (p.classes.flatMap Class.bodyNodes))
      (fun s => s.Settled p.signature ∧ s.Fresh (p.classes.flatMap Class.bodyNodes))
      (p.classIndices.mapM checkClassBody) (·.all id = true) (·.all id = false) := by
  have parts := (Program.distinct_parts distinct).right
  have written : (p.classIndices.flatMap fun i => (p.classAt i).signature) ⊆ p.signature := by
    rw [Program.signature_eq]
    exact List.subset_append_left _ _
  have inside : p.classes.flatMap Class.bodyNodes ⊆ p.superNodes ++ p.bodyNodes := fun n below =>
    List.mem_append_right _ (List.mem_append_left _ (List.mem_append_left _ below))
  have apart := parts.apart.mono (TypeRef.nodesAll_subset written) inside
  have bodies := parts.right.right.left.left
  have types := (signature_distinct distinct).1
  rw [Program.flatMap_classes] at bodies apart ⊢
  have parts : Distinct (TypeRef.nodesAll (p.classIndices.flatMap fun i => (p.classAt i).signature) ++
      p.classIndices.flatMap fun i => (p.classAt i).bodyNodes) :=
    Distinct.append (by simpa only [TypeRef.nodesAll_eq, List.flatMap_assoc] using types) bodies apart
  have all := bodies_honest (p := p) checkClassBody_honest parts
  exact (all.widen (reaches_mono written (List.Subset.refl _))).weaken
    (fun s h => ⟨h.1.mono written, h.2⟩) (fun _ h => h) fun _ h => h

theorem functionBodies_honest :
    Honest p (reaches p.signature (p.functions.flatMap fun f => f.body.nodes))
      (fun s => s.Settled p.signature ∧ s.Fresh (p.functions.flatMap fun f => f.body.nodes))
      (p.functionIndices.mapM checkFunctionBody) (·.all id = true) (·.all id = false) := by
  have parts := (Program.distinct_parts distinct).right
  have written : (p.functionIndices.flatMap fun i => (p.functionAt i).signature) ⊆ p.signature := by
    rw [Program.signature_eq]
    exact List.subset_append_right _ _
  have inside : (p.functions.flatMap fun f => f.body.nodes) ⊆ p.superNodes ++ p.bodyNodes :=
    fun n below => List.mem_append_right _ (List.mem_append_left _ (List.mem_append_right _ below))
  have apart := parts.apart.mono (TypeRef.nodesAll_subset written) inside
  have bodies := parts.right.right.left.right
  have types := (signature_distinct distinct).2.1
  rw [Program.flatMap_functions] at bodies apart ⊢
  have parts : Distinct
      (TypeRef.nodesAll (p.functionIndices.flatMap fun i => (p.functionAt i).signature) ++
        p.functionIndices.flatMap fun i => (p.functionAt i).body.nodes) :=
    Distinct.append (by simpa only [TypeRef.nodesAll_eq, List.flatMap_assoc] using types) bodies apart
  have all := bodies_honest (p := p) checkFunctionBody_honest parts
  exact (all.widen (reaches_mono written (List.Subset.refl _))).weaken
    (fun s h => ⟨h.1.mono written, h.2⟩) (fun _ h => h) fun _ h => h

end Phases

end ClassLang
