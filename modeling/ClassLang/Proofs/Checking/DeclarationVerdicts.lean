import ClassLang.Proofs.Checking.Routines

/-!
What the verdicts on classes and functions say: the types in their signatures are sound, and their
bodies have been checked with success.

* `Program.class_sound`, `Program.function_sound`: this for a class and for a function.
-/

namespace ClassLang

variable {α ι : Type} {p : Program} {settings : Settings} {scope : Scope} {f g : Findings}
  {types : List TypeRef}

/-! ## Types in signatures -/

/-- Some written types denote types. -/
def Findings.Sound (f : Findings) (ts : List TypeRef) : Prop :=
  ∀ t ∈ ts, ∃ type, f.cached t.id = some (.ok type)

theorem Findings.Sound.mono {ts : List TypeRef} (h : f.Sound ts) (later : f.Extends g) : g.Sound ts := by
  intro t listed
  obtain ⟨type, known⟩ := h t listed
  exact ⟨type, later.cached known⟩

/-- What a good verdict says of an item holds of all items if all verdicts are good. -/
theorem all_of_forall₂ {fact : ι → Prop} {items : List ι} {verdicts : List Bool}
    (h : List.Forall₂ (fun i sound => sound = true → fact i) items verdicts)
    (good : verdicts.all id = true) : ∀ i ∈ items, fact i := by
  induction h with
  | nil => exact fun _ => nofun
  | cons first _ ih =>
    obtain ⟨here, later⟩ := Bool.and_eq_true_iff.1 good
    exact List.forall_mem_cons.2 ⟨first here, ih later⟩

theorem resolveAll_sound (ts : List TypeRef) (awaits : f.Awaits types (TypeRef.nodesAll ts)) :
    Ensures (resolveAll ts) scope f fun sound g =>
      Trail scope.program (At (TypeRef.subtreesAll ts) scope.place) f g ∧
        (sound = true → g.Sound ts) := by
  refine .bind (resolveEach_traced ts scope f types awaits) fun rs g ⟨trail, known⟩ => ?_
  refine .pure ⟨trail, fun sound => ?_⟩
  have facts : List.Forall₂ (fun t (sound : Bool) => sound = true → ∃ type, g.cached t.id = some (.ok type))
      ts (rs.map Except.isOk) := by
    refine List.forall₂_map_right_iff.2 (known.imp fun t r ⟨known, _⟩ sound => ?_)
    cases r with
    | error _ => cases sound
    | ok type => exact ⟨type, known⟩
  exact all_of_forall₂ facts (by rw [List.all_map]; exact sound)

/-- What successful checks of several items have brought about. -/
theorem Ensures.mapM_each {check : ι → Check Bool} {own : ι → Subtree → Place → Prop}
    (fact : ι → Findings → Prop) {items : List ι} (nodes : ι → List Node)
    (inside : ∀ i ∈ items, ∀ x place, own i x place → x.node ∈ nodes i)
    (lasting : ∀ i g h, Findings.Extends g h → fact i g → fact i h)
    (each : ∀ i ∈ items, ∀ g, Findings.Awaits g types (nodes i) →
      Ensures (check i) scope g fun sound h => Trail p (own i) g h ∧ (sound = true → fact i h))
    (awaits : f.Awaits types (items.flatMap nodes)) :
    Ensures (items.mapM check) scope f fun verdicts g =>
      Trail p (fun x place => ∃ i ∈ items, own i x place) f g ∧
        List.Forall₂ (fun i sound => sound = true → fact i g) items verdicts := by
  induction items generalizing f with
  | nil =>
    rw [List.mapM_nil]
    exact .pure ⟨.refl f, .nil⟩
  | cons i rest ih =>
    rw [List.mapM_cons]
    refine .bind (each i (List.mem_cons_self ..) f awaits.left) fun sound g ⟨trail, here⟩ => ?_
    have later := awaits.after trail (inside i (List.mem_cons_self ..))
    refine .bind (ih (fun j listed => inside j (List.mem_cons_of_mem i listed))
      (fun j listed => each j (List.mem_cons_of_mem i listed)) later)
      fun verdicts h ⟨others, facts⟩ => .pure ⟨?_, .cons (fun good => ?_) facts⟩
    · exact (trail.mono fun x place mine => ⟨i, List.mem_cons_self .., mine⟩).trans
        (others.mono fun x place ⟨j, listed, mine⟩ => ⟨j, List.mem_cons_of_mem i listed, mine⟩)
    · exact lasting i g h (others.extends_ later.tidy) (here good)

theorem checkFunctionSignature_sound (settings : Settings) (i : Nat)
    (awaits : f.Awaits types (TypeRef.nodesAll (p.functionAt i).signature)) :
    Ensures (checkFunctionSignature i) (.top p settings) f fun sound g =>
      Trail p (At (TypeRef.subtreesAll (p.functionAt i).signature) (p.functionPlace (p.functionAt i)))
        f g ∧ (sound = true → g.Sound (p.functionAt i).signature) := by
  refine .read (.withReader ?_)
  have resolved : Ensures (resolveAll (p.functionAt i).signature)
      ((Scope.top p settings).ofFunction (p.functionAt i)) f _ := resolveAll_sound _ awaits
  rw [Scope.ofFunction_program, Scope.ofFunction_place] at resolved
  exact resolved

theorem checkClassSignatures_sound (settings : Settings) (i : Nat)
    (awaits : f.Awaits types (TypeRef.nodesAll (p.classAt i).signature)) :
    Ensures (checkClassSignatures i) (.top p settings) f fun sound g =>
      Trail p (At (TypeRef.subtreesAll (p.classAt i).signature) (p.signaturePlace i)) f g ∧
        (sound = true → g.Sound (p.classAt i).signature) := by
  have whole := checkClassSignatures_trail settings i awaits
  rw [Class.signature, TypeRef.nodesAll_append] at awaits
  refine .and (whole.weaken fun _ _ explored => explored.trail) (.read (.withReader ?_))
  refine .bind (resolveAll_sound _ awaits.left) ?_
  rintro fieldsSound g ⟨trail, fields⟩
  have later := awaits.after trail (At.inside (TypeRef.subtreesAll_nodes _))
  rw [show TypeRef.nodesAll ((p.classAt i).methods.flatMap Method.signature) =
    (p.classAt i).methods.flatMap fun m => TypeRef.nodesAll m.signature by
      simp only [TypeRef.nodesAll_eq, List.flatMap_assoc]] at later
  have methods : Ensures ((p.classAt i).methods.mapM fun m =>
      resolveAll (m.params.map Param.type ++ [m.returnType]))
      { Scope.top p settings with generics := (p.classAt i).params } g fun verdicts h =>
        Trail p (fun x place => ∃ m ∈ (p.classAt i).methods,
          At (TypeRef.subtreesAll m.signature) (p.signaturePlace i) x place) g h ∧
            List.Forall₂ (fun m sound => sound = true → h.Sound m.signature) (p.classAt i).methods
              verdicts :=
    .mapM_each (fun (m : Method) g => g.Sound m.signature) _
      (fun m _ => At.inside (TypeRef.subtreesAll_nodes _)) (fun _ _ _ later sound => sound.mono later)
      (fun m _ _ awaits => resolveAll_sound m.signature awaits) later
  refine .bind methods ?_
  rintro methodsSound h ⟨others, methods⟩
  refine .pure fun sound => ?_
  obtain ⟨fieldsGood, methodsGood⟩ := Bool.and_eq_true_iff.1 sound
  refine List.forall_mem_append.2 ⟨(fields fieldsGood).mono (others.extends_ later.tidy), ?_⟩
  intro t listed
  obtain ⟨m, declared, written⟩ := List.mem_flatMap.1 listed
  exact all_of_forall₂ methods methodsGood m declared t written

/-! ## Verdicts in a run -/

/-- The verdict that is listed for an item stands where the item stands. -/
theorem verdict_at {ids : List Nat} {verdicts : List Bool} (nodup : ids.Nodup) {i id : Nat} {valid : Bool}
    (here : ids[i]? = some id) (listed : (id, valid) ∈ ids.zip verdicts) :
    verdicts[i]? = some valid := by
  obtain ⟨j, there⟩ := List.mem_iff_getElem?.1 listed
  obtain ⟨there, verdict⟩ := List.getElem?_zip_eq_some.1 there
  have bound := (List.getElem?_eq_some_iff.1 here).1
  rw [← (List.getElem?_inj bound nodup).1 (here.trans there.symm)] at verdict
  exact verdict

theorem bothValid_at {a b : List Bool} {i : Nat} (h : (bothValid a b)[i]? = some true) :
    a[i]? = some true ∧ b[i]? = some true := by
  obtain ⟨x, y, first, second, both⟩ := List.getElem?_zipWith_eq_some.1 h
  obtain ⟨rfl, rfl⟩ := Bool.and_eq_true_iff.1 both
  exact ⟨first, second⟩

namespace Phase

section Distinct

variable (settings) (distinct : Distinct p.nodes)
include distinct

/-- A class that has been typed with success has a sound signature. -/
theorem typed_sound : List.Forall₂
    (fun i sound => sound = true → (typed p settings).2.findings.Sound (p.classAt i).signature)
    p.classIndices (typed p settings).1 := by
  have start := awaits_empty distinct
  rw [Program.nodes_signature, Program.flatMap_classes, Program.flatMap_functions,
    List.append_assoc] at start
  have each : Ensures (p.classIndices.mapM checkClassSignatures) (.top p settings) .empty
      fun verdicts g => Trail p (fun x place => ∃ i ∈ p.classIndices,
        At (TypeRef.subtreesAll (p.classAt i).signature) (p.signaturePlace i) x place) .empty g ∧
          List.Forall₂ (fun i sound => sound = true → g.Sound (p.classAt i).signature)
            p.classIndices verdicts :=
    .mapM_each (fun i g => g.Sound (p.classAt i).signature) _
      (fun _ _ => At.inside (TypeRef.subtreesAll_nodes _)) (fun _ _ _ later sound => sound.mono later)
      (fun i _ _ awaits => checkClassSignatures_sound settings i awaits) start.left
  exact (each ((named p settings).2.noted .resolvingSignatures) named_findings).2

theorem functionsTyped_sound : List.Forall₂
    (fun i sound => sound = true →
      (functionsTyped p settings).2.findings.Sound (p.functionAt i).signature)
    p.functionIndices (functionsTyped p settings).1 := by
  have start := awaits_empty distinct
  rw [Program.nodes_signature, Program.flatMap_classes, Program.flatMap_functions,
    List.append_assoc] at start
  have later := start.after (typed_trail settings start.left) at_inside
  have each : Ensures (p.functionIndices.mapM checkFunctionSignature) (.top p settings)
      (typed p settings).2.findings fun verdicts g => Trail p (fun x place => ∃ i ∈ p.functionIndices,
        At (TypeRef.subtreesAll (p.functionAt i).signature) (p.functionPlace (p.functionAt i)) x place)
          (typed p settings).2.findings g ∧
          List.Forall₂ (fun i sound => sound = true → g.Sound (p.functionAt i).signature)
            p.functionIndices verdicts :=
    .mapM_each (fun i g => g.Sound (p.functionAt i).signature) _
      (fun _ _ => At.inside (TypeRef.subtreesAll_nodes _)) (fun _ _ _ later sound => sound.mono later)
      (fun i _ _ awaits => checkFunctionSignature_sound settings i awaits) later.left
  exact (each (typed p settings).2 rfl).2

/-- What is known of signatures stays known. -/
theorem functionsTyped_later :
    (functionsTyped p settings).2.findings.Extends (p.analyze settings).state.findings := by
  have start := (signatures_course settings distinct).2
  obtain ⟨supers, next⟩ := derived_course settings distinct
  obtain ⟨sets, last⟩ := methodSets_course settings distinct
  have bodies := (statements_trail settings distinct).1
  exact (supers.extends_ start.tidy).trans ((sets.extends_ next.tidy).trans
    ((bodies.extends_ last.tidy).trans (judged_trail.extends_ (bodies.tidy last.tidy))))

theorem typed_later : (typed p settings).2.findings.Extends (p.analyze settings).state.findings := by
  have start := awaits_empty distinct
  rw [Program.nodes_signature, Program.flatMap_classes, Program.flatMap_functions,
    List.append_assoc] at start
  have later := start.after (typed_trail settings start.left) at_inside
  exact ((functionsTyped_trail later.left).extends_ later.tidy).trans
    (functionsTyped_later settings distinct)

/-- Declarations have no verdict before the last. -/
theorem heads_fresh : (statements p settings).2.Fresh p.headNodes := by
  have parts := Program.distinct_parts distinct
  have apart {ms : List Node} (sub : ms ⊆ TypeRef.nodesAll p.signature ++ (p.superNodes ++ p.bodyNodes)) :
      Apart ms p.headNodes := fun _ mine other => parts.apart other (List.map_subset _ sub mine)
  have types := apart (List.subset_append_left _ _)
  have supers := apart (List.subset_append_of_subset_right _ (List.subset_append_left _ _))
  have bodies := apart (List.subset_append_of_subset_right _ (List.subset_append_right _ _))
  have start : CheckState.empty.Fresh p.headNodes := fun _ _ => rfl
  have typed := (functionsTyped_steps settings distinct).fresh types.mentions start
  have derived := (derived_steps settings distinct).fresh (lineage_spares supers) typed
  have sets := (methodSets_steps settings fun _ => False).fresh (fun _ _ => ⟨id, id⟩) derived
  exact (statements_steps settings distinct).fresh (types.reaches bodies) sets

/-- The last verdicts, as they are entered. -/
def verdicts (p : Program) (settings : Settings) : List (Nat × Bool) :=
  (p.classes.map Class.id).zip (classVerdicts p settings) ++
    (p.functions.map fun f => f.node.id).zip (functionVerdicts p settings)

omit distinct in
theorem verdicts_fst : (verdicts p settings).map Prod.fst = p.headNodes.map Node.id := by
  rw [verdicts, List.map_append, List.map_fst_zip (by rw [List.length_map, length_classVerdicts]),
    List.map_fst_zip (by rw [List.length_map, length_functionVerdicts]), Program.headNodes,
    List.map_append, List.map_map, List.map_map]
  rfl

theorem verdict_listed {n : Node} (head : n ∈ p.headNodes)
    (valid : (p.analyze settings).state.findings.validity n.id = some true) :
    (n.id, true) ∈ verdicts p settings := by
  change (judged p settings).findings.validity n.id = some true at valid
  rw [judged_eq] at valid
  dsimp only at valid
  have nodup : ((verdicts p settings).map Prod.fst).Nodup := by
    rw [verdicts_fst]
    exact (Program.distinct_parts distinct).left
  rw [← Findings.judgeAll_append, ← verdicts, Findings.validity_judgeAll _ nodup] at valid
  rcases valid with early | ⟨_, listed⟩
  · rw [heads_fresh settings distinct n head] at early
    cases early
  · exact listed

theorem heads_distinct : (p.classes.map Class.id).Nodup ∧ (p.functions.map fun f => f.node.id).Nodup ∧
    ∀ id ∈ p.classes.map Class.id, id ∉ p.functions.map fun f => f.node.id := by
  have heads := (Program.distinct_parts distinct).left
  have classes := heads.left
  have functions := heads.right
  have apart := heads.apart
  rw [Distinct, List.map_map] at classes functions
  rw [Apart, List.map_map, List.map_map] at apart
  exact ⟨classes, functions, fun id mine other => apart mine other⟩

theorem class_verdict {i : Nat} (listed : i ∈ p.classIndices)
    (valid : (p.analyze settings).state.findings.validity (p.classAt i).id = some true) :
    (classVerdicts p settings)[i]? = some true := by
  obtain ⟨nodup, -, apart⟩ := heads_distinct distinct
  have head : (p.classAt i).node ∈ p.headNodes :=
    List.mem_append_left _ (List.mem_map_of_mem (Program.classAt_mem listed))
  have here : (p.classes.map Class.id)[i]? = some (p.classAt i).id := by
    rw [List.getElem?_map, Program.classAt, List.getD_eq_getElem?_getD,
      List.getElem?_eq_getElem (List.mem_range.1 listed)]
    rfl
  rcases List.mem_append.1 (verdict_listed settings distinct head valid) with mine | other
  · exact verdict_at nodup here mine
  · exact absurd (List.of_mem_zip other).1 (apart _ (List.mem_iff_getElem?.2 ⟨i, here⟩))

theorem function_verdict {i : Nat} (listed : i ∈ p.functionIndices)
    (valid : (p.analyze settings).state.findings.validity (p.functionAt i).node.id = some true) :
    (functionVerdicts p settings)[i]? = some true := by
  obtain ⟨-, nodup, apart⟩ := heads_distinct distinct
  have head : (p.functionAt i).node ∈ p.headNodes :=
    List.mem_append_right _ (List.mem_map_of_mem (Program.functionAt_mem listed))
  have here : (p.functions.map fun f => f.node.id)[i]? = some (p.functionAt i).node.id := by
    rw [List.getElem?_map, Program.functionAt, List.getD_eq_getElem?_getD,
      List.getElem?_eq_getElem (List.mem_range.1 listed)]
    rfl
  rcases List.mem_append.1 (verdict_listed settings distinct head valid) with other | mine
  · exact absurd (List.mem_iff_getElem?.2 ⟨i, here⟩) (apart _ (List.of_mem_zip other).1)
  · exact verdict_at nodup here mine

end Distinct

end Phase

/-! ## Declarations with good verdicts -/

theorem paired_at {n i : Nat} {verdicts : List Bool} (listed : i ∈ List.range n)
    (sound : verdicts[i]? = some true) : (i, true) ∈ (List.range n).zip verdicts :=
  List.mem_iff_getElem?.2 ⟨i, List.getElem?_zip_eq_some.2
    ⟨List.getElem?_range (List.mem_range.1 listed), sound⟩⟩

section Program

variable (settings) (distinct : Distinct p.nodes)
include distinct

/-- A class with a good verdict has a sound signature, and its body has been checked with success. -/
theorem Program.class_sound {i : Nat} (listed : i ∈ p.classIndices)
    (valid : (p.analyze settings).state.findings.validity (p.classAt i).id = some true) :
    (p.analyze settings).state.findings.Sound (p.classAt i).signature ∧
      p.CheckedClass i true (p.analyze settings).state := by
  obtain ⟨earlier, body⟩ := bothValid_at (Phase.class_verdict settings distinct listed valid)
  have typed := (bothValid_at (bothValid_at (bothValid_at earlier).1).1).2
  refine ⟨?_, Phase.classes_checked settings distinct _ (paired_at listed body)⟩
  have sound := (List.forall₂_iff_zip.1 (Phase.typed_sound settings distinct)).2
    (paired_at listed typed) rfl
  exact sound.mono (Phase.typed_later settings distinct)

/-- A function with a good verdict has a sound signature, and its body has been checked with success. -/
theorem Program.function_sound {i : Nat} (listed : i ∈ p.functionIndices)
    (valid : (p.analyze settings).state.findings.validity (p.functionAt i).node.id = some true) :
    (p.analyze settings).state.findings.Sound (p.functionAt i).signature ∧
      (p.functionRoutine (p.functionAt i)).Checked p true (p.analyze settings).state := by
  obtain ⟨typed, body⟩ := bothValid_at (Phase.function_verdict settings distinct listed valid)
  refine ⟨?_, Phase.functions_checked settings distinct _ (paired_at listed body)⟩
  have sound := (List.forall₂_iff_zip.1 (Phase.functionsTyped_sound settings distinct)).2
    (paired_at listed typed) rfl
  exact sound.mono (Phase.functionsTyped_later settings distinct)

end Program

end ClassLang
