import ClassLang.Proofs.Checking.BodyHonesty
import ClassLang.Proofs.Checking.InheritanceHonesty

/-!
The parts that the nodes of a program fall into: its declarations, the types in their signatures, the
extends clauses, and the bodies. Each phase of the check keeps to one of them.
-/

namespace ClassLang

variable {p : Program}

/-! ## Declarations by position -/

namespace Program

theorem map_classAt (p : Program) : p.classIndices.map p.classAt = p.classes := by
  refine List.ext_getElem (by simp [classIndices]) fun i h h' => ?_
  simp [classIndices, classAt, List.getD_eq_getElem?_getD, List.getElem?_eq_getElem h']

theorem map_functionAt (p : Program) : p.functionIndices.map p.functionAt = p.functions := by
  refine List.ext_getElem (by simp [functionIndices]) fun i h h' => ?_
  simp [functionIndices, functionAt, List.getD_eq_getElem?_getD, List.getElem?_eq_getElem h']

theorem flatMap_classes {α : Type} (view : Class → List α) :
    p.classes.flatMap view = p.classIndices.flatMap fun i => view (p.classAt i) := by
  rw [← p.map_classAt, List.flatMap_map]

theorem flatMap_functions {α : Type} (view : Function → List α) :
    p.functions.flatMap view = p.functionIndices.flatMap fun i => view (p.functionAt i) := by
  rw [← p.map_functionAt, List.flatMap_map]

theorem classAt_mem {i : Nat} (listed : i ∈ p.classIndices) : p.classAt i ∈ p.classes := by
  rw [← p.map_classAt]
  exact List.mem_map_of_mem listed

theorem functionAt_mem {i : Nat} (listed : i ∈ p.functionIndices) : p.functionAt i ∈ p.functions := by
  rw [← p.map_functionAt]
  exact List.mem_map_of_mem listed

theorem classAt_of_not_mem {i : Nat} (h : i ∉ p.classIndices) : p.classAt i = default := by
  have missing : p.classes[i]? = none := List.getElem?_eq_none (by simpa [classIndices] using h)
  rw [classAt, List.getD_eq_getElem?_getD, missing]
  rfl

theorem theClass?_found {name : String} {i : Nat} (h : p.theClass? name = some i) :
    p.findClass name = .found i := by
  unfold theClass? at h
  split at h
  · rename_i found
    rw [found, Option.some.inj h]
  · cases h

theorem theClass?_mem {name : String} {i : Nat} (h : p.theClass? name = some i) :
    i ∈ p.classIndices := by
  have listed : i ∈ p.classesNamed name := by
    rw [findClass_found.1 (theClass?_found h)]
    exact List.mem_singleton_self i
  obtain ⟨c, here, _⟩ := mem_classesNamed.1 listed
  exact List.mem_range.2 (List.getElem?_eq_some_iff.1 here).1

/-! ## Parts -/

def headNodes (p : Program) : List Node :=
  p.classes.map Class.node ++ p.functions.map Function.node

def superNodes (p : Program) : List Node := p.classIndices.flatMap p.superclassNodes

def bodyNodes (p : Program) : List Node :=
  p.classes.flatMap Class.bodyNodes ++ p.functions.flatMap (fun f => f.body.nodes) ++
    statementNodes p.statements

end Program

theorem copies_params (i : Nat) (params : List Param) :
    copies i (TypeRef.nodesAll (params.map Param.type)) ≤ copies i (params.flatMap Param.nodes) := by
  rw [TypeRef.nodesAll_eq, List.flatMap_map]
  refine copies_flatMap_le fun param _ => ?_
  rw [Param.nodes, copies_cons]
  omega

theorem Method.copies_parts (i : Nat) (m : Method) :
    copies i (TypeRef.nodesAll m.signature ++ m.body.nodes) ≤ copies i m.nodes := by
  have params := copies_params i m.params
  have types : TypeRef.nodesAll m.signature =
      TypeRef.nodesAll (m.params.map Param.type) ++ m.returnType.nodes := by
    simp [signature, TypeRef.nodesAll_eq]
  rw [types, nodes, copies_cons]
  simp only [copies_append]
  omega

theorem Function.copies_parts (i : Nat) (f : Function) :
    copies i ([f.node] ++ (TypeRef.nodesAll f.signature ++ f.body.nodes)) ≤ copies i f.nodes := by
  have params := copies_params i f.params
  have types : TypeRef.nodesAll f.signature =
      TypeRef.nodesAll (f.params.map Param.type) ++ f.returnType.nodes := by
    simp [signature, TypeRef.nodesAll_eq]
  rw [types, nodes, copies_cons]
  simp only [copies_append]
  omega

theorem Class.copies_parts (i : Nat) (c : Class) :
    copies i ([c.node] ++ (TypeRef.nodesAll c.signature ++ (c.superclass.elim [] TypeRef.nodes ++
      c.bodyNodes))) ≤ copies i c.nodes := by
  have fields : copies i (c.fields.flatMap fun field => field.type.nodes ++ initializerNodes field.init) ≤
      copies i (c.fields.flatMap Field.nodes) := by
    refine copies_flatMap_le fun field _ => ?_
    rw [Field.nodes, copies_cons]
    omega
  have methods : copies i (c.methods.flatMap fun m => TypeRef.nodesAll m.signature ++ m.body.nodes) ≤
      copies i (c.methods.flatMap Method.nodes) :=
    copies_flatMap_le fun m _ => m.copies_parts i
  rw [copies_flatMap_append] at fields methods
  have types : TypeRef.nodesAll (c.fields.map Field.type) =
      c.fields.flatMap fun field => field.type.nodes := by
    rw [TypeRef.nodesAll_eq, List.flatMap_map]
  rw [c.nodes_signature, types, bodyNodes, initNodes, nodes, copies_cons]
  simp only [copies_append]
  omega

theorem Program.nodes_signature (p : Program) : TypeRef.nodesAll p.signature =
    p.classes.flatMap (fun c => TypeRef.nodesAll c.signature) ++
      p.functions.flatMap fun f => TypeRef.nodesAll f.signature := by
  simp only [signature, TypeRef.nodesAll_eq, List.flatMap_append, List.flatMap_assoc]

theorem Program.distinct_parts (distinct : Distinct p.nodes) :
    Distinct (p.headNodes ++ (TypeRef.nodesAll p.signature ++ (p.superNodes ++ p.bodyNodes))) := by
  refine distinct.of_copies_le fun i => ?_
  have classes : copies i (p.classes.flatMap _) ≤ _ := copies_flatMap_le fun c _ => c.copies_parts i
  have functions : copies i (p.functions.flatMap _) ≤ _ :=
    copies_flatMap_le fun f _ => f.copies_parts i
  simp only [copies_flatMap_append] at classes functions
  have supers : p.superNodes = p.classes.flatMap fun c => c.superclass.elim [] TypeRef.nodes :=
    (flatMap_classes fun c => c.superclass.elim [] TypeRef.nodes).symm
  have classHeads : p.classes.map Class.node = p.classes.flatMap fun c => [c.node] :=
    List.map_eq_flatMap
  have functionHeads : p.functions.map Function.node = p.functions.flatMap fun f => [f.node] :=
    List.map_eq_flatMap
  rw [p.nodes_signature, supers, headNodes, classHeads, functionHeads, bodyNodes, nodes]
  simp only [copies_append]
  omega

/-! ## The parts by position -/

theorem Program.signature_eq (p : Program) :
    p.signature = (p.classIndices.flatMap fun i => (p.classAt i).signature) ++
      p.functionIndices.flatMap fun i => (p.functionAt i).signature := by
  rw [signature, flatMap_classes, flatMap_functions]

theorem Program.classAt_signature (i : Nat) : (p.classAt i).signature ⊆ p.signature := by
  intro t written
  cases here : p.classes[i]? with
  | none =>
    rw [classAt, List.getD_eq_getElem?_getD, here] at written
    cases written
  | some c =>
    rw [classAt, List.getD_eq_getElem?_getD, here] at written
    exact List.mem_append_left _ (List.mem_flatMap.2 ⟨c, List.mem_of_getElem? here, written⟩)

theorem Program.functionAt_signature {i : Nat} {name : String} (named : i ∈ p.functionsNamed name) :
    (p.functionAt i).signature ⊆ p.signature := by
  intro t written
  obtain ⟨function, here, _⟩ := mem_positions.1 named
  rw [functionAt, List.getD_eq_getElem?_getD, here] at written
  exact List.mem_append_right _ (List.mem_flatMap.2 ⟨function, List.mem_of_getElem? here, written⟩)

theorem Program.mem_of_extends {i : Nat} {written : TypeRef}
    (extends_ : (p.classAt i).superclass = some written) : i ∈ p.classIndices := by
  by_contra missing
  rw [classAt_of_not_mem missing] at extends_
  cases extends_

theorem Program.mem_of_signature {i : Nat} {t : TypeRef} (written : t ∈ (p.classAt i).signature) :
    i ∈ p.classIndices := by
  by_contra missing
  rw [classAt_of_not_mem missing] at written
  cases written

theorem Program.superclassNodes_of_not_mem {i : Nat} (h : i ∉ p.classIndices) :
    p.superclassNodes i = [] := by
  rw [superclassNodes, classAt_of_not_mem h]
  rfl

theorem Program.superclassNodes_subset (i : Nat) : p.superclassNodes i ⊆ p.superNodes := by
  intro n below
  by_cases listed : i ∈ p.classIndices
  · exact List.mem_flatMap.2 ⟨i, listed, below⟩
  · rw [superclassNodes_of_not_mem listed] at below
    cases below

theorem Program.superclasses_apart (distinct : Distinct p.superNodes) (i j : Nat) (other : i ≠ j) :
    Apart (p.superclassNodes i) (p.superclassNodes j) := by
  by_cases listed : i ∈ p.classIndices ∧ j ∈ p.classIndices
  · exact distinct.flatMap_apart listed.1 listed.2 other
  · rcases not_and_or.1 listed with missing | missing
    · rw [superclassNodes_of_not_mem missing]
      exact fun _ => nofun
    · rw [superclassNodes_of_not_mem missing]
      exact fun _ _ => nofun

theorem lineage_spares {ys : List Node} (apart : Apart p.superNodes ys) : Spares (lineage p) ys := by
  intro n listed
  refine ⟨?_, id⟩
  rintro ⟨i, mine⟩
  exact apart (List.map_subset _ (Program.superclassNodes_subset i) mine) (List.mem_map_of_mem listed)

theorem lineage_spares_types (distinct : Distinct p.nodes) :
    ∀ t ∈ p.signature, ¬lineage p (.node t.id) := by
  have parts := (Program.distinct_parts distinct).right
  have apart : Apart p.superNodes (TypeRef.nodesAll p.signature) := fun _ mine other =>
    parts.apart other (List.map_subset _ (List.subset_append_left _ _) mine)
  intro t written
  exact (lineage_spares apart t.node (TypeRef.nodes_subset_nodesAll written t.node_mem_nodes)).1

theorem reaches_spares_types (distinct : Distinct p.nodes) :
    ∀ t ∈ p.signature, ¬reaches p.signature p.bodyNodes (.node t.id) := by
  have apart := (Program.distinct_parts distinct).right.apart
  intro t written
  rintro (h | h)
  · exact h
  · refine apart (List.mem_map_of_mem (TypeRef.nodes_subset_nodesAll written t.node_mem_nodes)) ?_
    exact List.map_subset _ (List.subset_append_right _ _) h

end ClassLang
