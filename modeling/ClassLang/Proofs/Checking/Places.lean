import ClassLang.Proofs.Checking.Judgement
import ClassLang.Proofs.Syntax.Subtrees

/-!
Where the subtrees of a program stand: types in signatures and extends clauses, and bodies.

* `Program.Stands.mem`: what stands somewhere is a subtree of the program.
-/

namespace ClassLang

variable {p : Program} {settings : Settings} {x : Subtree} {place : Place}

/-! ## Places -/

/-- Where the statements of a program are written. -/
def Place.top : Place := ⟨none, false, []⟩

namespace Program

/-- Where the types in the signature and the extends clause of a class are written. -/
def signaturePlace (p : Program) (i : Nat) : Place := ⟨none, false, (p.classAt i).params⟩

/-- Where the body of a member of a class is written. -/
def memberPlace (p : Program) (i : Nat) (isInstance : Bool) : Place :=
  ⟨some i, isInstance, (p.classAt i).params⟩

/-- Where a function is written: in its class, if it has exactly one. -/
def functionPlace (p : Program) (function : Function) : Place :=
  match function.owner.bind fun owner => p.theClass? owner.name with
  | some owner => p.memberPlace owner false
  | none => .top

end Program

theorem Scope.ofFunction_place (function : Function) :
    ((Scope.top p settings).ofFunction function).place = p.functionPlace function := by
  unfold Scope.ofFunction Program.functionPlace
  cases found : function.owner.bind fun owner => p.theClass? owner.name with
  | none =>
    have found : (function.owner.bind fun owner => (Scope.top p settings).program.theClass? owner.name) =
      none := found
    rw [found]
    rfl
  | some owner =>
    have found : (function.owner.bind fun owner => (Scope.top p settings).program.theClass? owner.name) =
      some owner := found
    rw [found]
    rfl

theorem Scope.ofFunction_env (scope : Scope) (function : Function) :
    (scope.ofFunction function).env = scope.env := by
  unfold Scope.ofFunction
  split <;> rfl

theorem Scope.ofFunction_generics (function : Function) :
    ((Scope.top p settings).ofFunction function).generics = (p.functionPlace function).generics :=
  congrArg Place.generics (Scope.ofFunction_place function)

/-- What is written in the bodies of a class. -/
def Class.bodySubtrees (c : Class) : List Subtree :=
  (c.fields.flatMap fun field => initializerSubtrees field.init) ++
    c.methods.flatMap fun m => m.body.subtrees

/-- What is written in the bodies of a program, and its statements. -/
def Program.bodySubtrees (p : Program) : List Subtree :=
  (p.classIndices.flatMap fun i => (p.classAt i).bodySubtrees) ++
    ((p.functionIndices.flatMap fun i => (p.functionAt i).body.subtrees) ++
      statementSubtrees p.statements)

/-- The subtrees in the bodies of a class. -/
inductive Program.ClassBody (p : Program) (i : Nat) : Subtree → Place → Prop
  | init {field : Field} {x : Subtree} : field ∈ (p.classAt i).fields →
    x ∈ initializerSubtrees field.init → ClassBody p i x (p.memberPlace i !field.isStatic)
  | method {m : Method} {x : Subtree} : m ∈ (p.classAt i).methods → x ∈ m.body.subtrees →
    ClassBody p i x (p.memberPlace i !m.isStatic)

theorem Program.ClassBody.inside {i : Nat} {x : Subtree} {place : Place} (h : p.ClassBody i x place) :
    x.node ∈ (p.classAt i).bodyNodes := by
  cases h with
  | @init field x listed inside =>
    refine List.mem_append_left _ (List.mem_flatMap.2 ⟨field, listed, ?_⟩)
    rw [← initializerSubtrees_nodes]
    exact List.mem_map_of_mem inside
  | @method m x listed inside =>
    refine List.mem_append_right _ (List.mem_flatMap.2 ⟨m, listed, ?_⟩)
    rw [← m.body.subtrees_nodes]
    exact List.mem_map_of_mem inside

/-- The subtrees of the extends clauses. -/
inductive Program.Ancestral (p : Program) : Subtree → Place → Prop
  | mk {i : Nat} {written : TypeRef} {x : Subtree} : (p.classAt i).superclass = some written →
    x ∈ written.subtrees → Ancestral p x (p.signaturePlace i)

theorem Program.Ancestral.inside {x : Subtree} {place : Place} (h : p.Ancestral x place) :
    x.node ∈ p.superNodes := by
  obtain ⟨extends_, inside⟩ := h
  rename_i i written
  refine Program.superclassNodes_subset i ?_
  rw [Program.superclassNodes, extends_, Option.elim_some, ← written.subtrees_nodes]
  exact List.mem_map_of_mem inside

/-- The types in signatures. -/
inductive Program.Signed (p : Program) : Subtree → Place → Prop
  | ofClass {i : Nat} {x : Subtree} : i ∈ p.classIndices →
    x ∈ TypeRef.subtreesAll (p.classAt i).signature → Signed p x (p.signaturePlace i)
  | ofFunction {i : Nat} {x : Subtree} : i ∈ p.functionIndices →
    x ∈ TypeRef.subtreesAll (p.functionAt i).signature →
      Signed p x (p.functionPlace (p.functionAt i))

/-- The subtrees of bodies. -/
inductive Program.Embodied (p : Program) : Subtree → Place → Prop
  | ofClass {i : Nat} {x : Subtree} {place : Place} : i ∈ p.classIndices → p.ClassBody i x place →
    Embodied p x place
  | ofFunction {i : Nat} {x : Subtree} : i ∈ p.functionIndices →
    x ∈ (p.functionAt i).body.subtrees → Embodied p x (p.functionPlace (p.functionAt i))
  | statement {x : Subtree} : x ∈ statementSubtrees p.statements → Embodied p x .top

/-- Where each subtree of a program stands. -/
inductive Program.Stands (p : Program) : Subtree → Place → Prop
  | signed {x : Subtree} {place : Place} : p.Signed x place → Stands p x place
  | ancestral {x : Subtree} {place : Place} : p.Ancestral x place → Stands p x place
  | embodied {x : Subtree} {place : Place} : p.Embodied x place → Stands p x place
  | head {n : Node} : n ∈ p.headNodes → Stands p (.head n) .top

/-! ## Subtrees of a program -/

theorem signature_subtrees {params : List Param} {returnType t : TypeRef}
    (written : t ∈ params.map Param.type ++ [returnType]) (inside : x ∈ t.subtrees) :
    x ∈ returnType.subtrees ++ params.flatMap Param.subtrees := by
  rcases List.mem_append.1 written with ofParam | result
  · obtain ⟨param, listed, rfl⟩ := List.mem_map.1 ofParam
    refine List.mem_append_right _ (List.mem_flatMap.2 ⟨param, listed, ?_⟩)
    exact List.mem_cons_of_mem _ inside
  · rw [List.mem_singleton.1 result] at inside
    exact List.mem_append_left _ inside

theorem Class.signature_subtrees {c : Class} {t : TypeRef} (written : t ∈ c.signature)
    (inside : x ∈ t.subtrees) : x ∈ c.subtrees := by
  refine List.mem_cons_of_mem _ ?_
  rcases List.mem_append.1 written with ofField | ofMethod
  · obtain ⟨field, listed, rfl⟩ := List.mem_map.1 ofField
    refine List.mem_append_left _ (List.mem_append_right _ (List.mem_flatMap.2 ⟨field, listed, ?_⟩))
    exact List.mem_cons_of_mem _ (List.mem_append_left _ inside)
  · obtain ⟨m, listed, inSignature⟩ := List.mem_flatMap.1 ofMethod
    refine List.mem_append_right _ (List.mem_flatMap.2 ⟨m, listed, ?_⟩)
    exact List.mem_cons_of_mem _ (List.mem_append_left _ (ClassLang.signature_subtrees inSignature inside))

namespace Program

theorem class_subtrees {i : Nat} (listed : i ∈ p.classIndices)
    (inside : x ∈ (p.classAt i).subtrees) : x ∈ p.subtrees :=
  List.mem_append_left _ (List.mem_append_left _
    (List.mem_flatMap.2 ⟨_, classAt_mem listed, inside⟩))

theorem function_subtrees {i : Nat} (listed : i ∈ p.functionIndices)
    (inside : x ∈ (p.functionAt i).subtrees) : x ∈ p.subtrees := by
  refine List.mem_append_left _ (List.mem_append_right _ ?_)
  rw [flatMap_functions]
  exact List.mem_flatMap.2 ⟨i, listed, inside⟩

theorem Signed.mem (h : p.Signed x place) : x ∈ p.subtrees := by
  cases h with
  | ofClass listed inside =>
    rw [TypeRef.subtreesAll_eq] at inside
    obtain ⟨t, written, inside⟩ := List.mem_flatMap.1 inside
    exact class_subtrees listed (Class.signature_subtrees written inside)
  | ofFunction listed inside =>
    rw [TypeRef.subtreesAll_eq] at inside
    obtain ⟨t, written, inside⟩ := List.mem_flatMap.1 inside
    refine function_subtrees listed (List.mem_cons_of_mem _ (List.mem_append_left _ ?_))
    exact signature_subtrees written inside

theorem Ancestral.mem (h : p.Ancestral x place) : x ∈ p.subtrees := by
  obtain ⟨extends_, inside⟩ := h
  refine class_subtrees (mem_of_extends extends_) (List.mem_cons_of_mem _ ?_)
  refine List.mem_append_left _ (List.mem_append_left _ ?_)
  rw [extends_]
  exact inside

theorem ClassBody.mem {i : Nat} (h : p.ClassBody i x place) : x ∈ (p.classAt i).subtrees := by
  cases h with
  | @init field x listed inside =>
    refine List.mem_cons_of_mem _ (List.mem_append_left _ (List.mem_append_right _ ?_))
    refine List.mem_flatMap.2 ⟨field, listed, List.mem_cons_of_mem _ ?_⟩
    exact List.mem_append_right _ inside
  | @method m x listed inside =>
    refine List.mem_cons_of_mem _ (List.mem_append_right _ ?_)
    exact List.mem_flatMap.2 ⟨m, listed, List.mem_cons_of_mem _ (List.mem_append_right _ inside)⟩

theorem Embodied.mem (h : p.Embodied x place) : x ∈ p.subtrees := by
  cases h with
  | ofClass listed inside => exact class_subtrees listed inside.mem
  | ofFunction listed inside =>
    exact function_subtrees listed (List.mem_cons_of_mem _ (List.mem_append_right _ inside))
  | statement inside => exact List.mem_append_right _ inside

theorem Stands.mem (h : p.Stands x place) : x ∈ p.subtrees := by
  cases h with
  | signed h => exact h.mem
  | ancestral h => exact h.mem
  | embodied h => exact h.mem
  | @head n inHeads =>
    rcases List.mem_append.1 inHeads with ofClass | ofFunction
    · obtain ⟨c, listed, rfl⟩ := List.mem_map.1 ofClass
      refine List.mem_append_left _ (List.mem_append_left _ (List.mem_flatMap.2 ⟨c, listed, ?_⟩))
      exact List.mem_cons_self ..
    · obtain ⟨function, listed, rfl⟩ := List.mem_map.1 ofFunction
      refine List.mem_append_left _ (List.mem_append_right _ ?_)
      exact List.mem_flatMap.2 ⟨function, listed, List.mem_cons_self ..⟩

theorem Stands.mem_classIndices {i : Nat} (h : p.Stands x place) (here : place.selfClass = some i) :
    i ∈ p.classIndices := by
  have ofFunction (function : Function) (here : (p.functionPlace function).selfClass = some i) :
      i ∈ p.classIndices := by
    unfold functionPlace at here
    split at here
    · rename_i owner found
      obtain ⟨_, _, found⟩ := Option.bind_eq_some_iff.1 found
      cases here
      exact theClass?_mem found
    · cases here
  cases h with
  | head _ => cases here
  | ancestral h =>
    cases h
    cases here
  | signed h =>
    cases h with
    | ofClass _ _ => cases here
    | ofFunction _ _ => exact ofFunction _ here
  | embodied h =>
    cases h with
    | ofClass listed inside =>
      cases inside <;> cases here <;> exact listed
    | ofFunction _ _ => exact ofFunction _ here
    | statement _ => cases here

theorem Stands.embodies {e : Expr} (stands : p.Stands (.expr e) place) : p.Embodied (.expr e) place := by
  cases stands with
  | embodied h => exact h
  | signed h =>
    cases h with
    | ofClass _ inside | ofFunction _ inside =>
      obtain ⟨_, same⟩ := TypeRef.subtreesAll_types _ inside
      cases same
  | ancestral h =>
    obtain ⟨_, inside⟩ := h
    exact absurd inside (TypeRef.expr_not_mem_subtrees _)

/-- What is below a subtree stands where it stands. -/
theorem Stands.below {y : Subtree} (h : p.Stands x place) (inside : y ∈ x.subtrees) :
    p.Stands y place := by
  cases h with
  | head listed =>
    rw [List.mem_singleton.1 inside]
    exact .head listed
  | signed h =>
    cases h with
    | ofClass listed within =>
      exact .signed (.ofClass listed ((TypeRef.subtreesAll_closed _).subset within inside))
    | ofFunction listed within =>
      exact .signed (.ofFunction listed ((TypeRef.subtreesAll_closed _).subset within inside))
  | ancestral h =>
    obtain ⟨extends_, within⟩ := h
    exact .ancestral (.mk extends_ ((TypeRef.subtrees_closed _).subset within inside))
  | embodied h =>
    cases h with
    | ofClass listed h =>
      cases h with
      | init declared within =>
        have below := (initializerSubtrees_closed _).subset within inside
        exact .embodied (.ofClass listed (.init declared below))
      | method declared within =>
        have below := (Block.subtrees_closed _).subset within inside
        exact .embodied (.ofClass listed (.method declared below))
    | ofFunction listed within =>
      exact .embodied (.ofFunction listed ((Block.subtrees_closed _).subset within inside))
    | statement within => exact .embodied (.statement ((statementSubtrees_closed _).subset within inside))

/-- In the body of a class its type parameters may be named, and outside of classes none. -/
theorem Embodied.generics (h : p.Embodied x place) :
    place.generics = place.selfClass.elim [] fun i => (p.classAt i).params := by
  cases h with
  | ofClass _ h => cases h <;> rfl
  | ofFunction _ _ =>
    unfold functionPlace
    split <;> rfl
  | statement _ => rfl

theorem Param.expr_not_mem_subtrees {e : Expr} (params : List Param) :
    .expr e ∉ params.flatMap Param.subtrees := by
  intro inside
  obtain ⟨param, _, inside⟩ := List.mem_flatMap.1 inside
  rcases List.mem_cons.1 inside with same | inside
  · cases same
  · exact param.type.expr_not_mem_subtrees inside

theorem Class.expr_mem {c : Class} {e : Expr} (listed : .expr e ∈ c.subtrees) :
    e.node ∈ c.bodyNodes := by
  rcases List.mem_cons.1 listed with same | listed
  · cases same
  rcases List.mem_append.1 listed with listed | inMethod
  · rcases List.mem_append.1 listed with inClause | inField
    · cases given : c.superclass with
      | none =>
        rw [given] at inClause
        cases inClause
      | some written =>
        rw [given] at inClause
        exact absurd inClause written.expr_not_mem_subtrees
    · obtain ⟨field, declared, inside⟩ := List.mem_flatMap.1 inField
      rcases List.mem_cons.1 inside with same | inside
      · cases same
      rcases List.mem_append.1 inside with inType | inside
      · exact absurd inType field.type.expr_not_mem_subtrees
      refine List.mem_append_left _ (List.mem_flatMap.2 ⟨field, declared, ?_⟩)
      rw [← initializerSubtrees_nodes]
      exact List.mem_map_of_mem inside
  · obtain ⟨m, declared, inside⟩ := List.mem_flatMap.1 inMethod
    rcases List.mem_cons.1 inside with same | inside
    · cases same
    rcases List.mem_append.1 inside with inSignature | inside
    · rcases List.mem_append.1 inSignature with inType | inParams
      · exact absurd inType m.returnType.expr_not_mem_subtrees
      · exact absurd inParams (Param.expr_not_mem_subtrees _)
    refine List.mem_append_right _ (List.mem_flatMap.2 ⟨m, declared, ?_⟩)
    rw [← m.body.subtrees_nodes]
    exact List.mem_map_of_mem inside

theorem Function.expr_mem {function : Function} {e : Expr} (listed : .expr e ∈ function.subtrees) :
    e.node ∈ function.body.nodes := by
  rcases List.mem_cons.1 listed with same | listed
  · cases same
  rcases List.mem_append.1 listed with inSignature | inside
  · rcases List.mem_append.1 inSignature with inType | inParams
    · exact absurd inType function.returnType.expr_not_mem_subtrees
    · exact absurd inParams (Param.expr_not_mem_subtrees _)
  rw [← function.body.subtrees_nodes]
  exact List.mem_map_of_mem inside

/-- Expressions stand in bodies only. -/
theorem expr_mem_bodyNodes {e : Expr} (listed : .expr e ∈ p.subtrees) : e.node ∈ p.bodyNodes := by
  rcases List.mem_append.1 listed with listed | inStatements
  · rcases List.mem_append.1 listed with inClass | inFunction
    · obtain ⟨c, declared, inside⟩ := List.mem_flatMap.1 inClass
      exact List.mem_append_left _ (List.mem_append_left _
        (List.mem_flatMap.2 ⟨c, declared, Class.expr_mem inside⟩))
    · obtain ⟨function, declared, inside⟩ := List.mem_flatMap.1 inFunction
      exact List.mem_append_left _ (List.mem_append_right _
        (List.mem_flatMap.2 ⟨function, declared, Function.expr_mem inside⟩))
  · refine List.mem_append_right _ ?_
    rw [← statementSubtrees_nodes]
    exact List.mem_map_of_mem inStatements

/-! ## One place for each subtree -/

/-- The places of the subtrees in the bodies of a class. -/
def bodySites (p : Program) (i : Nat) : List (Subtree × Place) :=
  ((p.classAt i).fields.flatMap fun field =>
    (initializerSubtrees field.init).map (·, p.memberPlace i !field.isStatic)) ++
  (p.classAt i).methods.flatMap fun m => m.body.subtrees.map (·, p.memberPlace i !m.isStatic)

/-- The subtrees that the checker visits, each with its place. -/
def sites (p : Program) : List (Subtree × Place) :=
  p.headNodes.map (fun n => (.head n, .top)) ++
  (((p.classIndices.flatMap fun i =>
      (TypeRef.subtreesAll (p.classAt i).signature).map (·, p.signaturePlace i)) ++
    p.functionIndices.flatMap fun i =>
      (TypeRef.subtreesAll (p.functionAt i).signature).map (·, p.functionPlace (p.functionAt i))) ++
  ((p.classIndices.flatMap fun i =>
      ((p.classAt i).superclass.elim [] TypeRef.subtrees).map (·, p.signaturePlace i)) ++
    (p.classIndices.flatMap p.bodySites ++
      (p.functionIndices.flatMap fun i =>
        (p.functionAt i).body.subtrees.map (·, p.functionPlace (p.functionAt i))) ++
      (statementSubtrees p.statements).map (·, .top))))

theorem bodySites_nodes (p : Program) (i : Nat) :
    (p.bodySites i).map (fun site => site.1.node) = (p.classAt i).bodyNodes := by
  simp only [bodySites, List.map_append, List.map_flatMap, List.map_map, Function.comp_def,
    initializerSubtrees_nodes, Block.subtrees_nodes, Class.bodyNodes, Class.initNodes]

theorem sites_nodes (p : Program) : p.sites.map (fun site => site.1.node) =
    p.headNodes ++ (TypeRef.nodesAll p.signature ++ (p.superNodes ++ p.bodyNodes)) := by
  have supers (i : Nat) : ((p.classAt i).superclass.elim [] TypeRef.subtrees).map Subtree.node =
      p.superclassNodes i := by
    rw [superclassNodes]
    cases (p.classAt i).superclass with
    | none => rfl
    | some written => exact written.subtrees_nodes
  rw [nodes_signature, bodyNodes, superNodes, flatMap_classes, flatMap_functions, flatMap_classes,
    flatMap_functions]
  simp only [sites, List.map_append, List.map_flatMap, List.map_map, Function.comp_def,
    bodySites_nodes, TypeRef.subtreesAll_nodes, Block.subtrees_nodes, statementSubtrees_nodes, supers]
  rw [show (fun n : Node => (Subtree.head n).node) = fun n => n from rfl, List.map_id']

theorem ClassBody.site {i : Nat} (h : p.ClassBody i x place) : (x, place) ∈ p.bodySites i := by
  cases h with
  | init listed inside =>
    exact List.mem_append_left _ (List.mem_flatMap.2 ⟨_, listed, List.mem_map_of_mem inside⟩)
  | method listed inside =>
    exact List.mem_append_right _ (List.mem_flatMap.2 ⟨_, listed, List.mem_map_of_mem inside⟩)

theorem Stands.site (h : p.Stands x place) : (x, place) ∈ p.sites := by
  simp only [sites, List.mem_append, List.mem_flatMap]
  cases h with
  | head listed => exact .inl (List.mem_map_of_mem listed)
  | signed h =>
    cases h with
    | ofClass listed inside => exact .inr (.inl (.inl ⟨_, listed, List.mem_map_of_mem inside⟩))
    | ofFunction listed inside => exact .inr (.inl (.inr ⟨_, listed, List.mem_map_of_mem inside⟩))
  | ancestral h =>
    obtain ⟨extends_, inside⟩ := h
    refine .inr (.inr (.inl ⟨_, mem_of_extends extends_, ?_⟩))
    rw [extends_]
    exact List.mem_map_of_mem inside
  | embodied h =>
    cases h with
    | ofClass listed inside => exact .inr (.inr (.inr (.inl (.inl ⟨_, listed, inside.site⟩))))
    | ofFunction listed inside =>
      exact .inr (.inr (.inr (.inl (.inr ⟨_, listed, List.mem_map_of_mem inside⟩))))
    | statement inside => exact .inr (.inr (.inr (.inr (List.mem_map_of_mem inside))))

/-- Where a subtree stands is determined, and so is the subtree by its number. -/
theorem Stands.unique {y : Subtree} {place' : Place} (distinct : Distinct p.nodes)
    (h : p.Stands x place) (h' : p.Stands y place') (same : x.id = y.id) : x = y ∧ place = place' := by
  have ids : (p.sites.map fun site => site.1.id).Nodup := by
    have distinct := distinct_parts distinct
    rw [← sites_nodes] at distinct
    unfold Distinct at distinct
    rw [List.map_map] at distinct
    exact distinct
  exact Prod.mk.inj (List.inj_on_of_nodup_map ids h.site h'.site same)

end Program

end ClassLang
