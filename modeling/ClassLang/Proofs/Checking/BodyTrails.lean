import ClassLang.Proofs.Checking.Places
import ClassLang.Proofs.Checking.StatementTrails

/-!
Checking the signatures and the bodies of declarations leaves trails over their subtrees, each of which
stands at the place of its declaration.
-/

namespace ClassLang

variable {α : Type} {p : Program} {settings : Settings} {scope : Scope} {f g : Findings}
  {types : List TypeRef}

/-! ## Items one after the other -/

/-- Checks of several items, each of which leaves a trail over its own subtrees. -/
theorem Ensures.mapM_trail {ι : Type} {check : ι → Check α} {own : ι → Subtree → Place → Prop}
    {subtrees : ι → List Subtree} {items : List ι} (nodes : ι → List Node)
    (inside : ∀ i ∈ items, ∀ x place, own i x place → x.node ∈ nodes i)
    (each : ∀ i ∈ items, ∀ g, f.Extends g → g.Awaits types (nodes i) →
      Ensures (check i) scope g fun _ h => Trail p (own i) g h ∧ h.Covers (subtrees i))
    (awaits : f.Awaits types (items.flatMap nodes)) :
    Ensures (items.mapM check) scope f fun _ g =>
      Trail p (fun x place => ∃ i ∈ items, own i x place) f g ∧ g.Covers (items.flatMap subtrees) := by
  induction items generalizing f with
  | nil =>
    rw [List.mapM_nil]
    exact .pure ⟨.refl f, .nil⟩
  | cons i rest ih =>
    have first := each i (List.mem_cons_self ..) f (.refl f) awaits.left
    rw [List.mapM_cons]
    refine .bind first fun _ g ⟨trail, covers⟩ => ?_
    have later := awaits.after trail (inside i (List.mem_cons_self ..))
    have stays := trail.extends_ awaits.tidy
    refine .bind (ih (fun j listed => inside j (List.mem_cons_of_mem i listed))
      (fun j listed h further => each j (List.mem_cons_of_mem i listed) h (stays.trans further))
      later) fun _ h ⟨others, covered⟩ => .pure ⟨?_, ?_⟩
    · exact (trail.mono fun x place mine => ⟨i, List.mem_cons_self .., mine⟩).trans
        (others.mono fun x place ⟨j, listed, mine⟩ => ⟨j, List.mem_cons_of_mem i listed, mine⟩)
    · exact (covers.mono (others.extends_ later.tidy)).append covered

/-! ## Signatures -/

theorem resolveAll_leaves {known : Program → List TypeRef} (ts : List TypeRef) :
    Leaves known (resolveAll ts) (TypeRef.subtreesAll ts) :=
  (resolveEach_leaves ts).map

theorem TypeRef.subtreesAll_append (ts more : List TypeRef) :
    subtreesAll (ts ++ more) = subtreesAll ts ++ subtreesAll more := by
  simp only [subtreesAll_eq, List.flatMap_append]

theorem TypeRef.subtreesAll_flatMap {ι : Type} (items : List ι) (view : ι → List TypeRef) :
    subtreesAll (items.flatMap view) = items.flatMap fun i => subtreesAll (view i) := by
  simp only [subtreesAll_eq, List.flatMap_assoc]

theorem checkClassSignatures_trail (settings : Settings) (i : Nat)
    (awaits : f.Awaits types (TypeRef.nodesAll (p.classAt i).signature)) :
    Ensures (checkClassSignatures i) (.top p settings) f fun _ g =>
      Explores p (p.signaturePlace i) (TypeRef.subtreesAll (p.classAt i).signature) f g := by
  have leaves : Leaves (fun _ => types) (do
      let fieldsSound ← resolveAll ((p.classAt i).fields.map Field.type)
      let methodsSound ← (p.classAt i).methods.mapM fun m =>
        resolveAll (m.params.map Param.type ++ [m.returnType])
      return fieldsSound && methodsSound.all id : Check Bool)
      (TypeRef.subtreesAll (p.classAt i).signature) := by
    rw [Class.signature, TypeRef.subtreesAll_append, TypeRef.subtreesAll_flatMap]
    exact (resolveAll_leaves _).bind fun _ => (Leaves.mapM fun m _ => resolveAll_leaves m.signature).map
  refine .read (.withReader ?_)
  rw [← TypeRef.subtreesAll_nodes] at awaits
  exact leaves { Scope.top p settings with generics := (p.classAt i).params } f awaits
    (.of_empty rfl)

theorem checkFunctionSignature_trail (settings : Settings) (i : Nat)
    (awaits : f.Awaits types (TypeRef.nodesAll (p.functionAt i).signature)) :
    Ensures (checkFunctionSignature i) (.top p settings) f fun _ g =>
      Explores p (p.functionPlace (p.functionAt i))
        (TypeRef.subtreesAll (p.functionAt i).signature) f g := by
  refine .read (.withReader ?_)
  rw [← TypeRef.subtreesAll_nodes] at awaits
  have leaves : Leaves (fun _ => types) (resolveAll (p.functionAt i).signature) _ :=
    resolveAll_leaves (p.functionAt i).signature
  have leaves := leaves ((Scope.top p settings).ofFunction (p.functionAt i)) f awaits
    (.of_empty (Scope.ofFunction_env _ _))
  rw [Scope.ofFunction_program, Scope.ofFunction_place] at leaves
  exact leaves

/-! ## Bodies -/

/-- Some types are known, and as well-formed types where they are sound. -/
def Findings.Grounds (f : Findings) (p : Program) (generics : List String) (ts : List TypeRef) : Prop :=
  ∀ t ∈ ts, ∃ r, f.cached t.id = some r ∧ p.Forms generics r

theorem Findings.Grounds.mono {generics : List String} {ts : List TypeRef}
    (h : f.Grounds p generics ts) (later : f.Extends g) : g.Grounds p generics ts := by
  intro t listed
  obtain ⟨r, known, forms⟩ := h t listed
  exact ⟨r, later.cached known, forms⟩

/-- Resolving a known type enters nothing. -/
theorem TypeRef.resolve_still {t : TypeRef} {r : Resolved} (known : f.cached t.id = some r) :
    Ensures t.resolve.run scope f fun r' g => g = f ∧ r' = r := by
  cases t <;> exact .remembered_known known ⟨rfl, rfl⟩

theorem bindParams_still (params : List Param) (env : Environment)
    (grounds : f.Grounds scope.program scope.generics (params.map Param.type))
    (before : { scope with env }.Grounded) :
    Ensures (bindParams env params) scope f fun bound g =>
      g = f ∧ { scope with env := bound.1 }.Grounded := by
  induction params generalizing env with
  | nil => exact .pure ⟨rfl, before⟩
  | cons param rest ih =>
    have others (env : Environment) (before : { scope with env }.Grounded) :=
      ih env (fun t listed => grounds t (List.mem_cons_of_mem _ listed)) before
    unfold bindParams
    dsimp only
    split
    · exact .silent (fun _ => rfl) fun _ => .bind (others env before) fun _ g after => .pure after
    · obtain ⟨r, known, forms⟩ := grounds _ (List.mem_cons_self ..)
      refine .bind (TypeRef.resolve_still known) ?_
      rintro _ _ ⟨rfl, rfl⟩
      exact others _ (before.bind _ forms)

theorem checkBody_leaves (title : String) (body : Block) :
    Leaves Program.signature (checkBody title body) body.subtrees := by
  exact body.check_leaves.bind_still fun _ => .still fun _ _ s same => same

theorem checkCallable_trail (scope : Scope) (title : String) {params : List Param}
    {returnType : TypeRef} {body : Block}
    (grounds : f.Grounds scope.program scope.generics (params.map Param.type ++ [returnType]))
    (awaits : f.Awaits scope.program.signature body.nodes) :
    Ensures (checkCallable title params returnType body) scope f fun _ g =>
      Explores scope.program scope.place body.subtrees f g := by
  have parameters (t : TypeRef) (listed : t ∈ params.map Param.type) :=
    grounds t (List.mem_append_left _ listed)
  refine .bind (bindParams_still params .empty parameters (.of_empty rfl)) ?_
  rintro bound _ ⟨rfl, grounded⟩
  obtain ⟨r, known, _⟩ := grounds returnType (List.mem_append_right _ (List.mem_singleton_self _))
  refine .bind (TypeRef.resolve_still known) ?_
  rintro type _ ⟨rfl, -⟩
  rw [← body.subtrees_nodes] at awaits
  have checked := checkBody_leaves title body (scope.inBody bound.1 type) _ awaits grounded
  exact .bind (.withReader checked) fun _ g trail => .pure trail

theorem checkField_trail {i : Nat} {field : Field} (known : (f.cached field.type.id).isSome = true)
    (awaits : f.Awaits p.signature (initializerNodes field.init)) :
    Ensures (checkField i field) (.top p settings) f fun _ g =>
      Explores p (p.memberPlace i !field.isStatic) (initializerSubtrees field.init) f g := by
  unfold checkField
  cases given : field.init with
  | none => exact .pure (.refl f)
  | some init =>
    rw [given] at awaits
    obtain ⟨r, known⟩ := Option.isSome_iff_exists.1 known
    refine .withReader (.bind (TypeRef.resolve_still known) ?_)
    rintro target _ ⟨rfl, -⟩
    rw [initializerNodes, Option.elim_some, Initializer.nodes, ← init.value.subtrees_nodes] at awaits
    exact checkInitializer_leaves target field.name.name init
      ((Scope.top p settings).inClass i !field.isStatic) _ awaits (.of_empty rfl)

theorem checkMethod_trail {i : Nat} {m : Method}
    (grounds : f.Grounds p (p.classAt i).params m.signature) (awaits : f.Awaits p.signature m.body.nodes) :
    Ensures (checkMethod i m) (.top p settings) f fun _ g =>
      Explores p (p.memberPlace i !m.isStatic) m.body.subtrees f g :=
  .read (.withReader (checkCallable_trail ((Scope.top p settings).inClass i !m.isStatic) _ grounds awaits))

theorem checkFunctionBody_trail (i : Nat)
    (grounds : f.Grounds p (p.functionPlace (p.functionAt i)).generics (p.functionAt i).signature)
    (awaits : f.Awaits p.signature (p.functionAt i).body.nodes) :
    Ensures (checkFunctionBody i) (.top p settings) f fun _ g =>
      Explores p (p.functionPlace (p.functionAt i)) (p.functionAt i).body.subtrees f g := by
  refine .read (.silent (fun _ => rfl) fun _ => .withReader ?_)
  have checked := checkCallable_trail ((Scope.top p settings).ofFunction (p.functionAt i))
    (p.functionAt i).title (by rw [Scope.ofFunction_program, Scope.ofFunction_generics]; exact grounds)
    (by rw [Scope.ofFunction_program]; exact awaits)
  rw [Scope.ofFunction_program, Scope.ofFunction_place] at checked
  exact checked

theorem checkClassBody_trail (i : Nat)
    (grounds : f.Grounds p (p.classAt i).params (p.classAt i).signature)
    (awaits : f.Awaits p.signature (p.classAt i).bodyNodes) :
    Ensures (checkClassBody i) (.top p settings) f fun _ g =>
      Trail p (p.ClassBody i) f g ∧ g.Covers (p.classAt i).bodySubtrees := by
  refine .read (.silent (fun _ => rfl) fun _ => ?_)
  have fields : Ensures ((p.classAt i).fields.mapM (checkField i)) (.top p settings) f fun _ g =>
      Trail p (fun x place => ∃ field ∈ (p.classAt i).fields,
        At (initializerSubtrees field.init) (p.memberPlace i !field.isStatic) x place) f g ∧
          g.Covers ((p.classAt i).fields.flatMap fun field => initializerSubtrees field.init) := by
    refine .mapM_trail (fun field => initializerNodes field.init)
      (fun field _ => At.inside (initializerSubtrees_nodes field.init))
      (fun field listed g later awaits => (checkField_trail ?_ awaits).weaken fun _ _ h => ⟨h.1, h.2⟩)
      awaits.left
    obtain ⟨r, known, _⟩ := grounds _ (List.mem_append_left _ (List.mem_map_of_mem listed))
    rw [later.cached known]
    rfl
  refine .bind fields fun _ g ⟨first, covers⟩ => ?_
  have grounds := grounds.mono (first.extends_ awaits.tidy)
  have first : Trail p (fun x place => p.ClassBody i x place ∧ x.node ∈ (p.classAt i).initNodes) f g := by
    refine first.mono ?_
    rintro x _ ⟨field, listed, inside, rfl⟩
    refine ⟨.init listed inside, List.mem_flatMap.2 ⟨field, listed, ?_⟩⟩
    rw [← initializerSubtrees_nodes]
    exact List.mem_map_of_mem inside
  have later := Findings.Awaits.after awaits first fun _ _ h => h.2
  have methods : Ensures ((p.classAt i).methods.mapM (checkMethod i)) (.top p settings) g fun _ h =>
      Trail p (fun x place => ∃ m ∈ (p.classAt i).methods,
        At m.body.subtrees (p.memberPlace i !m.isStatic) x place) g h ∧
          h.Covers ((p.classAt i).methods.flatMap fun m => m.body.subtrees) := by
    refine .mapM_trail (fun m => m.body.nodes) (fun m _ => At.inside m.body.subtrees_nodes)
      (fun m listed h further awaits => (checkMethod_trail (fun t inSignature => ?_) awaits).weaken
        fun _ _ h => ⟨h.1, h.2⟩) later
    exact grounds.mono further t
      (List.mem_append_right _ (List.mem_flatMap.2 ⟨m, listed, inSignature⟩))
  refine .bind methods fun _ h ⟨second, covered⟩ => .pure ⟨?_, ?_⟩
  · refine (first.mono fun _ _ h => h.1).trans (second.mono ?_)
    rintro x _ ⟨m, listed, inside, rfl⟩
    exact .method listed inside
  · exact (covers.mono (second.extends_ later.tidy)).append covered

end ClassLang
