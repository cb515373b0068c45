import ClassLang.Proofs.Checking.Signatures

/-!
Checking bodies is honest. The types of parameters and fields are settled by then; the bodies are
fresh.
-/

namespace ClassLang

variable {p : Program} {own : Subject → Prop} {P : Prop}

/-! ## Settled types -/

def CheckState.Settled (types : List TypeRef) (s : CheckState) : Prop :=
  ∀ t ∈ types, s.findings.Settled t.id

theorem CheckState.Settled.mono {types more : List TypeRef} {s : CheckState} (h : s.Settled more)
    (sub : types ⊆ more) : s.Settled types := fun t listed => h t (sub listed)

theorem Steps.allSettled {types : List TypeRef} {s t : CheckState} (h : Steps own s t)
    (before : s.Settled types) : t.Settled types := fun type listed => h.settled (before type listed)

theorem TypeRef.exec_resolve_settled {t : TypeRef} {scope : Scope} {s : CheckState}
    (settled : s.findings.Settled t.id) :
    ∃ type, Check.exec t.resolve.run scope s = (.ok type, s) := by
  obtain ⟨type, known⟩ := settled
  refine ⟨type, ?_⟩
  cases t <;> exact exec_remembered_known known

theorem TypeRef.resolve_settled (t : TypeRef) (given : CheckState → Prop) (distinct : Distinct t.nodes)
    (settled : ∀ s, given s → s.findings.Settled t.id) :
    Honest p (mentions t.nodes) given t.resolve.run (·.isOk = true) (fun _ => False) where
  within := (t.resolve_once (P := True) distinct).within
  faithful scope s _ clean holds := by
    obtain ⟨type, run⟩ := exec_resolve_settled (settled s holds)
    rw [run]
    exact .inl ⟨rfl, clean⟩

/-! ## Callables -/

def Environment.Sound (env : Environment) : Prop :=
  ∀ name type, env.get? name = some type → type.isOk = true

theorem Environment.Sound.insert {env : Environment} (h : env.Sound) {name : String} {type : Resolved}
    (sound : type.isOk = true) : (env.insert name type).Sound := by
  intro other bound inScope
  rw [get?_insert] at inScope
  split at inScope
  · cases inScope
    exact sound
  · exact h other bound inScope

theorem bindParams_honest (params : List Param) (env : Environment)
    (distinct : Distinct (TypeRef.nodesAll (params.map Param.type))) :
    Honest p (mentions (TypeRef.nodesAll (params.map Param.type)))
      (fun s => env.Sound ∧ s.Settled (params.map Param.type)) (bindParams env params)
      (fun bound => bound.2 = true ∧ bound.1.Sound) (·.2 = false) := by
  induction params generalizing env with
  | nil => exact .pure fun _ h => ⟨rfl, h.1⟩
  | cons param rest ih =>
    have wider := mentions_mono
      (List.subset_append_right param.type.nodes (TypeRef.nodesAll (rest.map Param.type)))
    unfold bindParams
    dsimp only
    split
    · refine .report (fun scope s same => ?_) fun _ _ => rfl
      exact ((ih env distinct.right).within scope s same).mono wider
    · have resolved := param.type.resolve_settled (p := p)
        (fun s => env.Sound ∧ s.Settled ((param :: rest).map Param.type)) distinct.left
        fun s h => h.2 _ (List.mem_cons_self ..)
      refine resolved.bind (Q := fun s => env.Sound ∧ s.Settled (rest.map Param.type))
        (mentions_mono (List.subset_append_left _ _))
        (fun s t h steps => ⟨h.1, steps.allSettled (h.2.mono (List.subset_cons_self _ _))⟩)
        (fun type => ?_) fun _ _ _ => False.elim
      exact ((ih _ distinct.right).widen wider).weaken
        (fun s ⟨sound, env, settled⟩ => ⟨env.insert sound, settled⟩) (fun _ h => h) fun _ h => h

theorem checkBody_honest (title : String) (body : Block) (distinct : Distinct body.nodes) :
    Honest p (covers body.nodes) (fun s => P ∧ s.Fresh body.nodes) (checkBody title body) (· = true)
      (· = false) := by
  refine .bind (Q := fun _ => True) ((body.check_honest distinct).weaken (fun _ h => ⟨trivial, h.2⟩)
    (fun _ h => h) fun _ h => h) (fun _ h => h) (fun _ _ _ _ => trivial) (fun sound => ?_)
    fun sound scope s failed _ => ?_
  · refine .read fun scope _ => .bind .reportAll (fun _ h => h) (Q := fun _ => sound = true)
      (fun _ _ h _ => h.2.1) (fun returns => .pure fun _ h => ?_)
      fun returns scope s failed _ => ?_
    · rw [h.1, h.2]
      rfl
    · rw [Check.exec_pure, failed, Bool.and_false]
  · rw [failed]
    rfl

/-- The subjects of a check of bodies in whose declarations some types are written. -/
def reaches (types : List TypeRef) (bodies : List Node) (subject : Subject) : Prop :=
  mentions (TypeRef.nodesAll types) subject ∨ covers bodies subject

theorem reaches_mono {types types' : List TypeRef} {bodies bodies' : List Node}
    (subTypes : types ⊆ types') (subBodies : bodies ⊆ bodies') :
    ∀ subject, reaches types bodies subject → reaches types' bodies' subject := by
  intro subject h
  rcases h with mentioned | covered
  · exact .inl (mentions_mono (TypeRef.nodesAll_subset subTypes) subject mentioned)
  · exact .inr (covers_mono subBodies subject covered)

theorem Apart.reaches {types : List TypeRef} {bodies ys : List Node}
    (signature : Apart (TypeRef.nodesAll types) ys) (apart : Apart bodies ys) :
    Spares (ClassLang.reaches types bodies) ys := by
  intro n listed
  have mentioned := signature.mentions n listed
  have covered := apart.covers n listed
  exact ⟨fun h => h.elim mentioned.1 covered.1, fun h => h.elim mentioned.2 covered.2⟩

theorem checkCallable_honest (title : String) (params : List Param) (returnType : TypeRef)
    (body : Block)
    (distinct : Distinct (TypeRef.nodesAll (params.map Param.type ++ [returnType]) ++ body.nodes)) :
    Honest p (reaches (params.map Param.type ++ [returnType]) body.nodes)
      (fun s => s.Settled (params.map Param.type ++ [returnType]) ∧ s.Fresh body.nodes)
      (checkCallable title params returnType body) (· = true) (· = false) := by
  have types := distinct.left
  have spared := distinct.apart.mentions
  have split_ : TypeRef.nodesAll (params.map Param.type ++ [returnType]) =
      TypeRef.nodesAll (params.map Param.type) ++ returnType.nodes := by
    simp [TypeRef.nodesAll_eq]
  rw [split_] at types spared
  have subParams : ∀ subject, mentions (TypeRef.nodesAll (params.map Param.type)) subject →
      mentions (TypeRef.nodesAll (params.map Param.type) ++ returnType.nodes) subject :=
    mentions_mono (List.subset_append_left _ _)
  have subReturn : ∀ subject, mentions returnType.nodes subject →
      mentions (TypeRef.nodesAll (params.map Param.type) ++ returnType.nodes) subject :=
    mentions_mono (List.subset_append_right _ _)
  have inside : ∀ subject, mentions (TypeRef.nodesAll (params.map Param.type) ++ returnType.nodes)
      subject → reaches (params.map Param.type ++ [returnType]) body.nodes subject := by
    intro subject h
    rw [reaches, split_]
    exact .inl h
  refine (bindParams_honest params .empty types.left).weaken
    (Q := fun s => s.Settled (params.map Param.type ++ [returnType]) ∧ s.Fresh body.nodes)
    (fun s h => ⟨fun _ _ => nofun, h.1.mono (List.subset_append_left _ _)⟩) (fun _ h => h)
    (fun _ h => h) |>.bind
    (Q := fun s => s.findings.Settled returnType.id ∧ s.Fresh body.nodes)
    (fun subject h => inside subject (subParams subject h))
    (fun s t h steps => ⟨steps.settled (h.1 _ (List.mem_append_right _ (List.mem_singleton_self _))),
      (steps.mono subParams).fresh spared h.2⟩) (fun bound => ?_) fun bound scope s failed _ => ?_
  · have resolved := returnType.resolve_settled (p := p) (fun s =>
      (bound.2 = true ∧ bound.1.Sound) ∧ s.findings.Settled returnType.id ∧ s.Fresh body.nodes)
      types.right fun s h => h.2.1
    refine resolved.bind (Q := fun s => (bound.2 = true ∧ bound.1.Sound) ∧ s.Fresh body.nodes)
      (fun subject h => inside subject (subReturn subject h))
      (fun s t h steps => ⟨h.1, (steps.mono subReturn).fresh spared h.2.2⟩) (fun type => ?_)
      fun _ _ _ => False.elim
    have checked := (checkBody_honest (p := p)
      (P := type.isOk = true ∧ bound.2 = true ∧ bound.1.Sound) title body
      distinct.right).withReader (g := (·.inBody bound.1 type)) (fun _ => rfl)
      fun s scope h tidy => ⟨tidy.program, h.1.2.2, fun other same => by
        cases same
        exact h.1.1⟩
    refine .bind (Q := fun _ => bound.2 = true) (checked.weaken (fun s h => ⟨⟨h.1, h.2.1⟩, h.2.2⟩)
      (fun _ h => h) fun _ h => h) (fun _ h => .inr h) (fun _ _ h _ => h.2.1.1)
      (fun sound => .pure fun _ h => ?_) fun sound scope s failed _ => ?_
    · rw [h.1, h.2]
      rfl
    · rw [Check.exec_pure, failed, Bool.and_false]
  · obtain ⟨env, sound⟩ := bound
    cases failed
    rfl

/-! ## Members -/

/-- The check of the bodies of some declarations, given the check of one. -/
theorem bodies_honest {ι : Type} {check : ι → Check Bool} {types : ι → List TypeRef}
    {bodies : ι → List Node} {items : List ι}
    (honest : ∀ i, Distinct (TypeRef.nodesAll (types i) ++ bodies i) →
      Honest p (reaches (types i) (bodies i)) (fun s => s.Settled (types i) ∧ s.Fresh (bodies i))
        (check i) (· = true) (· = false))
    (distinct : Distinct (TypeRef.nodesAll (items.flatMap types) ++ items.flatMap bodies)) :
    Honest p (reaches (items.flatMap types) (items.flatMap bodies))
      (fun s => s.Settled (items.flatMap types) ∧ s.Fresh (items.flatMap bodies))
      (items.mapM check) (·.all id = true) (·.all id = false) := by
  have written : ∀ i ∈ items, types i ⊆ items.flatMap types :=
    fun i listed t h => List.mem_flatMap.2 ⟨i, listed, h⟩
  have inside : ∀ i ∈ items, bodies i ⊆ items.flatMap bodies :=
    fun i listed n h => List.mem_flatMap.2 ⟨i, listed, h⟩
  have apartTypes : ∀ i ∈ items, ∀ j ∈ items, Apart (TypeRef.nodesAll (types i)) (bodies j) :=
    fun i listed j listed' =>
      distinct.apart.mono (TypeRef.nodesAll_subset (written i listed)) (inside j listed')
  have signatures : Distinct (items.flatMap fun i => TypeRef.nodesAll (types i)) := by
    simpa only [TypeRef.nodesAll_eq, List.flatMap_assoc] using distinct.left
  obtain ⟨eachBody, apartBodies⟩ := Distinct.flatMap_iff.1 distinct.right
  have keep : items.Pairwise fun i j => ∀ s t : CheckState,
      s.Settled (types j) ∧ s.Fresh (bodies j) → Steps (reaches (types i) (bodies i)) s t →
        t.Settled (types j) ∧ t.Fresh (bodies j) := by
    refine apartBodies.imp_of_mem fun listed listed' apart s t h steps => ?_
    exact ⟨steps.allSettled h.1, steps.fresh ((apartTypes _ listed _ listed').reaches apart) h.2⟩
  have all := Honest.mapM items (fun i listed => honest i ((signatures.of_flatMap listed).append
    (eachBody i listed) (apartTypes i listed i listed))) keep
  refine (all.widen fun subject h => ?_).weaken (fun s h i listed => ?_) (fun _ h => h) fun _ h => h
  · obtain ⟨i, listed, mine⟩ := h
    exact reaches_mono (written i listed) (inside i listed) subject mine
  · exact ⟨h.1.mono (written i listed), h.2.mono (inside i listed)⟩

def Class.initNodes (c : Class) : List Node :=
  c.fields.flatMap fun field => initializerNodes field.init

def Class.bodyNodes (c : Class) : List Node :=
  c.initNodes ++ c.methods.flatMap fun m => m.body.nodes

theorem checkField_honest (owner : Nat) (field : Field)
    (distinct : Distinct (field.type.nodes ++ initializerNodes field.init)) :
    Honest p (reaches [field.type] (initializerNodes field.init)) (·.Settled [field.type])
      (checkField owner field) (· = true) (· = false) := by
  unfold checkField
  split
  · exact .pure fun _ _ => rfl
  · rename_i init given
    have mine : Owns (reaches [field.type] (initializerNodes field.init)) init.nodes := by
      intro n listed
      rw [given]
      have owned := owns_covers init.nodes n listed
      exact ⟨.inr owned.1, .inr owned.2⟩
    refine Honest.withReader (g := (·.inClass owner !field.isStatic)) ?_ (fun _ => rfl)
      fun _ _ _ tidy => tidy.inClass _ _
    refine (field.type.resolve_settled (·.Settled [field.type]) distinct.left
      fun s h => h _ (List.mem_singleton_self _)).bind (Q := fun _ => True) (fun subject h => ?_)
      (fun _ _ _ _ => trivial) (fun target => ?_) fun _ _ _ => False.elim
    · exact .inl (by simpa [TypeRef.nodesAll_eq] using h)
    · have stored : Honest p (reaches [field.type] (initializerNodes field.init))
          (fun _ => target.isOk = true) (checkInitializer target field.name.name init) (· = true)
          (· = false) := checkInitializer_honest mine
      exact stored.weaken (fun _ h => h.1) (fun _ h => h) fun _ h => h

theorem checkMethod_honest (owner : Nat) (m : Method)
    (distinct : Distinct (TypeRef.nodesAll m.signature ++ m.body.nodes)) :
    Honest p (reaches m.signature m.body.nodes) (fun s => s.Settled m.signature ∧ s.Fresh m.body.nodes)
      (checkMethod owner m) (· = true) (· = false) := by
  refine .read fun scope _ => ?_
  have checked := (checkCallable_honest (p := p) ((scope.program.classAt owner).memberTitle m.name.name)
    m.params m.returnType m.body distinct).withReader (g := (·.inClass owner !m.isStatic))
    (fun _ => rfl) fun _ _ _ tidy => tidy.inClass _ _
  exact checked.weaken (fun _ h => h.2) (fun _ h => h) fun _ h => h

section Classes

variable {c : Class}

theorem checkFields_honest (owner : Nat)
    (distinct : Distinct (TypeRef.nodesAll (c.fields.map Field.type) ++ c.initNodes)) :
    Honest p (reaches (c.fields.map Field.type) c.initNodes)
      (fun s => s.Settled (c.fields.map Field.type) ∧ s.Fresh c.initNodes)
      (c.fields.mapM (checkField owner)) (·.all id = true) (·.all id = false) := by
  have types : c.fields.map Field.type = c.fields.flatMap fun field => [field.type] :=
    List.map_eq_flatMap
  rw [types] at distinct ⊢
  refine bodies_honest (fun field distinct => ?_) distinct
  rw [TypeRef.nodesAll_eq, List.flatMap_singleton] at distinct
  exact (checkField_honest owner field distinct).weaken (fun _ h => h.1) (fun _ h => h) fun _ h => h

theorem checkMethods_honest (owner : Nat)
    (distinct : Distinct (TypeRef.nodesAll (c.methods.flatMap Method.signature) ++
      c.methods.flatMap fun m => m.body.nodes)) :
    Honest p (reaches (c.methods.flatMap Method.signature) (c.methods.flatMap fun m => m.body.nodes))
      (fun s => s.Settled (c.methods.flatMap Method.signature) ∧
        s.Fresh (c.methods.flatMap fun m => m.body.nodes))
      (c.methods.mapM (checkMethod owner)) (·.all id = true) (·.all id = false) :=
  bodies_honest (checkMethod_honest owner) distinct

end Classes

theorem checkClassBody_honest (i : Nat)
    (distinct : Distinct (TypeRef.nodesAll (p.classAt i).signature ++ (p.classAt i).bodyNodes)) :
    Honest p (reaches (p.classAt i).signature (p.classAt i).bodyNodes)
      (fun s => s.Settled (p.classAt i).signature ∧ s.Fresh (p.classAt i).bodyNodes)
      (checkClassBody i) (· = true) (· = false) := by
  refine .read fun scope same => ?_
  rw [same]
  have ofFields : (p.classAt i).fields.map Field.type ⊆ (p.classAt i).signature :=
    List.subset_append_left _ _
  have ofMethods : (p.classAt i).methods.flatMap Method.signature ⊆ (p.classAt i).signature :=
    List.subset_append_right _ _
  have inits : (p.classAt i).initNodes ⊆ (p.classAt i).bodyNodes := List.subset_append_left _ _
  have bodies : ((p.classAt i).methods.flatMap fun m => m.body.nodes) ⊆ (p.classAt i).bodyNodes :=
    List.subset_append_right _ _
  have types := distinct.left
  rw [Class.signature, TypeRef.nodesAll_append] at types
  have fields := checkFields_honest (p := p) i (types.left.append distinct.right.left
    (distinct.apart.mono (TypeRef.nodesAll_subset ofFields) inits))
  have methods := checkMethods_honest (p := p) i (types.right.append distinct.right.right
    (distinct.apart.mono (TypeRef.nodesAll_subset ofMethods) bodies))
  have spared := (distinct.apart.mono (TypeRef.nodesAll_subset ofFields) bodies).reaches
    distinct.right.apart
  refine .note ?_ fun s t h steps =>
    ⟨h.1, steps.allSettled h.2.1, steps.fresh (fun _ _ => ⟨id, id⟩) h.2.2⟩
  refine .bind (Q := fun s => s.Settled ((p.classAt i).methods.flatMap Method.signature) ∧
      s.Fresh ((p.classAt i).methods.flatMap fun m => m.body.nodes))
    (fields.weaken (fun s h => ⟨h.2.1.mono ofFields, h.2.2.mono inits⟩) (fun _ h => h) fun _ h => h)
    (reaches_mono ofFields inits)
    (fun s t h steps => ⟨steps.allSettled (h.2.1.mono ofMethods),
      steps.fresh spared (h.2.2.mono bodies)⟩)
    (fun fieldsSound => ?_) fun fieldsSound scope s failed _ => ?_
  · refine .bind (Q := fun _ => fieldsSound.all id = true) (methods.weaken (fun s h => h.2)
      (fun _ h => h) fun _ h => h) (reaches_mono ofMethods bodies) (fun _ _ h _ => h.1)
      (fun methodsSound => .pure fun _ h => ?_) fun methodsSound scope s failed _ => ?_
    · rw [h.1, h.2]
      rfl
    · rw [Check.exec_pure, failed, Bool.and_false]
  · rw [Check.exec_bind, Check.exec_pure, failed, Bool.false_and]

/-! ## Functions -/

theorem checkFunctionBody_honest (i : Nat)
    (distinct : Distinct (TypeRef.nodesAll (p.functionAt i).signature ++ (p.functionAt i).body.nodes)) :
    Honest p (reaches (p.functionAt i).signature (p.functionAt i).body.nodes)
      (fun s => s.Settled (p.functionAt i).signature ∧ s.Fresh (p.functionAt i).body.nodes)
      (checkFunctionBody i) (· = true) (· = false) := by
  refine .read fun scope same => ?_
  rw [same]
  have checked := (checkCallable_honest (p := p) (p.functionAt i).title (p.functionAt i).params
    (p.functionAt i).returnType (p.functionAt i).body distinct).withReader
    (g := (·.ofFunction (p.functionAt i))) (fun scope => scope.ofFunction_program _)
    fun _ _ _ tidy => tidy.ofFunction _
  exact .note (checked.weaken (fun _ h => h.2) (fun _ h => h) fun _ h => h) fun s t h steps =>
    ⟨h.1, steps.allSettled h.2.1, steps.fresh (fun _ _ => ⟨id, id⟩) h.2.2⟩

end ClassLang
