import ClassLang.Proofs.Checking.StatementHonesty

/-!
Signatures. The types that declarations are written with are resolved before anything else, each of
them once: from then on their entries stay, and asking again changes nothing.
-/

namespace ClassLang

variable {p : Program} {own : Subject → Prop} {P : Prop}

/-! ## The types of declarations -/

def Method.signature (m : Method) : List TypeRef := m.params.map Param.type ++ [m.returnType]

def Function.signature (f : Function) : List TypeRef := f.params.map Param.type ++ [f.returnType]

def Class.signature (c : Class) : List TypeRef :=
  c.fields.map Field.type ++ c.methods.flatMap Method.signature

def Program.signature (p : Program) : List TypeRef :=
  p.classes.flatMap Class.signature ++ p.functions.flatMap Function.signature

/-! ## Resolving once -/

/-- The nodes as written types, and as names that may be type parameters. -/
def mentions (nodes : List Node) : Subject → Prop
  | .type id | .name id => id ∈ nodes.map Node.id
  | .node _ | .class _ => False

theorem mentions_mono {nodes more : List Node} (sub : nodes ⊆ more) :
    ∀ subject, mentions nodes subject → mentions more subject := by
  intro subject h
  cases subject with
  | type _ | name _ => exact List.map_subset _ sub h
  | node _ | «class» _ => exact h

theorem Distinct.head_not_mem {n : Node} {nodes : List Node} (h : Distinct (n :: nodes)) :
    n.id ∉ nodes.map Node.id := (List.nodup_cons.1 h).1

/-- The rule of a type with arguments, which makes entries about the arguments and its own name. -/
theorem rememberedType_infers {n : Node} (args : List TypeRef) {x : Infer Ty}
    (distinct : Distinct (n :: TypeRef.nodesAll args))
    (hx : Infers p (fun subject => mentions (TypeRef.nodesAll args) subject ∨ subject = .name n.id) P x
      fun _ => True) :
    Infers p (mentions (n :: TypeRef.nodesAll args)) P (remembered n.id x) fun _ => True := by
  refine Infers.remembered_once hx (fun subject h => ?_) (by simp [mentions]) ?_ ?_
  · rcases h with h | rfl
    · exact mentions_mono (List.subset_cons_self _ _) subject h
    · simp [mentions]
  · simp [mentions]
  · rintro (h | h)
    · exact distinct.head_not_mem h
    · cases h

mutual

theorem TypeRef.resolve_once : ∀ t : TypeRef, Distinct t.nodes →
    Infers p (mentions t.nodes) P t.resolve fun _ => True
  | .primitive n m kind, distinct | .void n m, distinct =>
    rememberedType_infers [] distinct (.pure fun _ => trivial)
  | .named n m name, distinct =>
    rememberedType_infers [] distinct (namedType_infers n m name.name (.inr rfl))
  | .array n m args, distinct => by
    have inner := resolveEach_once args distinct.below
    exact rememberedType_infers args distinct (arrayType_infers n m (inner.widen fun _ => Or.inl))
  | .keymap n m args, distinct => by
    have inner := resolveEach_once args distinct.below
    exact rememberedType_infers args distinct (keymapType_infers n m (inner.widen fun _ => Or.inl))
  | .generic n m name args, distinct => by
    have inner := resolveEach_once args distinct.below
    exact rememberedType_infers args distinct (genericType_infers n m name.name (inner.widen fun _ => Or.inl) (.inr rfl))

theorem resolveEach_once : ∀ ts : List TypeRef, Distinct (TypeRef.nodesAll ts) →
    Honest p (mentions (TypeRef.nodesAll ts)) (fun _ => P) (resolveEach ts) AllOk (¬AllOk ·)
  | [], _ => .pure fun _ _ => rfl
  | t :: rest, distinct => by
    have first := (t.resolve_once distinct.left).run_honest.widen
      (mentions_mono (List.subset_append_left _ (TypeRef.nodesAll rest)))
    have others := (resolveEach_once rest distinct.right).widen
      (mentions_mono (List.subset_append_right t.nodes _))
    exact first.consResults others

end

/-! ## What is known afterwards -/

def Findings.Known (f : Findings) (types : List TypeRef) : Prop :=
  ∀ t ∈ types, (f.cached t.id).isSome = true

theorem Steps.known {types : List TypeRef} {s t : CheckState} (h : Steps own s t)
    (spared : ∀ type ∈ types, ¬own (.node type.id)) (before : s.findings.Known types) :
    t.findings.Known types := by
  intro type listed
  obtain ⟨result, known⟩ := Option.isSome_iff_exists.1 (before type listed)
  rw [(h.cached_of_some (spared type listed) known).1]
  rfl

theorem Findings.Known.settled {f : Findings} {types : List TypeRef} (h : f.Known types)
    (clean : f.Clean) : ∀ t ∈ types, f.Settled t.id := by
  intro t listed
  obtain ⟨result, known⟩ := Option.isSome_iff_exists.1 (h t listed)
  have sound := clean.cached_isOk known
  cases result with
  | ok type => exact ⟨type, known⟩
  | error e => cases sound

theorem rememberedType_known {n : Node} (args : List TypeRef) {x : Infer Ty}
    (distinct : Distinct (n :: TypeRef.nodesAll args))
    (hx : Infers p (fun subject => mentions (TypeRef.nodesAll args) subject ∨ subject = .name n.id)
      True x fun _ => True) {scope : Scope} {s : CheckState} (same : scope.program = p)
    (fresh : s.findings.validity n.id = none) :
    ((Check.exec (remembered n.id x).run scope s).2.findings.cached n.id).isSome = true := by
  have unknown : s.findings.cached n.id = none := by simp [Findings.cached, fresh]
  have other : ¬(mentions (TypeRef.nodesAll args) (.type n.id) ∨ Subject.type n.id = .name n.id) := by
    rintro (h | h)
    · exact distinct.head_not_mem h
    · cases h
  have still := (hx.within scope s same).validity_eq (by simp [mentions]) other
  rw [exec_remembered_unknown unknown]
  exact Option.isSome_iff_exists.2 ⟨_, Findings.cached_record _ n.id _ (still.trans fresh)⟩

theorem TypeRef.resolve_known (t : TypeRef) (distinct : Distinct t.nodes) {scope : Scope}
    {s : CheckState} (same : scope.program = p) (fresh : s.findings.validity t.id = none) :
    ((Check.exec t.resolve.run scope s).2.findings.cached t.id).isSome = true := by
  cases t with
  | primitive n m kind | void n m =>
    exact rememberedType_known [] distinct (.pure fun _ => trivial) same fresh
  | named n m name =>
    exact rememberedType_known [] distinct (namedType_infers n m name.name (.inr rfl)) same fresh
  | array n m args =>
    have inner := resolveEach_once (p := p) (P := True) args distinct.below
    exact rememberedType_known args distinct (arrayType_infers n m (inner.widen fun _ => Or.inl))
      same fresh
  | keymap n m args =>
    have inner := resolveEach_once (p := p) (P := True) args distinct.below
    exact rememberedType_known args distinct (keymapType_infers n m (inner.widen fun _ => Or.inl))
      same fresh
  | generic n m name args =>
    have inner := resolveEach_once (p := p) (P := True) args distinct.below
    exact rememberedType_known args distinct
      (genericType_infers n m name.name (inner.widen fun _ => Or.inl) (.inr rfl)) same fresh

theorem Apart.mentions {xs ys : List Node} (apart : Apart xs ys) :
    Spares (ClassLang.mentions xs) ys :=
  fun _ listed => ⟨id, fun mine => apart mine (List.mem_map_of_mem listed)⟩

theorem resolveEach_known (types : List TypeRef) (distinct : Distinct (TypeRef.nodesAll types))
    {scope : Scope} {s : CheckState} (same : scope.program = p)
    (fresh : s.Fresh (TypeRef.nodesAll types)) :
    ((resolveEach types).exec scope s).2.findings.Known types := by
  induction types generalizing s with
  | nil => exact fun _ => nofun
  | cons t rest ih =>
    have first := (t.resolve_once (p := p) (P := True) distinct.left).within scope s same
    have freshRest := first.fresh distinct.apart.mentions (fresh.mono (List.subset_append_right _ _))
    have later := (resolveEach_once (p := p) (P := True) rest distinct.right).within scope
      (Check.exec t.resolve.run scope s).2 same
    have known : (Check.exec t.resolve.run scope s).2.findings.Known [t] := by
      intro _ listed
      cases List.mem_singleton.1 listed
      exact t.resolve_known distinct.left same (fresh _ (List.mem_append_left _ t.node_mem_nodes))
    intro type listed
    rcases List.mem_cons.1 listed with rfl | listed
    · exact later.known (fun _ _ => id) known type (List.mem_singleton_self _)
    · exact ih distinct.right freshRest type listed

/-! ## The surroundings of members -/

namespace Scope

theorem ofFunction_program (scope : Scope) (function : Function) :
    (scope.ofFunction function).program = scope.program := by
  unfold ofFunction
  split <;> rfl

theorem Clean.inClass {scope : Scope} (tidy : scope.Clean p) (owner : Nat) (isInstance : Bool) :
    (scope.inClass owner isInstance).Clean p := ⟨tidy.program, tidy.bindings, tidy.returns⟩

theorem Clean.ofFunction {scope : Scope} (tidy : scope.Clean p) (function : Function) :
    (scope.ofFunction function).Clean p := by
  unfold Scope.ofFunction
  split
  · exact tidy.inClass _ _
  · exact tidy

end Scope

/-! ## The phase of signatures -/

theorem allOk_iff {results : List Resolved} : AllOk results ↔ results.all Except.isOk = true := by
  induction results with
  | nil => exact ⟨fun _ => rfl, fun _ => rfl⟩
  | cons r rest ih =>
    rw [AllOk, mapM_id_cons, Bool.and_eq_true, List.all_cons, Bool.and_eq_true]
    exact and_congr_right fun _ => ih

theorem resolveAll_honest (types : List TypeRef) (distinct : Distinct (TypeRef.nodesAll types)) :
    Honest p (mentions (TypeRef.nodesAll types)) (fun _ => P) (resolveAll types) (· = true)
      (· = false) := by
  refine .bind (resolveEach_once types distinct) (fun _ h => h) (fun _ _ known _ => known)
    (fun results => .pure fun _ h => allOk_iff.1 h.1) fun results scope s failed _ => ?_
  exact Bool.eq_false_iff.2 fun all => failed (allOk_iff.2 all)

theorem resolveAll_known (types : List TypeRef) (distinct : Distinct (TypeRef.nodesAll types))
    {scope : Scope} {s : CheckState} (same : scope.program = p)
    (fresh : s.Fresh (TypeRef.nodesAll types)) :
    ((resolveAll types).exec scope s).2.findings.Known types :=
  resolveEach_known types distinct same fresh

section Classes

variable {c : Class}

theorem Class.nodes_signature (c : Class) : TypeRef.nodesAll c.signature =
    TypeRef.nodesAll (c.fields.map Field.type) ++
      c.methods.flatMap fun m => TypeRef.nodesAll m.signature := by
  simp only [signature, TypeRef.nodesAll_eq, List.flatMap_append, List.flatMap_assoc]

/-- The check of the signatures of a class, in its own surroundings. -/
theorem checkMethodSignatures_honest (distinct : Distinct (TypeRef.nodesAll c.signature)) :
    Honest p (mentions (TypeRef.nodesAll c.signature)) (fun _ => P)
      (c.methods.mapM fun m => resolveAll (m.params.map Param.type ++ [m.returnType]))
      (·.all id = true) (·.all id = false) := by
  rw [c.nodes_signature] at distinct ⊢
  have each := fun m (listed : m ∈ c.methods) => resolveAll_honest (p := p) (P := True) m.signature
    (distinct.right.of_flatMap listed)
  refine ((Honest.mapM c.methods each (List.pairwise_of_forall fun _ _ _ _ _ _ => trivial)).widen
    fun subject ⟨m, listed, mine⟩ => ?_).weaken (fun _ _ _ _ => trivial) (fun _ h => h) fun _ h => h
  refine mentions_mono (fun n h => ?_) subject mine
  exact List.mem_append_right _ (List.mem_flatMap.2 ⟨m, listed, h⟩)

theorem checkClassSignatures_honest (i : Nat)
    (distinct : Distinct (TypeRef.nodesAll (p.classAt i).signature)) :
    Honest p (mentions (TypeRef.nodesAll (p.classAt i).signature)) (fun _ => True)
      (checkClassSignatures i) (· = true) (· = false) := by
  refine .read fun scope same => ?_
  rw [same]
  have parts := distinct
  rw [Class.nodes_signature] at parts
  refine Honest.withReader (g := fun scope => { scope with generics := (p.classAt i).params }) ?_
    (fun _ => rfl) fun _ _ _ tidy => ⟨tidy.program, tidy.bindings, tidy.returns⟩
  have inside : TypeRef.nodesAll ((p.classAt i).fields.map Field.type) ⊆
      TypeRef.nodesAll (p.classAt i).signature := by
    rw [Class.nodes_signature]
    exact List.subset_append_left _ _
  have fields := (resolveAll_honest (p := p) (P := True) _ parts.left).widen (mentions_mono inside)
  refine .bind (fields.weaken (fun _ _ => trivial) (fun _ h => h) fun _ h => h) (fun _ h => h)
    (Q := fun _ => True) (fun _ _ _ _ => trivial) (fun fieldsSound => ?_)
    fun fieldsSound scope s failed _ => ?_
  · refine .bind (checkMethodSignatures_honest (P := fieldsSound = true ∧ True) distinct)
      (fun _ h => h) (fun _ _ h _ => h) (fun methodsSound => .pure fun _ ⟨methods, fields, _⟩ => ?_)
      fun methodsSound scope s failed _ => ?_
    · rw [methods, fields]
      rfl
    · rw [Check.exec_pure, failed, Bool.and_false]
  · simp only [Check.exec_bind, Check.exec_pure, failed, Bool.false_and]

theorem checkMethodSignatures_known (distinct : Distinct (TypeRef.nodesAll c.signature))
    {scope : Scope} {s : CheckState} (same : scope.program = p)
    (fresh : ∀ m ∈ c.methods, s.Fresh (TypeRef.nodesAll m.signature)) :
    ∀ m ∈ c.methods, (Check.exec (c.methods.mapM fun m =>
      resolveAll (m.params.map Param.type ++ [m.returnType])) scope s).2.findings.Known
        m.signature := by
  rw [c.nodes_signature] at distinct
  obtain ⟨each, apart⟩ := Distinct.flatMap_iff.1 distinct.right
  refine Check.mapM_establishes scope c.methods
    (A := fun m s => s.Fresh (TypeRef.nodesAll m.signature))
    (D := fun m s => s.findings.Known m.signature)
    (fun m listed s fresh => resolveAll_known m.signature (each m listed) same fresh)
    (apart.imp_of_mem fun listed _ apart s fresh => ?_) (fun m m' listed s known => ?_) s fresh
  · exact ((resolveAll_honest (p := p) (P := True) _ (each _ listed)).within scope s same).fresh
      apart.mentions fresh
  · exact ((resolveAll_honest (p := p) (P := True) _ (each _ listed)).within scope s same).known
      (fun _ _ => id) known

theorem checkClassSignatures_known {i : Nat}
    (distinct : Distinct (TypeRef.nodesAll (p.classAt i).signature)) {scope : Scope} {s : CheckState}
    (same : scope.program = p) (fresh : s.Fresh (TypeRef.nodesAll (p.classAt i).signature)) :
    ((checkClassSignatures i).exec scope s).2.findings.Known (p.classAt i).signature := by
  have parts := distinct
  rw [Class.nodes_signature] at parts fresh
  subst same
  let inside : Scope := { scope with generics := (scope.program.classAt i).params }
  have here : inside.program = scope.program := rfl
  let fields := (scope.program.classAt i).fields.map Field.type
  let middle := ((resolveEach fields).exec inside s).2
  have first : Steps _ s middle :=
    (resolveEach_once (p := scope.program) (P := True) fields parts.left).within inside s rfl
  have knownFields : middle.findings.Known fields := resolveEach_known (p := scope.program) fields
    parts.left rfl (fresh.mono (List.subset_append_left _ _))
  have freshMethods := first.fresh parts.apart.mentions (fresh.mono (List.subset_append_right _ _))
  have rest := (checkMethodSignatures_honest (p := scope.program) (P := True) distinct).within inside
    middle rfl
  have knownMethods := checkMethodSignatures_known distinct (s := middle) here
    fun m listed => freshMethods.mono fun n h => List.mem_flatMap.2 ⟨m, listed, h⟩
  intro t listed
  rcases List.mem_append.1 listed with field | method
  · exact rest.known (fun _ _ => id) knownFields t field
  · obtain ⟨m, listedMethod, inSignature⟩ := List.mem_flatMap.1 method
    exact knownMethods m listedMethod t inSignature

end Classes

theorem checkFunctionSignature_honest (i : Nat)
    (distinct : Distinct (TypeRef.nodesAll (p.functionAt i).signature)) :
    Honest p (mentions (TypeRef.nodesAll (p.functionAt i).signature)) (fun _ => True)
      (checkFunctionSignature i) (· = true) (· = false) := by
  refine .read fun scope same => ?_
  rw [same]
  refine Honest.withReader (g := (·.ofFunction (p.functionAt i))) ?_
    (fun scope => scope.ofFunction_program _) fun _ _ _ tidy => tidy.ofFunction _
  exact resolveAll_honest _ distinct

theorem checkFunctionSignature_known {i : Nat}
    (distinct : Distinct (TypeRef.nodesAll (p.functionAt i).signature)) {scope : Scope}
    {s : CheckState} (same : scope.program = p)
    (fresh : s.Fresh (TypeRef.nodesAll (p.functionAt i).signature)) :
    ((checkFunctionSignature i).exec scope s).2.findings.Known (p.functionAt i).signature := by
  subst same
  exact resolveAll_known (p := scope.program) _ distinct (scope.ofFunction_program _) fresh

end ClassLang
