import ClassLang.Proofs.Checking.Analyses
import ClassLang.Proofs.Checking.Lookups

/-!
Every type that is recorded is well-formed where it stands: each class in it has one argument for each
of its type parameters, and it mentions type parameters that may be named there. Those of other classes
come into the type of an expression in two ways only: with the name of a class that stands for the class
itself, and with an operator function of a class whose operands leave them open.

* `Findings.Scoped.course`: this holds at every point of a run.
-/

namespace ClassLang

variable {p : Program} {f g : Findings}

/-! ## Foreign type parameters -/

/-- What a call is taken from, if the callee is a member. -/
def Expr.target? : Expr → Option Expr
  | .member _ target _ _ => some target
  | _ => none

/-- The expressions that the type of an expression is made from. Neither the arguments of a call nor
the value of an assignment are among them. -/
def Expr.sources : Expr → List Expr
  | .ident .. | .this _ | .literal .. | .new .. => []
  | .list _ elems => elems
  | .keymap _ pairs => pairs.flatMap fun pair => [pair.key, pair.value]
  | .binary _ _ a b | .index _ a b => [a, b]
  | .unary _ _ source | .member _ source _ _ | .assign _ _ source _ => [source]
  | .call _ callee _ => callee.target?.toList

/-- The operands that an operator function would be applied to. -/
def Expr.operands : Expr → List Expr
  | .binary _ _ a b | .index _ a b => [a, b]
  | .unary _ _ operand => [operand]
  | _ => []

theorem Expr.operands_sources (e : Expr) : e.operands ⊆ e.sources := by
  cases e <;> simp [operands, sources]

theorem Expr.sources_subtrees (e : Expr) {x : Expr} (source : x ∈ e.sources) :
    .expr x ∈ e.subtrees := by
  have two {a b : Expr} (source : x ∈ [a, b]) : .expr x ∈ a.subtrees ++ b.subtrees := by
    rcases List.mem_cons.1 source with rfl | source
    · exact List.mem_append_left _ x.subtree_mem_subtrees
    · rw [List.mem_singleton.1 source]
      exact List.mem_append_right _ b.subtree_mem_subtrees
  cases e with
  | ident _ _ | this _ | literal _ _ | new _ _ => cases source
  | list _ _ => exact List.mem_cons_of_mem _ (mem_subtreesAll source)
  | keymap _ _ =>
    obtain ⟨pair, listed, source⟩ := List.mem_flatMap.1 source
    obtain ⟨key, value⟩ := mem_subtreesPairs listed
    refine List.mem_cons_of_mem _ ?_
    rcases List.mem_cons.1 source with rfl | source
    · exact key
    · rw [List.mem_singleton.1 source]
      exact value
  | binary _ _ _ _ | index _ _ _ => exact List.mem_cons_of_mem _ (two source)
  | unary _ _ _ | member _ _ _ _ =>
    rw [List.mem_singleton.1 source]
    exact List.mem_cons_of_mem _ (subtree_mem_subtrees _)
  | assign _ _ _ _ =>
    rw [List.mem_singleton.1 source]
    exact List.mem_cons_of_mem _ (List.mem_append_left _ (subtree_mem_subtrees _))
  | call _ callee _ =>
    refine List.mem_cons_of_mem _ (List.mem_append_left _ ?_)
    cases callee with
    | member _ _ _ _ =>
      rw [List.mem_singleton.1 source]
      exact List.mem_cons_of_mem _ (subtree_mem_subtrees _)
    | _ => cases source

/-- An expression brings in a type parameter of a class that need not be around it: it names the class,
or it refers to a function of the class, and the types of its operands leave the parameter open. -/
inductive Findings.Lends (p : Program) (f : Findings) (e : Expr) (name : String) : Prop
  | ofClass {i : Nat} : f.resolution e.id = some (.class i) → name ∈ (p.classAt i).params →
    Lends p f e name
  | ofFunction {i : Nat} {types given : List Ty} : f.resolution e.id = some (.function i) →
    f.paramTypes? (p.functionAt i).params = some types →
      List.Forall₂ (fun (x : Expr) t => f.cached x.id = some (.ok t)) e.operands given →
        name ∈ p.ownerParams (p.functionAt i) →
          (Substitution.learnAll (p.ownerParams (p.functionAt i)) types given .empty).get? name = none →
            Lends p f e name

/-- An expression, or one that its type is made from, brings in a type parameter. -/
inductive Findings.Carries (p : Program) (f : Findings) : Expr → String → Prop
  | lends {e : Expr} {name : String} : f.Lends p e name → Carries p f e name
  | source {e x : Expr} {name : String} : x ∈ e.sources → Carries p f x name → Carries p f e name

/-- The foreign type parameters that may occur in the type of a subtree. -/
def Findings.Admits (p : Program) (f : Findings) : Subtree → String → Prop
  | .expr e, name => f.Carries p e name
  | .pair both, name => f.Carries p both.key name ∨ f.Carries p both.value name
  | .type _, _ | .head _, _ => False

/-- Every recorded type is one of a subtree, and well-formed where that stands. -/
def Findings.Scoped (p : Program) (f : Findings) : Prop :=
  ∀ id type, f.cached id = some (.ok type) → ∃ x place, p.Stands x place ∧ x.id = id ∧
    type.Formed p.Takes fun name => name ∈ place.generics ∨ f.Admits p x name

section Later

variable (tidy : f.Tidy) (later : f.Extends g)
include tidy later

theorem Findings.paramTypes?_later {params : List Param} {types : List Ty}
    (known : f.paramTypes? params = some types) : g.paramTypes? params = some types := by
  induction params generalizing types with
  | nil => exact known
  | cons param rest ih =>
    simp only [paramTypes?, List.mapM_cons, Option.bind_eq_bind, Option.bind_eq_some_iff,
      Option.pure_def, Option.some.injEq] at known ⊢
    obtain ⟨t, first, others, known, rfl⟩ := known
    exact ⟨t, (later.typeOf (tidy.cached.1 first)).trans first, others, ih known, rfl⟩

theorem Findings.Carries.mono {e : Expr} {name : String} (h : f.Carries p e name) :
    g.Carries p e name := by
  induction h with
  | source inside _ ih => exact .source inside ih
  | lends lends =>
    cases lends with
    | ofClass refers listed => exact .lends (.ofClass (later.resolution refers) listed)
    | ofFunction refers known given listed unbound =>
      exact .lends (.ofFunction (later.resolution refers) (paramTypes?_later tidy later known)
        (later.cachedAll given) listed unbound)

theorem Findings.Admits.mono {name : String} : ∀ {x : Subtree}, f.Admits p x name → g.Admits p x name
  | .expr _, h => Carries.mono tidy later h
  | .pair _, h => h.imp (Carries.mono tidy later) (Carries.mono tidy later)

end Later

/-! ## Classes -/

theorem Program.typeWithin_formed {i : Nat} {params : String → Prop} (here : i ∈ p.classIndices)
    (named : ∀ name ∈ (p.classAt i).params, params name) : (p.typeWithin i).Formed p.Takes params := by
  have takes {count : Nat} (length : (p.classAt i).params.length = count) :
      p.Takes (p.classAt i).name.name count := by
    intro owner found
    have same := findClass_found.1 (theClass?_found found)
    have listed : i ∈ p.classesNamed (p.classAt i).name.name := by
      refine mem_classesNamed.2 ⟨p.classAt i, ?_, rfl⟩
      have here := List.mem_range.1 here
      rw [classAt, List.getD_eq_getElem?_getD, List.getElem?_eq_getElem here, Option.getD_some]
    rw [same, List.mem_singleton] at listed
    exact listed ▸ length
  unfold typeWithin
  dsimp only
  split
  · refine ⟨takes (by rw [List.length_map]), Ty.formedAll_iff.2 fun t listed => ?_⟩
    obtain ⟨name, inside, rfl⟩ := List.mem_map.1 listed
    exact named name inside
  · rename_i bare
    exact takes (by simpa [Class.isGeneric, Class.params] using bare)

theorem Program.argsOf_eq (owner : Nat) (type : Ty) :
    p.argsOf owner type = .ofArgs (p.classAt owner).params type.classArgs := by
  cases type with
  | genericClass _ _ _ => rfl
  | _ => exact congrArg (fun pairs => Substitution.mk pairs.reverse) List.zip_nil_right.symm

/-- The arguments of a class type stand for all type parameters of the class. -/
theorem Program.argsOf_forms {owner : Nat} {type : Ty} {params : String → Prop}
    (formed : type.Formed p.Takes params) (class_ : p.classOf? type = some owner) :
    (p.argsOf owner type).Forms p.Takes (· ∈ (p.classAt owner).params) params := by
  obtain ⟨name, named, found⟩ := Option.bind_eq_some_iff.1 class_
  rw [argsOf_eq]
  exact .ofArgs (formed.takes_length named owner found) formed.classArgs

section Chain

variable (types : f.TypesDenoted p) (links : f.LinksDenoted p)
include types links

theorem Findings.ancestorsAbove_forms {bound : Nat} {seen : List Nat} {last a : Ancestor}
    {params : String → Prop}
    (before : last.args.Forms p.Takes (· ∈ (p.classAt last.index).params) params)
    (listed : a ∈ f.ancestorsAbove bound seen last) :
    a.args.Forms p.Takes (· ∈ (p.classAt a.index).params) params := by
  induction bound generalizing seen last with
  | zero => cases listed
  | succ bound ih =>
    rw [ancestorsAbove] at listed
    split at listed
    · cases listed
    · rename_i link linked
      split at listed
      · cases listed
      · obtain ⟨written, type, clause, known, class_, args⟩ := links _ _ linked
        have next : (link.args.andThen last.args).Forms p.Takes
            (· ∈ (p.classAt link.superclass).params) params := by
          rw [args]
          exact .andThen (p.argsOf_forms (types.forms_clause clause known _ rfl) class_) before
        rcases List.mem_cons.1 listed with rfl | listed
        · exact next
        · exact ih next listed

/-- Along the chain of a class only its own type parameters are left. -/
theorem Findings.chain_forms {i : Nat} {a : Ancestor} (listed : a ∈ f.chain i) :
    a.args.Forms p.Takes (· ∈ (p.classAt a.index).params) (· ∈ (p.classAt i).params) := by
  rcases List.mem_cons.1 listed with rfl | listed
  · exact .empty fun _ => id
  · have start : (⟨i, .empty⟩ : Ancestor).args.Forms p.Takes (· ∈ (p.classAt i).params)
        (· ∈ (p.classAt i).params) := .empty fun _ => id
    exact Findings.ancestorsAbove_forms types links start listed

variable {owner : Nat} {name : String} {receiver : Substitution} {params : String → Prop}
  (through : receiver.Forms p.Takes (· ∈ (p.classAt owner).params) params)
include through

theorem Program.findField?_formed {found : FoundField} {type : Ty}
    (h : p.findField? f owner name receiver = some found) (typed : found.type = .ok type) :
    type.Formed p.Takes params := by
  obtain ⟨a, listed, _, _, declared, r, known, same⟩ := findField?_some h
  rw [same] at typed
  cases r with
  | error _ => cases typed
  | ok written =>
    cases typed
    have inSignature : found.field.type ∈ (p.classAt a.index).signature :=
      List.mem_append_left _ (List.mem_map_of_mem (List.mem_of_getElem? declared))
    exact (Substitution.Forms.andThen (Findings.chain_forms types links listed) through).apply
      (types.forms_signature inSignature known _ rfl)

theorem Program.findMethods_formed {m : FoundMethod} (found : m ∈ p.findMethods f owner name receiver)
    {given : List Ty} {result : Ty}
    (sound : f.signatureThrough? m.method.params m.method.returnType m.args =
      some (.ok (given, result))) : result.Formed p.Takes params := by
  obtain ⟨a, listed, _, declared, _, same⟩ := mem_findMethods.1 found
  obtain ⟨_, written, _, known, _, rfl⟩ := Findings.signatureThrough?_ok sound
  have inSignature : m.method.returnType ∈ (p.classAt a.index).signature :=
    List.mem_append_right _ (List.mem_flatMap.2 ⟨_, List.mem_of_getElem? declared,
      List.mem_append_right _ (List.mem_singleton_self _)⟩)
  rw [same]
  exact (Substitution.Forms.andThen (Findings.chain_forms types links listed) through).apply
    (types.forms_signature inSignature known _ rfl)

end Chain

/-! ## Functions -/

theorem Program.generics_functionPlace (function : Function) :
    (p.functionPlace function).generics = p.ownerParams function := by
  unfold functionPlace ownerParams
  cases function.owner.bind fun owner => p.theClass? owner.name <;> rfl

theorem Findings.paramTypes?_of_known (tidy : f.Tidy) {params : List Param} {types : List Ty}
    (known : List.Forall₂ (fun (param : Param) t => f.cached param.type.id = some (.ok t)) params
      types) : f.paramTypes? params = some types := by
  induction known with
  | nil => rfl
  | cons first _ ih =>
    rw [paramTypes?] at ih ⊢
    rw [List.mapM_cons, tidy.cached.2 first, ih]
    rfl

theorem operands_types {R : Expr → Ty → Prop} {exprs : List Expr} {given : List Ty}
    (known : List.Forall₂ R exprs given) : (operands exprs given).map Operand.type = given := by
  rw [operands, List.map_map]
  exact List.map_snd_zip known.length_eq.ge

/-- The result of an operator function mentions what its operands do, and type parameters of its class
that they leave open. -/
theorem Program.findOperator?_formed {operator : Operator} {exprs : List Expr} {given : List Ty}
    {i : Nat} {result : Ty} {params : String → Prop} (tidy : f.Tidy) (types : f.TypesDenoted p)
    (known : List.Forall₂ (fun (x : Expr) t => f.cached x.id = some (.ok t)) exprs given)
    (formed : ∀ t ∈ given, t.Formed p.Takes params)
    (unbound : ∀ declared name, f.paramTypes? (p.functionAt i).params = some declared →
      name ∈ p.ownerParams (p.functionAt i) →
        (Substitution.learnAll (p.ownerParams (p.functionAt i)) declared given .empty).get? name =
          none → params name)
    (h : p.findOperator? f operator (operands exprs given) = some (i, result)) :
    result.Formed p.Takes params := by
  obtain ⟨j, named, found⟩ := List.exists_of_findSome?_eq_some h
  obtain ⟨_, found, same⟩ := Option.map_eq_some_iff.1 found
  cases same
  simp only [operatorResult?, Option.bind_eq_bind, Option.bind_eq_some_iff, Option.pure_def,
    Option.some.injEq, operands_types known] at found
  obtain ⟨declared, paramTypes, written, typed, _, _, rfl⟩ := found
  have learned : (Substitution.learnAll (p.ownerParams (p.functionAt i)) declared given .empty).Forms
      p.Takes (· ∈ p.ownerParams (p.functionAt i)) params :=
    (Substitution.Binds.learnAll .empty (Ty.formedAll_iff.2 formed)).forms
      fun name listed => unbound declared name paramTypes listed
  have inSignature : (p.functionAt i).returnType ∈ (p.functionAt i).signature :=
    List.mem_append_right _ (List.mem_singleton_self _)
  have result := types.forms_function (Program.mem_functionIndices named) inSignature
    (tidy.cached.1 typed)
  rw [generics_functionPlace] at result
  exact learned.apply (result _ rfl)

/-! ## Judgements -/

/-- Some type parameters may occur in the type of an expression: those that may be named where it
stands, those in the types that it is made from, and those of what it refers to. -/
structure Scope.Allows (scope : Scope) (f : Findings) (e : Expr) (decl : Option Decl)
    (params : String → Prop) : Prop where
  named : ∀ name ∈ scope.generics, params name
  sources : ∀ x ∈ e.sources, ∀ type, f.cached x.id = some (.ok type) →
    type.Formed scope.program.Takes params
  classes : ∀ x ∈ e.sources, ∀ i, f.resolution x.id = some (.class i) →
    ∀ name ∈ (scope.program.classAt i).params, params name
  functions : ∀ i types given, decl = some (.function i) →
    f.paramTypes? (scope.program.functionAt i).params = some types →
      List.Forall₂ (fun (x : Expr) t => f.cached x.id = some (.ok t)) e.operands given →
        ∀ name ∈ scope.program.ownerParams (scope.program.functionAt i),
          (Substitution.learnAll (scope.program.ownerParams (scope.program.functionAt i)) types given
            .empty).get? name = none → params name

theorem aliasType?_formed {takes : String → Nat → Prop} {params : String → Prop} {operand : Expr}
    {type presented : Ty} (formed : type.Formed takes params)
    (presents : aliasType? operand type = some presented) : presented.Formed takes params := by
  unfold aliasType? at presents
  split at presents
  · cases presents
    exact Ty.formed_asReference.2 formed
  split at presents
  · cases presents
    exact formed
  · cases presents

section Judgements

variable {scope : Scope} {e : Expr} {decl : Option Decl} {params : String → Prop}

theorem Receives.forms {target : Expr} {access : MemberAccess} {from_ : Receiver}
    (allows : scope.Allows f e decl params) (source : target ∈ e.sources)
    (h : Receives scope f target access from_) : from_.args.Forms scope.program.Takes
      (· ∈ (scope.program.classAt from_.owner).params) params := by
  cases h with
  | static _ refers => exact .empty (allows.classes target source _ refers)
  | «instance» _ known _ receives =>
    obtain ⟨_, class_, rfl⟩ := Scope.instanceReceiver_ok receives
    exact Program.argsOf_forms (allows.sources target source _ known) class_

theorem Scope.Allows.pairs {n : Node} {pairs : List KeymapPair} {types : List (Ty × Ty)}
    (allows : scope.Allows f (.keymap n pairs) decl params)
    (known : List.Forall₂ (fun (pair : KeymapPair) both => f.cached pair.key.id = some (.ok both.1) ∧
      f.cached pair.value.id = some (.ok both.2) ∧
        f.cached pair.node.id = some (.ok (.keymap .none both.1 both.2))) pairs types) :
    ∀ both ∈ types, both.1.Formed scope.program.Takes params ∧
      both.2.Formed scope.program.Takes params := by
  intro both listed
  obtain ⟨pair, inside, key, value, _⟩ := mem_of_forall₂ known both listed
  refine ⟨allows.sources pair.key ?_ _ key, allows.sources pair.value ?_ _ value⟩
  · exact List.mem_flatMap.2 ⟨pair, inside, List.mem_cons_self ..⟩
  · exact List.mem_flatMap.2 ⟨pair, inside, List.mem_cons_of_mem _ (List.mem_singleton_self _)⟩

/-- In a class its own type parameters may be named. -/
theorem Scope.Allows.own (allows : scope.Allows f e decl params)
    (stands : scope.program.Stands (.expr e) scope.place) {owner : Nat}
    (here : scope.selfClass = some owner) : ∀ name ∈ (scope.program.classAt owner).params, params name := by
  have generics : scope.generics = _ := stands.embodies.generics
  have here : scope.place.selfClass = some owner := here
  rw [here, Option.elim_some] at generics
  exact generics ▸ allows.named

variable (tidy : f.Tidy) (types : f.TypesDenoted scope.program) (links : f.LinksDenoted scope.program)
include tidy types links

omit links in
theorem Scope.Allows.operator {operator : Operator} {i : Nat} {given : List Ty} {result : Ty}
    (allows : scope.Allows f e (some (.function i)) params)
    (known : List.Forall₂ (fun (x : Expr) t => f.cached x.id = some (.ok t)) e.operands given)
    (found : scope.program.findOperator? f operator (ClassLang.operands e.operands given) =
      some (i, result)) : result.Formed scope.program.Takes params := by
  have formed := Findings.all_of_known
    (fun x inside => allows.sources x (e.operands_sources inside)) known
  exact Program.findOperator?_formed tidy types known formed
    (fun declared name typed => allows.functions i declared given rfl typed known name) found

theorem Candidate.result_formed {n : Node} {callee : Expr} {args : List Expr} {meaning : Callee}
    {c : Candidate} {given : List Ty} {result : Ty}
    (allows : scope.Allows f (.call n callee args) (some c.decl) params)
    (stands : scope.program.Stands (.expr (.call n callee args)) scope.place)
    (means : Means scope f callee meaning) (listed : c ∈ meaning.candidates)
    (sound : c.signature = .ok (given, result)) : result.Formed scope.program.Takes params := by
  cases callee with
  | ident _ _ =>
    rcases means.ofNamed listed with ⟨_, here, m, found, _, through⟩ | ⟨i, named, decl, through⟩
    · rw [sound] at through
      exact Program.findMethods_formed types links (.empty (allows.own stands here)) found through
    · rw [sound] at through
      obtain ⟨declared, written, known, typed, _, rfl⟩ := Findings.signatureThrough?_ok through
      have inSignature : (scope.program.functionAt i).returnType ∈
          (scope.program.functionAt i).signature :=
        List.mem_append_right _ (List.mem_singleton_self _)
      have formed := types.forms_function (Program.mem_functionIndices named) inSignature typed _ rfl
      rw [Program.generics_functionPlace] at formed
      rw [Substitution.apply_empty]
      refine formed.mono fun name owned => ?_
      refine allows.functions i declared [] (congrArg some decl)
        (Findings.paramTypes?_of_known tidy known) .nil name owned ?_
      cases declared <;> rfl
  | member _ target _ _ =>
    obtain ⟨from_, receives, m, found, _, through⟩ := means.ofMember listed
    rw [sound] at through
    exact Program.findMethods_formed types links
      (receives.forms allows (List.mem_singleton_self target)) found through
  | _ => cases means

theorem Judged.formed {r : Resolved} {type : Ty} (grounded : scope.Grounded)
    (stands : scope.program.Stands (.expr e) scope.place) (allows : scope.Allows f e decl params)
    (judged : Judged scope f e decl r) (sound : r = .ok type) :
    type.Formed scope.program.Takes params := by
  cases judged with
  | fault => cases sound
  | «variable» bound =>
    subst sound
    exact (grounded _ _ bound _ rfl).mono allows.named
  | field _ found _ _ =>
    obtain ⟨owner, here, found⟩ := Option.bind_eq_some_iff.1 found
    exact Program.findField?_formed types links (.empty (allows.own stands here)) found sound
  | this same _ =>
    cases sound
    exact Ty.formed_asReference.2
      (Program.typeWithin_formed (stands.mem_classIndices same) (allows.own stands same))
  | literal =>
    cases sound
    exact Literal.type_formed _
  | list known unified =>
    cases sound
    refine Ty.formed_array.2 (unify_formed (fun item listed => ?_) unified)
    exact Findings.all_of_known allows.sources known _ (List.of_mem_zip listed).1
  | keymap known keys values =>
    cases sound
    have both := allows.pairs known
    refine ⟨unify_formed (fun item listed => ?_) keys, unify_formed (fun item listed => ?_) values⟩
    · obtain ⟨types, inside, same⟩ := List.mem_map.1 (List.of_mem_zip listed).1
      exact same ▸ (both types inside).1
    · obtain ⟨types, inside, same⟩ := List.mem_map.1 (List.of_mem_zip listed).1
      exact same ▸ (both types inside).2
  | binary a _ builtin =>
    cases sound
    exact BinaryOp.builtin?_formed
      (Ty.formed_decay.2 (allows.sources _ (List.mem_cons_self ..) _ a)) builtin
  | binaryFunction a b _ found =>
    cases sound
    exact allows.operator tidy types (.cons a (.cons b .nil)) found
  | reference a presents =>
    cases sound
    exact aliasType?_formed (allows.sources _ (List.mem_singleton_self _) _ a) presents
  | delete _ _ =>
    cases sound
    trivial
  | unary _ builtin =>
    cases sound
    exact UnaryOp.builtin?_formed builtin
  | unaryFunction _ _ a _ found =>
    cases sound
    exact allows.operator tidy types (.cons a .nil) found
  | @new _ written _ known _ =>
    cases sound
    have inside : scope.program.Stands (.type written) scope.place :=
      stands.below (List.mem_cons_of_mem _ written.subtree_mem_subtrees)
    exact (types.forms inside known _ rfl).mono allows.named
  | @member _ target _ _ _ found receives located =>
    cases resolved : found.type with
    | error _ =>
      rw [resolved] at sound
      cases sound
    | ok declared =>
      rw [resolved] at sound
      cases sound
      exact Ty.formed_constIf.2 (Program.findField?_formed types links
        (receives.forms allows (List.mem_singleton_self target)) (Scope.memberOf_found located) resolved)
  | element a _ _ =>
    cases sound
    exact Ty.formed_constIf.2 (Ty.formed_array.1 (allows.sources _ (List.mem_cons_self ..) _ a))
  | value a _ _ =>
    cases sound
    exact Ty.formed_constIf.2 (allows.sources _ (List.mem_cons_self ..) _ a).2
  | indexFunction a b _ found =>
    cases sound
    exact allows.operator tidy types (.cons a (.cons b .nil)) found
  | call means _ _ chosen =>
    cases sound
    obtain ⟨c, listed, taken⟩ := List.exists_of_findSome?_eq_some chosen
    obtain ⟨_, signature, _, rfl⟩ := Candidate.take?_some taken
    exact Candidate.result_formed tidy types links allows stands means listed signature
  | assign a _ _ _ =>
    cases sound
    exact allows.sources _ (List.mem_singleton_self _) _ a

end Judgements

/-! ## Runs -/

theorem Scope.namedClass?_mem {scope : Scope} {e : Expr} {owner : Nat}
    (named : scope.namedClass? f e = some owner) : owner ∈ scope.program.classIndices := by
  unfold namedClass? at named
  split at named
  · split at named
    · cases named
    · exact Program.theClass?_mem named
  · cases named

namespace Program.Stands

variable {place : Place}

theorem source {e x : Expr} (stands : p.Stands (.expr e) place) (source : x ∈ e.sources) :
    p.Stands (.expr x) place :=
  stands.below (e.sources_subtrees source)

theorem key {pair : KeymapPair} (stands : p.Stands (.pair pair) place) :
    p.Stands (.expr pair.key) place := by
  obtain ⟨n, key, value⟩ := pair
  exact stands.below (List.mem_cons_of_mem _ (List.mem_append_left _ key.subtree_mem_subtrees))

theorem value {pair : KeymapPair} (stands : p.Stands (.pair pair) place) :
    p.Stands (.expr pair.value) place := by
  obtain ⟨n, key, value⟩ := pair
  exact stands.below (List.mem_cons_of_mem _ (List.mem_append_right _ value.subtree_mem_subtrees))

end Program.Stands

namespace Findings.Scoped

variable (before : f.Scoped p) (distinct : Distinct p.nodes)
include before distinct

theorem formed {x : Subtree} {place : Place} {type : Ty} (stands : p.Stands x place)
    (known : f.cached x.id = some (.ok type)) :
    type.Formed p.Takes fun name => name ∈ place.generics ∨ f.Admits p x name := by
  obtain ⟨y, here, stands', same, formed⟩ := before x.id type known
  obtain ⟨rfl, rfl⟩ := Program.Stands.unique distinct stands' stands same
  exact formed

/-- What is entered for an expression may mention what its sources do. -/
theorem allows {scope : Scope} {e : Expr} (same : scope.program = p)
    (stands : p.Stands (.expr e) scope.place) (tidy : f.Tidy) (later : f.Extends g) :
    scope.Allows f e (g.resolution e.id)
      fun name => name ∈ scope.place.generics ∨ g.Carries p e name := by
  subst same
  refine ⟨fun _ => .inl, fun x source type known => ?_, fun x source i refers name listed => ?_,
    fun i types given refers known args name listed unbound => ?_⟩
  · refine (before.formed distinct (stands.source source) known).mono fun name mentioned => ?_
    exact mentioned.imp id fun carried => .source source (carried.mono tidy later)
  · exact .inr (.source source (.lends (.ofClass (later.resolution refers) listed)))
  · exact .inr (.lends (.ofFunction refers (paramTypes?_later tidy later known)
      (later.cachedAll args) listed unbound))

theorem turn (types : f.TypesDenoted p) (links : f.LinksDenoted p) (tidy : f.Tidy)
    (t : Turn p p.Stands f g) : g.Scoped p := by
  intro id type known
  have later := t.extends_ tidy
  have kept {id : Nat} (known : f.cached id = some (.ok type)) : ∃ x place, p.Stands x place ∧
      x.id = id ∧ type.Formed p.Takes fun name => name ∈ place.generics ∨ g.Admits p x name := by
    obtain ⟨x, place, stands, same, formed⟩ := before id type known
    exact ⟨x, place, stands, same, formed.mono fun _ => Or.imp_right (Admits.mono tidy later)⟩
  cases t with
  | mark _ _ | link _ _ _ | number _ _ => exact kept known
  | visit v =>
    rcases v.entered tidy known with known | ⟨x, place, stands, same, entered⟩
    · exact kept known
    refine ⟨x, place, stands, same, ?_⟩
    cases entered with
    | type denoted =>
      have written := (types.turn (.visit v) tidy distinct).forms stands (same ▸ known)
      exact (written _ rfl).mono fun _ => .inl
    | expr program grounded judged =>
      subst program
      exact judged.formed tidy types links grounded stands
        (before.allows distinct rfl stands tidy later) rfl
    | name program named refers =>
      subst program
      exact Program.typeWithin_formed (Scope.namedClass?_mem named)
        fun _ listed => .inr (.lends (.ofClass refers listed))
    | @pair x _ key value keyKnown valueKnown =>
      have left := before.formed distinct stands.key keyKnown
      have right := before.formed distinct stands.value valueKnown
      exact ⟨left.mono fun _ => Or.imp_right fun carried => .inl (carried.mono tidy later),
        right.mono fun _ => Or.imp_right fun carried => .inr (carried.mono tidy later)⟩

theorem course (types : f.TypesDenoted p) (links : f.LinksDenoted p) (tidy : f.Tidy)
    (c : Course p p.Stands f g) : g.Scoped p := by
  induction c with
  | refl => exact before
  | tail c t ih =>
    exact ih.turn distinct (types.course c tidy distinct) (links.course c tidy)
      (Course.tidy c tidy) t

end Findings.Scoped

end ClassLang
