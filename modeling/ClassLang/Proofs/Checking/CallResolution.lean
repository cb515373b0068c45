import ClassLang.Proofs.Checking.Encapsulation
import ClassLang.Proofs.Checking.InheritedTypes
import ClassLang.Proofs.Checking.Routines

/-!
Which declaration a call means: of all methods and functions of its name, the first that may be used
there and takes the arguments.

* `Source.call_resolution`: a call means the first viable declaration, and fails if there is none.
-/

namespace ClassLang

variable {p : Program} {f : Findings} {scope : Scope} {args : List Expr} {types : List Ty}
  {result : Ty}

/-! ## Offers -/

/-- A declaration with the name of a call, as it is seen from there. -/
structure Offer where
  decl : Decl
  params : List Param
  returnType : TypeRef
  /-- What stands for the type parameters of the declaring class. -/
  args : Substitution
  /-- The declaring class of a method, and what it says of its uses. -/
  member : Option (Nat × Member)

def FoundMethod.offer (m : FoundMethod) : Offer :=
  ⟨.method m.owner m.index, m.method.params, m.method.returnType, m.args, some (m.owner, m.method.member)⟩

def Program.functionOffer (p : Program) (i : Nat) : Offer :=
  ⟨.function i, (p.functionAt i).params, (p.functionAt i).returnType, .empty, none⟩

/-- The methods of a name in a class and its ancestors: nearest class first, and within a class in the
order of declaration. -/
def Program.methodOffers (p : Program) (f : Findings) (owner : Nat) (name : String)
    (receiver : Substitution) : List Offer :=
  (p.findMethods f owner name receiver).map FoundMethod.offer

/-- The functions of a name in the order of declaration, without those that define operators. -/
def Program.functionOffers (p : Program) (name : String) : List Offer :=
  ((p.functionsNamed name).filter fun i => (p.functionAt i).operator.isNone).map p.functionOffer

/-- What has the name of a call, and whether there is an instance for it. A bare name that is bound to
a variable is not called. What an arrow is applied to must be an alias; a receiver that no member can
be taken from offers nothing. -/
inductive Program.Offers (p : Program) (f : Findings) (around : Surroundings) :
    Expr → Bool → List Offer → Prop
  | named {n : Node} {name : Ident} : around.vars.lookup name.name = none →
    Offers p f around (.ident n name) around.place.isInstance
      ((around.place.selfClass.elim [] fun owner => p.methodOffers f owner name.name .empty) ++
        p.functionOffers name.name)
  | static {n : Node} {target : Expr} {access : MemberAccess} {name : Ident} {owner : Nat} :
    f.resolution target.id = some (.class owner) →
      Offers p f around (.member n target access name) false (p.methodOffers f owner name.name .empty)
  | instance {n : Node} {target : Expr} {access : MemberAccess} {name : Ident} {type : Ty}
    {owner : Nat} : (∀ i, f.resolution target.id ≠ some (.class i)) →
      f.typeOf target.id = some type → (access = .arrow → type.isReference = true) →
        p.classOf? type = some owner →
          Offers p f around (.member n target access name) true
            (p.methodOffers f owner name.name (p.argsOf owner type))
  | refused {n : Node} {target : Expr} {access : MemberAccess} {name : Ident} {type : Ty} :
    (∀ i, f.resolution target.id ≠ some (.class i)) → f.typeOf target.id = some type →
      (access = .arrow ∧ type.isReference = false ∨ p.classOf? type = none) →
        Offers p f around (.member n target access name) false []

/-- Code at a place may use a member of a class. -/
def Place.MayUse (place : Place) (f : Findings) (owner : Nat) : Access → Prop
  | .public => True
  | .private => place.selfClass = some owner
  | .protected => ∃ i, place.selfClass = some i ∧ f.Inherits i owner

namespace Offer

/-- A method may be used where it is accessible, and static or called with an instance. -/
def Usable (o : Offer) (f : Findings) (place : Place) (hasInstance : Bool) : Prop :=
  ∀ owner m, o.member = some (owner, m) →
    place.MayUse f owner m.access ∧ (m.isStatic = false → hasInstance = true)

/-- A call may mean an offer, and then has some type: the offer may be used, the types in its signature
are sound, and its parameters take the arguments, as many as there are. -/
structure Viable (o : Offer) (f : Findings) (place : Place) (hasInstance : Bool) (args : List Operand)
    (result : Ty) : Prop where
  usable : o.Usable f place hasInstance
  takes : ∃ params, f.paramTypes? o.params = some params ∧
    acceptsAll (params.map o.args.apply) args = true
  returns : ∃ type, f.typeOf o.returnType.id = some type ∧ result = o.args.apply type

end Offer

/-- A call has the type and the declaration of an offer. -/
structure Findings.Calls (f : Findings) (n : Node) (o : Offer) (result : Ty) : Prop where
  sound : f.validity n.id = some true
  typed : f.typeOf n.id = some result
  refers : f.resolution n.id = some o.decl

/-- A call fails, and leaves no trace: it refers to nothing, and the uses of each function and member
are counted at other nodes. -/
structure Findings.FailsToCall (p : Program) (f : Findings) (n : Node) (callee : Expr) : Prop where
  unsound : f.validity n.id = some false
  untyped : f.typeOf n.id = none
  unreferred : f.resolution n.id = none
  uncounted : ∀ d, (∀ i, d ≠ .class i) → f.usage d =
    (p.nodes.filter fun m => m.id != n.id && m.id != callee.id).countP fun m =>
      f.resolution m.id == some d

/-- A call means the first viable offer, and fails if there is none. -/
inductive Findings.Resolves (p : Program) (f : Findings) (n : Node) (callee : Expr)
    (viable : Offer → Ty → Prop) (offers : List Offer) : Prop
  | calls {before after : List Offer} {o : Offer} {result : Ty} : offers = before ++ o :: after →
    (∀ other ∈ before, ∀ result, ¬viable other result) → viable o result → f.Calls n o result →
      Resolves p f n callee viable offers
  | fails : (∀ o ∈ offers, ∀ result, ¬viable o result) → f.FailsToCall p n callee →
    Resolves p f n callee viable offers

/-! ## Candidates -/

theorem Scope.mayUse_iff {owner : Nat} {access : Access} :
    scope.mayUse f owner access = true ↔ scope.place.MayUse f owner access := by
  cases access with
  | «public» => exact iff_of_true rfl trivial
  | «private» => exact beq_iff_eq
  | «protected» =>
    change (scope.selfClass.any fun here => (f.chain here).any fun a => a.index == owner) = true ↔ _
    simp [Place.MayUse, Findings.Inherits, Scope.place, Option.any_eq_true]

namespace Offer

/-- Whether an offer may be used, as it is checked. -/
def usable (o : Offer) (scope : Scope) (f : Findings) (hasInstance : Bool) : Bool :=
  o.member.all fun m => scope.mayUse f m.1 m.2.access && (m.2.isStatic || hasInstance)

theorem usable_iff {o : Offer} {hasInstance : Bool} :
    o.usable scope f hasInstance = true ↔ o.Usable f scope.place hasInstance := by
  unfold usable Usable
  cases o.member with
  | none => simp
  | some m =>
    obtain ⟨owner, m⟩ := m
    simp only [Option.all_some, Bool.and_eq_true, Scope.mayUse_iff, Option.some.injEq, Prod.mk.injEq]
    constructor
    · rintro ⟨allowed, inst⟩ _ _ ⟨rfl, rfl⟩
      refine ⟨allowed, fun needs => ?_⟩
      rwa [needs, Bool.false_or] at inst
    · intro h
      obtain ⟨allowed, inst⟩ := h owner m ⟨rfl, rfl⟩
      refine ⟨allowed, ?_⟩
      cases needs : m.isStatic with
      | true => rfl
      | false => exact inst needs

/-- An offer as a candidate, once its types have been resolved. -/
def candidate? (o : Offer) (f : Findings) : Option Candidate :=
  (f.signatureThrough? o.params o.returnType o.args).map fun signature => ⟨o.decl, signature⟩

/-- What a call means if it means an offer. -/
def take? (o : Offer) (scope : Scope) (f : Findings) (hasInstance : Bool) (args : List Operand) :
    Option (Decl × Ty) :=
  if o.usable scope f hasInstance then (o.candidate? f).bind (Candidate.take? args) else none

theorem take?_eq_some {o : Offer} {hasInstance : Bool} {args : List Operand} {d : Decl}
    (tidy : f.Tidy) : o.take? scope f hasInstance args = some (d, result) ↔
      o.decl = d ∧ o.Viable f scope.place hasInstance args result := by
  constructor
  · intro taken
    unfold take? at taken
    split at taken
    · rename_i usable
      obtain ⟨c, candidate, taken⟩ := Option.bind_eq_some_iff.1 taken
      obtain ⟨signature, through, rfl⟩ := Option.map_eq_some_iff.1 candidate
      obtain ⟨_, rfl, accepted, same⟩ := Candidate.take?_some taken
      obtain ⟨declared, declaredResult, params, returns, rfl, rfl⟩ :=
        Findings.signatureThrough?_ok through
      exact ⟨same, usable_iff.1 usable, ⟨declared, Findings.paramTypes?_of_known tidy params, accepted⟩,
        declaredResult, tidy.cached.2 returns, rfl⟩
    · cases taken
  · rintro ⟨rfl, usable, ⟨params, typed, accepted⟩, type, returns, rfl⟩
    rw [take?, if_pos (usable_iff.2 usable), candidate?,
      Findings.signatureThrough?_of_typed tidy typed returns, Option.map_some, Option.bind_some,
      Candidate.take?]
    exact if_pos accepted

end Offer

section Choice

variable {name : String} {hasInstance : Bool} {args : List Operand}

/-- The choice among the candidates of a search is the choice among what is offered. -/
theorem Scope.searchMethods_choice {owner : Nat} {receiver : Substitution} :
    ((scope.searchMethods f owner name receiver hasInstance).candidates f).findSome?
        (Candidate.take? args) =
      (scope.program.methodOffers f owner name receiver).findSome?
        (Offer.take? · scope f hasInstance args) := by
  simp only [searchMethods, MethodSearch.candidates, MethodSearch.usable, Program.methodOffers,
    ← List.head?_filterMap, List.filterMap_filterMap, List.filterMap_filter, List.filterMap_map]
  congr 2
  funext m
  have signature : FoundMethod.candidate? f m = m.offer.candidate? f := by
    simp [FoundMethod.candidate?, Offer.candidate?, FoundMethod.offer, Option.map_eq_bind]
  have usable : m.offer.usable scope f hasInstance =
      (scope.mayUse f m.owner m.method.access && (m.method.isStatic || hasInstance)) := rfl
  rw [Function.comp_apply, Offer.take?, usable, signature]
  cases scope.mayUse f m.owner m.method.access <;>
    cases m.method.isStatic || hasInstance <;> rfl

theorem Program.functionCandidates_choice (hasInstance : Bool) :
    (scope.program.functionCandidates f name).findSome? (Candidate.take? args) =
      (scope.program.functionOffers name).findSome? (Offer.take? · scope f hasInstance args) := by
  rw [functionCandidates, functionOffers, ← List.head?_filterMap, ← List.head?_filterMap,
    List.filterMap_filterMap, List.filterMap_map]
  rfl

end Choice

/-! ## No declaration twice -/

theorem nodup_positions {α : Type} (test : α → Bool) (items : List α) :
    (positions test items).Nodup := by
  have all : (items.zipIdx.map Prod.snd).Nodup := by
    rw [List.zipIdx_map_snd]
    exact List.nodup_range'
  exact all.sublist (List.filter_sublist.map _)

theorem Program.functionOffers_nodup (p : Program) (name : String) :
    ((p.functionOffers name).map Offer.decl).Nodup := by
  rw [functionOffers, List.map_map]
  exact ((nodup_positions _ _).filter _).map fun _ _ same => Decl.function.inj same

theorem Program.methodOffers_nodup (chained : Chained f.superclasses.bindings) (p : Program)
    (owner : Nat) (name : String) (receiver : Substitution) :
    ((p.methodOffers f owner name receiver).map Offer.decl).Nodup := by
  rw [methodOffers, findMethods, List.map_map, List.map_flatMap, List.nodup_flatMap]
  constructor
  · intro a _
    rw [List.map_map]
    have indices := nodup_positions (fun m => m.name.name == name) (p.classAt a.index).methods
    have decls := indices.map (f := Decl.method a.index) fun _ _ same => (Decl.method.inj same).2
    rw [positions, List.map_map] at decls
    exact decls
  · refine (List.pairwise_map.1 (Findings.chain_nodup chained owner)).imp ?_
    intro a b apart d inFirst inSecond
    obtain ⟨m, first, rfl⟩ := List.mem_map.1 inFirst
    obtain ⟨m', second, same⟩ := List.mem_map.1 inSecond
    obtain ⟨_, _, rfl⟩ := List.mem_map.1 first
    obtain ⟨_, _, rfl⟩ := List.mem_map.1 second
    exact apart (Decl.method.inj same).1.symm

/-- No declaration is offered twice. -/
theorem Program.Offers.nodup (chained : Chained f.superclasses.bindings) {around : Surroundings}
    {callee : Expr} {hasInstance : Bool} {offers : List Offer}
    (h : p.Offers f around callee hasInstance offers) : (offers.map Offer.decl).Nodup := by
  cases h with
  | @named n name free =>
    rw [List.map_append, List.nodup_append]
    refine ⟨?_, p.functionOffers_nodup _, ?_⟩
    · cases around.place.selfClass with
      | none => exact List.nodup_nil
      | some owner => exact Program.methodOffers_nodup chained p owner _ _
    · intro d isMethod d' isFunction same
      obtain ⟨_, offered, rfl⟩ := List.mem_map.1 isFunction
      obtain ⟨i, -, rfl⟩ := List.mem_map.1 offered
      obtain ⟨_, offered, rfl⟩ := List.mem_map.1 isMethod
      cases here : around.place.selfClass with
      | none =>
        rw [here] at offered
        cases offered
      | some owner =>
        rw [here] at offered
        obtain ⟨m, -, rfl⟩ := List.mem_map.1 offered
        cases same
  | static _ | «instance» _ _ _ _ => exact Program.methodOffers_nodup chained p _ _ _
  | refused _ _ _ => exact List.nodup_nil

/-! ## Where calls stand -/

/-- What is in front of a member refers to a class where it names one, and only there. -/
structure Scope.NamesClass (scope : Scope) (f : Findings) (target : Expr) : Prop where
  named : ∀ owner, f.resolution target.id = some (.class owner) →
    scope.namedClass? f target = some owner
  unnamed : ∀ type, f.cached target.id = some (.ok type) →
    (∀ i, f.resolution target.id ≠ some (.class i)) → scope.namedClass? f target = none

/-- The choice among what is offered where a scope fits is the choice among the candidates there. -/
theorem Program.Offers.reaches {around : Surroundings} {callee : Expr} {hasInstance : Bool}
    {offers : List Offer} (h : scope.program.Offers f around callee hasInstance offers)
    (fits : scope.Fits f around) (tidy : f.Tidy)
    (names : ∀ n target access name, callee = .member n target access name →
      scope.NamesClass f target) :
    ∃ candidates, Reaches scope f callee candidates ∧ ∀ args,
      candidates.findSome? (Candidate.take? args) =
        offers.findSome? (Offer.take? · scope f hasInstance args) := by
  cases h with
  | @named n name free =>
    refine ⟨_, .named (fits.unbound free), fun args => ?_⟩
    rw [Scope.namedCandidates, List.findSome?_append, List.findSome?_append,
      Program.functionCandidates_choice around.place.isInstance, ← fits.place]
    congr 1
    change _ = List.findSome? _ (scope.selfClass.elim [] _)
    cases scope.selfClass with
    | none => rfl
    | some owner => exact Scope.searchMethods_choice
  | static refers =>
    have named := (names _ _ _ _ rfl).named _ refers
    exact ⟨_, .member (.static named refers), fun args => Scope.searchMethods_choice⟩
  | @«instance» n target access name type owner value typed arrow class_ =>
    have known := tidy.cached.1 typed
    have unnamed := (names _ _ _ _ rfl).unnamed type known value
    have receives : scope.instanceReceiver target access type =
        .ok (.instance owner (scope.program.argsOf owner type) type.mods) := by
      rw [Scope.instanceReceiver, class_]
      refine if_neg fun refused => ?_
      obtain ⟨isArrow, plain⟩ := Bool.and_eq_true_iff.1 refused
      rw [arrow (of_decide_eq_true isArrow)] at plain
      cases plain
    exact ⟨_, .member (.instance unnamed known value receives),
      fun args => Scope.searchMethods_choice⟩
  | @refused n target access name type value typed refused =>
    have known := tidy.cached.1 typed
    have unnamed := (names _ _ _ _ rfl).unnamed type known value
    refine ⟨[], .refused ⟨unnamed, known, ?_⟩, fun _ => rfl⟩
    rw [Scope.instanceReceiver]
    rcases refused with ⟨rfl, plain⟩ | classless
    · rw [plain]
      rfl
    · rw [classless]
      split <;> rfl

theorem Findings.Complete.names_class (complete : f.Complete scope.program) {target : Expr}
    (listed : .expr target ∈ scope.program.subtrees) (settled : target.Settled scope f) :
    scope.NamesClass f target := by
  by_cases isName : ∃ n name, target = .ident n name
  · obtain ⟨n, name, rfl⟩ := isName
    refine ⟨settled.refers, fun type typed value => ?_⟩
    cases named : scope.namedClass? f (.ident n name) with
    | none => rfl
    | some owner => exact absurd (settled.named owner named type typed) (value owner)
  · have unnamed (scope : Scope) : scope.namedClass? f target = none := by
      cases target with
      | ident n name => exact absurd ⟨n, name, rfl⟩ isName
      | _ => rfl
    refine ⟨fun owner refers => ?_, fun _ _ _ => unnamed scope⟩
    cases complete.certifies target listed with
    | blank unreferred _ => cases refers.symm.trans unreferred
    | judged _ _ _ _ judged => exact absurd refers (judged.not_class owner)
    | named _ named _ _ => cases (unnamed _).symm.trans named

/-! ## Programs -/

/-- What a call comes to, given what is offered to it: the first viable offer, and nothing if there is
none. -/
theorem Findings.Complete.call_resolves (complete : f.Complete scope.program)
    (counted : f.Counted scope.program) {around : Surroundings} (fits : scope.Fits f around) {n : Node}
    {callee : Expr} (settled : (Expr.call n callee args).Settled scope f) {hasInstance : Bool}
    {offers : List Offer} {candidates : List Candidate} (reaches : Reaches scope f callee candidates)
    (choice : candidates.findSome? (Candidate.take? (operands args types)) =
      offers.findSome? (Offer.take? · scope f hasInstance (operands args types)))
    (typed : List.Forall₂ (fun (e : Expr) type => f.typeOf e.id = some type) args types) :
    f.Resolves scope.program n callee
      (Offer.Viable · f around.place hasInstance (operands args types)) offers := by
  have tidy := complete.tidy
  rw [← fits.place]
  have refuse {o : Offer} (refused : o.take? scope f hasInstance (operands args types) = none)
      (result : Ty) : ¬o.Viable f scope.place hasInstance (operands args types) result := by
    intro viable
    cases refused.symm.trans ((Offer.take?_eq_some tidy).2 ⟨rfl, viable⟩)
  have known := typed.imp fun _ _ => tidy.cached.1
  obtain ⟨judged, entered, refers, silent⟩ := settled candidates types reaches known
  rw [chosen, choice] at judged entered refers
  cases met : offers.findSome? (Offer.take? · scope f hasInstance (operands args types)) with
  | some found =>
    obtain ⟨d, result⟩ := found
    rw [met] at judged entered refers
    obtain ⟨before, o, after, split, taken, passed⟩ := List.findSome?_eq_some_iff.1 met
    obtain ⟨rfl, viable⟩ := (Offer.take?_eq_some tidy).1 taken
    exact .calls split (fun other listed => refuse (passed other listed)) viable
      ⟨judged, tidy.cached.2 ((entered result).2 rfl), refers⟩
  | none =>
    rw [met] at judged entered refers
    have untyped : f.typeOf n.id = none := by
      cases typed : f.typeOf n.id with
      | none => rfl
      | some type => cases (entered type).1 (tidy.cached.1 typed)
    refine .fails (fun o listed => refuse (List.findSome?_eq_none_iff.1 met o listed))
      ⟨judged, untyped, refers, fun d other => ?_⟩
    rw [counted.usage_of_not_class other, List.countP_filter]
    refine List.countP_congr fun m _ => ?_
    have elsewhere (id : Nat) (unreferred : f.resolution id = none)
        (found : f.resolution m.id = some d) : m.id ≠ id := by
      rintro rfl
      cases unreferred.symm.trans found
    have notCall := elsewhere n.id refers
    have notCallee := elsewhere callee.id silent
    simp only [beq_iff_eq, Bool.and_eq_true, bne_iff_ne]
    exact ⟨fun found => ⟨found, notCall found, notCallee found⟩, And.left⟩

/-- A call comes to the first viable offer where it lies. -/
theorem Program.call_resolves (settings : Settings) (distinct : Distinct p.nodes)
    (analyzed : (p.analyze settings).state.findings = f) {around : Surroundings} {n : Node}
    {callee : Expr} (situated : p.Situates around (.call n callee args)) {hasInstance : Bool}
    {offers : List Offer} (offered : p.Offers f around callee hasInstance offers)
    (typed : List.Forall₂ (fun (e : Expr) type => f.typeOf e.id = some type) args types) :
    f.Resolves p n callee (Offer.Viable · f around.place hasInstance (operands args types)) offers := by
  subst analyzed
  obtain ⟨place, here⟩ := Program.expr_stands situated.subtrees.1
  obtain ⟨root, stands, inside⟩ := situated
  obtain ⟨scope, rfl, fits, settled⟩ := Program.roots_settled settings distinct stands
  have complete := scope.program.analyze_complete settings distinct
  have counted := (scope.program.analyze_counted settings distinct).1
  have named (m : Node) (target : Expr) (access : MemberAccess) (name : Ident)
      (same : callee = .member m target access name) :
      scope.NamesClass (scope.program.analyze settings).state.findings target := by
    subst same
    have below : .expr target ∈ (Expr.call n (.member m target access name) args).subtrees :=
      List.mem_cons_of_mem _ (List.mem_append_left _
        (List.mem_cons_of_mem _ target.subtree_mem_subtrees))
    exact complete.names_class (here.below below).mem
      (settled target (root.subtrees_closed.subset inside below))
  obtain ⟨candidates, reaches, choice⟩ := offered.reaches fits complete.tidy named
  exact complete.call_resolves counted fits (settled _ inside) reaches (choice _) typed

/-- A call by a bare name that no variable has, or through a receiver, whose arguments have types, means
the first of all declarations of its name that may be used there, have a sound signature and take the
arguments, and has its return type. If there is none the call fails, and neither refers to a
declaration nor counts as its use. -/
theorem Source.call_resolution {source : Source} {settings : Settings} {c : Compilation}
    (compiled : source.compile settings = .ok c) {n : Node} {callee : Expr} {args : List Expr}
    (listed : .call n callee args ∈ c.program.exprs) :
    (∃ around, c.program.Situates around (.call n callee args)) ∧
    ∀ around, c.program.Situates around (.call n callee args) → ∀ hasInstance offers types,
      c.program.Offers c.findings around callee hasInstance offers →
      List.Forall₂ (fun (e : Expr) type => c.findings.typeOf e.id = some type) args types →
        c.findings.Resolves c.program n callee
          (Offer.Viable · c.findings around.place hasInstance (operands args types)) offers := by
  obtain ⟨p, distinct, rfl⟩ := Source.compile_ok compiled
  exact ⟨Program.exists_situates (Program.mem_exprs.1 listed),
    fun _ situated _ _ _ => Program.call_resolves settings distinct rfl situated⟩

/-- A call of an inherited overload, past one of its own class that does not fit, and a call that no
function takes. -/
def overloadedCalls : Source :=
  ⟨"class A \x7b integer f(integer n) \x7b return n; \x7d integer f(string s) \x7b return 0; \x7d \x7d " ++
    "class B extends A \x7b private integer f(boolean b) \x7b return 1; \x7d " ++
    "integer g() \x7b return f(\"x\"); \x7d \x7d integer f(string s) \x7b return 2; \x7d f(1);", none⟩

/-- What the calls by bare name refer to. -/
def Compilation.namedCalls (c : Compilation) : List (Option Decl) :=
  c.program.exprs.filterMap fun
    | .call n (.ident ..) _ => some (c.findings.resolution n.id)
    | _ => none

theorem overloadedCalls_call_resolution : ∃ c : Compilation,
    overloadedCalls.compile ⟨true, true⟩ = .ok c ∧ c.namedCalls = [some (.method 0 1), none] ∧
      ∀ n m name args, .call n (.ident m name) args ∈ c.program.exprs →
        ∃ around offers types, c.program.Situates around (.call n (.ident m name) args) ∧
          c.program.Offers c.findings around (.ident m name) around.place.isInstance offers ∧
          c.findings.Resolves c.program n (.ident m name)
            (Offer.Viable · c.findings around.place around.place.isInstance (operands args types))
              offers := by
  have run : (overloadedCalls.compile ⟨true, true⟩).toOption.map (fun c =>
        (c.namedCalls, c.program.exprs.all fun
          | .call _ (.ident _ name) args =>
            (c.program.roots.all fun here => (here.1.vars.lookup name.name).isNone) &&
              (args.mapM fun e => c.findings.typeOf e.id).isSome
          | _ => true)) = some ([some (.method 0 1), none], true) := by
    decide +kernel
  obtain ⟨c, compiled, views⟩ := Option.map_eq_some_iff.1 run
  rw [Prod.mk.injEq, List.all_eq_true] at views
  obtain ⟨refer, calls⟩ := views
  have h := ok_of_toOption compiled
  refine ⟨c, h, refer, fun n m name args listed => ?_⟩
  obtain ⟨unbound, typed⟩ := Bool.and_eq_true_iff.1 (calls _ listed)
  obtain ⟨types, typed⟩ := Option.isSome_iff_exists.1 typed
  obtain ⟨⟨around, situated⟩, resolves⟩ := Source.call_resolution h listed
  obtain ⟨root, stands, inside⟩ := situated
  have free := Option.isNone_iff_eq_none.1 (List.all_eq_true.1 unbound _ stands)
  have offered := Program.Offers.named (p := c.program) (f := c.findings) (n := m) free
  exact ⟨around, _, types, ⟨root, stands, inside⟩, offered,
    resolves around ⟨root, stands, inside⟩ _ _ types offered (forall₂_of_mapM typed)⟩

end ClassLang
