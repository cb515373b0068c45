import ClassLang.Proofs.Checking.Certificates
import ClassLang.Proofs.Checking.Usage

/-!
Members are used only where they may be: a private member in its class, a protected one in the classes
that inherit it, and one that needs an instance only where there is an instance.

* `Source.encapsulated`: every node that refers to a member keeps to this.
-/

namespace ClassLang

variable {p : Program} {f : Findings} {scope : Scope} {e : Expr} {d : Decl}

/-! ## Members -/

/-- What a field or method says of its uses. -/
structure Member where
  access : Access
  isStatic : Bool
deriving DecidableEq, Repr

def Field.member (field : Field) : Member := ⟨field.access, field.isStatic⟩

def Method.member (m : Method) : Member := ⟨m.access, m.isStatic⟩

/-- The class of a field or method. -/
def Decl.owner? : Decl → Option Nat
  | .field owner _ | .method owner _ => some owner
  | _ => none

def Program.member? (p : Program) : Decl → Option Member
  | .field owner index => (p.classAt owner).fields[index]?.map Field.member
  | .method owner index => (p.classAt owner).methods[index]?.map Method.member
  | _ => none

/-- How an expression reaches a member: by its bare name, or through an expression in front of the
name. -/
inductive Reach where
  | bare
  | through (target : Expr)

def Expr.reach? : Expr → Option Reach
  | .ident .. | .call _ (.ident ..) _ => some .bare
  | .member _ target .. | .call _ (.member _ target ..) _ => some (.through target)
  | _ => none

/-- An expression lies in a class: in the first value of a field, in the body of a method, or in an
operator function of the class. -/
inductive Program.LiesIn (p : Program) (i : Nat) (e : Expr) : Prop
  | init {field : Field} : field ∈ (p.classAt i).fields →
    .expr e ∈ initializerSubtrees field.init → LiesIn p i e
  | method {m : Method} : m ∈ (p.classAt i).methods → .expr e ∈ m.body.subtrees → LiesIn p i e
  | operator {function : Function} {owner : Ident} : function ∈ p.functions →
    function.owner = some owner → p.theClass? owner.name = some i →
      .expr e ∈ function.body.subtrees → LiesIn p i e

/-- An expression lies where there is an instance of a class: in the first value of a field of
instances, or in the body of a method of instances. -/
inductive Program.LiesInInstance (p : Program) (i : Nat) (e : Expr) : Prop
  | init {field : Field} : field ∈ (p.classAt i).fields → field.isStatic = false →
    .expr e ∈ initializerSubtrees field.init → LiesInInstance p i e
  | method {m : Method} : m ∈ (p.classAt i).methods → m.isStatic = false →
    .expr e ∈ m.body.subtrees → LiesInInstance p i e

/-- A class is another one or inherits from it. -/
def Findings.Inherits (f : Findings) (i owner : Nat) : Prop := ∃ a ∈ f.chain i, a.index = owner

/-- An expression may use a member of a class where it lies and as it reaches it. -/
structure Findings.Encapsulates (p : Program) (f : Findings) (e : Expr) (owner : Nat) (m : Member) :
    Prop where
  ofPrivate : m.access = .private → p.LiesIn owner e
  ofProtected : m.access = .protected → ∃ i, p.LiesIn i e ∧ f.Inherits i owner
  throughClass : ∀ target i, e.reach? = some (.through target) →
    f.resolution target.id = some (.class i) → m.isStatic = true
  bare : e.reach? = some .bare → m.isStatic = false → ∃ i, p.LiesInInstance i e ∧ f.Inherits i owner

/-! ## Where expressions stand -/

theorem Program.Stands.liesIn {place : Place} {i : Nat} (stands : p.Stands (.expr e) place)
    (here : place.selfClass = some i) : p.LiesIn i e := by
  cases stands.embodies with
  | ofClass _ h =>
    cases h with
    | init listed inside =>
      cases here
      exact .init listed inside
    | method listed inside =>
      cases here
      exact .method listed inside
  | @ofFunction j _ listed inside =>
    rw [functionPlace] at here
    cases found : (p.functionAt j).owner.bind fun owner => p.theClass? owner.name with
    | none =>
      rw [found] at here
      cases here
    | some _ =>
      rw [found] at here
      cases here
      obtain ⟨owner, given, class_⟩ := Option.bind_eq_some_iff.1 found
      exact .operator (functionAt_mem listed) given class_ inside
  | statement _ => cases here

theorem Program.Stands.liesInInstance {place : Place} {i : Nat} (stands : p.Stands (.expr e) place)
    (here : place.selfClass = some i) (inst : place.isInstance = true) : p.LiesInInstance i e := by
  cases stands.embodies with
  | ofClass _ h =>
    cases h with
    | init listed inside =>
      cases here
      exact .init listed (by simpa [memberPlace] using inst) inside
    | method listed inside =>
      cases here
      exact .method listed (by simpa [memberPlace] using inst) inside
  | @ofFunction j _ _ _ =>
    have static : (p.functionPlace (p.functionAt j)).isInstance = false := by
      unfold functionPlace
      split <;> rfl
    cases static.symm.trans inst
  | statement _ => cases inst

/-! ## What the rules ask -/

/-- What the rules ask of the use of a member. -/
structure Scope.Admits (scope : Scope) (f : Findings) (e : Expr) (owner : Nat) (m : Member) :
    Prop where
  usable : scope.mayUse f owner m.access = true
  throughClass : ∀ target i, e.reach? = some (.through target) →
    f.resolution target.id = some (.class i) → m.isStatic = true
  bare : e.reach? = some .bare → ∃ i, scope.selfClass = some i ∧ f.Inherits i owner ∧
    (m.isStatic || scope.isInstance) = true

theorem Scope.mayUse_of_checkAccess {span : Span} {owner : Nat} {access : Access} {name : String}
    (allowed : scope.checkAccess f span owner access name = .ok ()) :
    scope.mayUse f owner access = true := by
  unfold checkAccess at allowed
  split at allowed
  · assumption
  · cases allowed

theorem hasInstance_of_checkInstance {span : Span} {name : String} {isStatic hasInstance : Bool}
    (allowed : checkInstance span name isStatic hasInstance = .ok ()) :
    (isStatic || hasInstance) = true := by
  unfold checkInstance at allowed
  split at allowed
  · assumption
  · cases allowed

theorem Scope.memberOf_allowed {from_ : Receiver} {name : Ident} {found : FoundField}
    (h : scope.memberOf f from_ name = .ok found) :
    scope.mayUse f found.owner found.field.access = true ∧
      (found.field.isStatic || from_.hasInstance) = true := by
  have located := Scope.memberOf_found h
  unfold memberOf at h
  simp only [located] at h
  cases access : scope.checkAccess f name.span found.owner found.field.access name.name with
  | error _ =>
    rw [access] at h
    cases h
  | ok _ =>
    rw [access] at h
    cases inst : checkInstance name.span name.name found.field.isStatic from_.hasInstance with
    | error _ =>
      rw [inst] at h
      cases h
    | ok _ => exact ⟨mayUse_of_checkAccess access, hasInstance_of_checkInstance inst⟩

theorem Scope.candidates_allowed {owner : Nat} {name : String} {receiver : Substitution}
    {hasInstance : Bool} {c : Candidate}
    (listed : c ∈ (scope.searchMethods f owner name receiver hasInstance).candidates f) :
    ∃ m ∈ scope.program.findMethods f owner name receiver, c.decl = .method m.owner m.index ∧
      scope.mayUse f m.owner m.method.access = true ∧
        (m.method.isStatic || hasInstance) = true := by
  obtain ⟨m, usable, candidate⟩ := List.mem_filterMap.1 listed
  obtain ⟨accessible, inst⟩ := List.mem_filter.1 usable
  obtain ⟨found, allowed⟩ := List.mem_filter.1 accessible
  simp only [FoundMethod.candidate?, Option.bind_eq_bind, Option.bind_eq_some_iff, Option.pure_def,
    Option.some.injEq] at candidate
  obtain ⟨_, _, rfl⟩ := candidate
  exact ⟨m, found, rfl, allowed, inst⟩

/-- What a class offers by its name needs no instance. -/
theorem Receives.static_of_class {target : Expr} {access : MemberAccess} {from_ : Receiver} {i : Nat}
    (receives : Receives scope f target access from_)
    (refers : f.resolution target.id = some (.class i)) : from_.hasInstance = false := by
  cases receives with
  | static _ _ => rfl
  | «instance» _ _ value _ => exact absurd refers (value i)

theorem Program.member?_of_findField? {owner : Nat} {name : String} {receiver : Substitution}
    {found : FoundField} (located : p.findField? f owner name receiver = some found) :
    p.member? found.decl = some found.field.member := by
  obtain ⟨_, _, same, _, declared, _⟩ := findField?_some located
  rw [same] at declared
  rw [FoundField.decl, member?, declared]
  rfl

theorem Program.member?_of_findMethods {owner : Nat} {name : String} {receiver : Substitution}
    {m : FoundMethod} (found : m ∈ p.findMethods f owner name receiver) :
    p.member? (.method m.owner m.index) = some m.method.member := by
  rw [member?, findMethods_declared found]
  rfl

/-- Every reference to a member is admitted where it stands. -/
theorem Judged.admits {owner : Nat} {r : Resolved} (judged : Judged scope f e (some d) r)
    (declares : d.owner? = some owner) :
    ∃ m, scope.program.member? d = some m ∧ scope.Admits f e owner m := by
  cases judged with
  | @field _ name found _ located access inst =>
    cases declares
    obtain ⟨i, here, located⟩ := Option.bind_eq_some_iff.1 located
    obtain ⟨a, above, same, _⟩ := Program.findField?_some located
    refine ⟨found.field.member, Program.member?_of_findField? located,
      Scope.mayUse_of_checkAccess access, fun _ _ => nofun, fun _ => ⟨i, here, ⟨a, above, same⟩, ?_⟩⟩
    exact hasInstance_of_checkInstance inst
  | @member _ target access name from_ found receives located =>
    cases declares
    obtain ⟨usable, inst⟩ := Scope.memberOf_allowed located
    refine ⟨found.field.member, Program.member?_of_findField? (Scope.memberOf_found located), usable,
      fun _ _ same refers => ?_, nofun⟩
    cases same
    rw [receives.static_of_class refers, Bool.or_false] at inst
    exact inst
  | @call _ callee args meaning types _ type means _ _ chosen =>
    obtain ⟨c, listed, taken⟩ := List.exists_of_findSome?_eq_some chosen
    obtain ⟨_, _, _, rfl⟩ := Candidate.take?_some taken
    cases means with
    | named found =>
      rw [Scope.calleeNamed_candidates found] at listed
      cases here : scope.selfClass with
      | none =>
        rw [here, Option.elim_none, List.nil_append] at listed
        obtain ⟨_, _, isFunction, _⟩ := Program.mem_functionCandidates listed
        rw [isFunction] at declares
        cases declares
      | some i =>
        rw [here, Option.elim_some] at listed
        rcases List.mem_append.1 listed with inClass | isFunction
        · obtain ⟨m, searched, decl, usable, inst⟩ := Scope.candidates_allowed inClass
          rw [decl] at declares ⊢
          cases declares
          obtain ⟨a, above, same, _⟩ := Program.mem_findMethods.1 searched
          exact ⟨m.method.member, Program.member?_of_findMethods searched, usable,
            fun _ _ => nofun, fun _ => ⟨i, here, ⟨a, above, same⟩, inst⟩⟩
        · obtain ⟨_, _, isFunction, _⟩ := Program.mem_functionCandidates isFunction
          rw [isFunction] at declares
          cases declares
    | member receives found =>
      rw [Scope.calleeOf_candidates found] at listed
      obtain ⟨m, searched, decl, usable, inst⟩ := Scope.candidates_allowed listed
      rw [decl] at declares ⊢
      cases declares
      refine ⟨m.method.member, Program.member?_of_findMethods searched, usable,
        fun _ _ same refers => ?_, nofun⟩
      cases same
      rw [receives.static_of_class refers, Bool.or_false] at inst
      exact inst
  | binaryFunction | unaryFunction | indexFunction => cases declares

/-- Where an expression stands settles what the rules ask of its place. -/
theorem Scope.Admits.encapsulates {owner : Nat} {m : Member} (admits : scope.Admits f e owner m)
    (stands : scope.program.Stands (.expr e) scope.place) :
    f.Encapsulates scope.program e owner m := by
  refine ⟨fun isPrivate => ?_, fun isProtected => ?_, admits.throughClass, fun bare needs => ?_⟩
  · have usable := admits.usable
    rw [isPrivate, mayUse, beq_iff_eq] at usable
    exact stands.liesIn usable
  · have usable := admits.usable
    rw [isProtected, mayUse, Option.any_eq_true] at usable
    obtain ⟨i, here, above⟩ := usable
    obtain ⟨a, above, same⟩ := List.any_eq_true.1 above
    exact ⟨i, stands.liesIn here, a, above, beq_iff_eq.1 same⟩
  · obtain ⟨i, here, inherits, inst⟩ := admits.bare bare
    rw [needs, Bool.false_or] at inst
    exact ⟨i, stands.liesInInstance here inst, inherits⟩

/-! ## Programs -/

theorem Findings.Complete.encapsulates (complete : f.Complete p) (listed : .expr e ∈ p.subtrees)
    {owner : Nat} (refers : f.resolution e.id = some d) (declares : d.owner? = some owner) :
    ∃ m, p.member? d = some m ∧ f.Encapsulates p e owner m := by
  cases complete.certifies e listed with
  | blank unreferred _ => cases refers.symm.trans unreferred
  | named _ _ _ names =>
    cases refers.symm.trans names
    cases declares
  | judged program stands _ _ judged =>
    subst program
    rw [refers] at judged
    obtain ⟨m, declared, admits⟩ := judged.admits declares
    exact ⟨m, declared, admits.encapsulates stands⟩

/-- Every node that refers to a field or method of a class is an expression that may use it there: in
the class if the member is private, in a class that inherits it if it is protected, without an instance
only if it is static, and with the instance around if it is one of instances and reached by its bare
name. -/
theorem Source.encapsulated {source : Source} (settings : Settings) {p : Program}
    (parsed : source.parse Parser.program = .ok p) {id owner : Nat} {d : Decl}
    (refers : (p.analyze settings).state.findings.resolution id = some d)
    (declares : d.owner? = some owner) :
    ∃ e ∈ p.exprs, e.id = id ∧ ∃ m, p.member? d = some m ∧
      (p.analyze settings).state.findings.Encapsulates p e owner m := by
  have distinct : Distinct p.nodes := source.parse_program_nodup parsed
  obtain ⟨e, listed, rfl⟩ := (p.analyze_counted settings distinct).2 id d refers
  refine ⟨e, List.mem_filterMap.2 ⟨_, listed, rfl⟩, rfl, ?_⟩
  exact (p.analyze_complete settings distinct).encapsulates listed refers declares

/-- A private field used by a method of its class, and a protected method used by a subclass. -/
def guardedMembers : Source :=
  ⟨"class A \x7b private integer count := 1; protected integer get() \x7b return count; \x7d \x7d " ++
    "class B extends A \x7b public integer twice() \x7b return get() + get(); \x7d \x7d", none⟩

theorem guardedMembers_encapsulated : ∃ p, guardedMembers.parse Parser.program = .ok p ∧
    (∃ e ∈ p.exprs, (p.analyze ⟨true, true⟩).state.findings.resolution e.id = some (.field 0 0) ∧
      p.LiesIn 0 e) ∧
    ∃ e ∈ p.exprs, (p.analyze ⟨true, true⟩).state.findings.resolution e.id = some (.method 0 0) ∧
      ∃ i, p.LiesIn i e ∧ (p.analyze ⟨true, true⟩).state.findings.Inherits i 0 := by
  have run : (guardedMembers.parse Parser.program).toOption.map (fun p =>
        let refers := p.exprs.map fun e => (p.analyze ⟨true, true⟩).state.findings.resolution e.id
        (refers.contains (some (.field 0 0)), p.member? (.field 0 0),
          refers.contains (some (.method 0 0)), p.member? (.method 0 0))) =
      some (true, some ⟨.private, false⟩, true, some ⟨.protected, false⟩) := by
    decide +kernel
  obtain ⟨p, parsed, views⟩ := Option.map_eq_some_iff.1 run
  simp only [Prod.mk.injEq, List.contains_iff_mem, List.mem_map] at views
  obtain ⟨⟨use, _, field⟩, isPrivate, ⟨call, _, method⟩, isProtected⟩ := views
  have parsed := ok_of_toOption parsed
  obtain ⟨e, listed, same, _, declared, own⟩ := Source.encapsulated ⟨true, true⟩ parsed field rfl
  obtain ⟨e', listed', same', _, declared', inherited⟩ :=
    Source.encapsulated ⟨true, true⟩ parsed method rfl
  cases isPrivate.symm.trans declared
  cases isProtected.symm.trans declared'
  exact ⟨p, parsed, ⟨e, listed, same ▸ field, own.ofPrivate rfl⟩,
    ⟨e', listed', same' ▸ method, inherited.ofProtected rfl⟩⟩

end ClassLang
