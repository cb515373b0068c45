import ClassLang.Proofs.Checking.Certificates

/-!
Members that a class inherits, seen from an instance of it: the type parameters of each class on the
way are replaced by the arguments in the extends clause below it, and those of the class of the
instance by its own arguments.

* `Source.inherited_types`: fields and methods have these types wherever they are used.
-/

namespace ClassLang

variable {p : Program} {f : Findings}

/-! ## Lines of classes -/

/-- A class with arguments for its type parameters. -/
structure Applied where
  index : Nat
  args : List Ty

/-- A class is linked to another, to which its extends clause gives these arguments. -/
def Findings.Leads (p : Program) (f : Findings) (a b : Applied) : Prop :=
  ∃ link written type, f.superclass? a.index = some link ∧
    (p.classAt a.index).superclass = some written ∧ f.typeOf written.id = some type ∧
      b = ⟨link.superclass, type.classArgs⟩

/-- A type in the last class of a line, seen from where the arguments of the first are written: the
type parameters of each class are replaced by its arguments, those of the last class first. -/
def Program.seenThrough (p : Program) : List Applied → Ty → Ty
  | [], t => t
  | a :: above, t => (p.seenThrough above t).replacing (p.classAt a.index).params a.args

/-- No class has two type parameters of one name. -/
def Program.DistinctParams (p : Program) : Prop := ∀ c ∈ p.classes, c.params.Nodup

theorem Program.DistinctParams.classAt (distinct : p.DistinctParams) (i : Nat) :
    (p.classAt i).params.Nodup := by
  by_cases listed : i ∈ p.classIndices
  · exact distinct _ (classAt_mem listed)
  · rw [classAt_of_not_mem listed]
    exact List.nodup_nil

theorem Program.DistinctParams.apply_argsOf (distinct : p.DistinctParams) (owner : Nat) (type t : Ty) :
    (p.argsOf owner type).apply t = t.replacing (p.classAt owner).params type.classArgs := by
  rw [argsOf_eq]
  exact Substitution.apply_ofArgs (distinct.classAt owner) type.classArgs t

section Lines

variable (complete : f.Complete p) (distinct : p.DistinctParams)
include complete

/-- A link leads to the class that the extends clause denotes, with its arguments. -/
theorem Findings.Leads.link {a b : Applied} (leads : f.Leads p a b) :
    ∃ written type, (p.classAt a.index).superclass = some written ∧
      f.cached written.id = some (.ok type) ∧ p.classOf? type = some b.index ∧
        b.args = type.classArgs ∧
          f.superclass? a.index = some ⟨b.index, p.argsOf b.index type⟩ := by
  obtain ⟨link, written, type, linked, clause, known, rfl⟩ := leads
  obtain ⟨written', type', clause', known', class_, args⟩ := complete.links _ _ linked
  cases clause.symm.trans clause'
  cases (complete.tidy.cached.2 known').symm.trans known
  refine ⟨written, type, clause, known', class_, rfl, ?_⟩
  rw [linked, ← args]

include distinct

/-- The walk up the superclasses of a class follows each line from there. -/
theorem Findings.lineFrom_of_leads {a top : Applied} {above : List Applied}
    (leads : List.IsChain (f.Leads p) (a :: above)) (ends : (a :: above).getLast? = some top)
    (last : Ancestor) (same : last.index = a.index) : ∃ before here after,
      f.lineFrom last = before ++ here :: after ∧
        before.map Ancestor.index = (a :: above).dropLast.map Applied.index ∧
          here.index = top.index ∧
            ∀ t, here.args.apply t = last.args.apply (p.seenThrough above t) := by
  induction above generalizing a last with
  | nil =>
    cases ends
    exact ⟨[], last, _, rfl, rfl, same, fun _ => rfl⟩
  | cons b above ih =>
    obtain ⟨first, leads⟩ := List.isChain_cons_cons.1 leads
    obtain ⟨_, type, _, _, _, args, linked⟩ := first.link complete
    rw [← same] at linked
    rw [List.getLast?_cons_cons] at ends
    obtain ⟨before, here, after, line, indices, last_, view⟩ :=
      ih leads ends ⟨b.index, (p.argsOf b.index type).andThen last.args⟩ rfl
    refine ⟨last :: before, here, after, ?_, ?_, last_, fun t => ?_⟩
    · rw [lineFrom_linked complete.chained linked, line]
      rfl
    · rw [List.dropLast_cons_cons, List.map_cons, List.map_cons, indices, same]
    · rw [view, Substitution.apply_andThen, distinct.apply_argsOf, Program.seenThrough, args]

variable {receiver : Ty} {owner : Nat} {line : List Applied} {top : Applied}
  (starts : line.head? = some ⟨owner, receiver.classArgs⟩) (leads : line.IsChain (f.Leads p))
  (ends : line.getLast? = some top)
include starts leads ends

/-- In the chain of a class stands each class above it, with what stands for its type parameters. -/
theorem Findings.chain_of_leads : ∃ before here after, f.chain owner = before ++ here :: after ∧
    before.map Ancestor.index = line.dropLast.map Applied.index ∧ here.index = top.index ∧
      ∀ t, (here.args.andThen (p.argsOf owner receiver)).apply t = p.seenThrough line t := by
  obtain ⟨above, rfl⟩ := List.head?_eq_some_iff.1 starts
  obtain ⟨before, here, after, walk, indices, last_, view⟩ :=
    lineFrom_of_leads complete distinct leads ends ⟨owner, .empty⟩ rfl
  refine ⟨before, here, after, (chain_eq complete.chained owner).trans walk, indices, last_,
    fun t => ?_⟩
  rw [Substitution.apply_andThen, view, Substitution.apply_empty, distinct.apply_argsOf,
    Program.seenThrough]

/-! ## Lookups -/

/-- The field that is found is the one of the nearest class that declares the name. -/
theorem Program.findField?_of_leads {name : String} {index : Nat} {field : Field} {t : Ty}
    (nearest : ∀ a ∈ line.dropLast, (p.classAt a.index).fieldIndex? name = none)
    (declared : (p.classAt top.index).fieldIndex? name = some index)
    (here : (p.classAt top.index).fields[index]? = some field)
    (known : f.typeOf field.type.id = some t) :
    p.findField? f owner name (p.argsOf owner receiver) =
      some ⟨top.index, index, field, .ok (p.seenThrough line t)⟩ := by
  obtain ⟨before, a, after, walk, indices, same, view⟩ :=
    Findings.chain_of_leads complete distinct starts leads ends
  have passed : ∀ b ∈ before, (p.classAt b.index).fieldIndex? name = none := by
    intro b listed
    have inLine := List.mem_map_of_mem (f := Ancestor.index) listed
    rw [indices] at inLine
    obtain ⟨c, below, same⟩ := List.mem_map.1 inLine
    exact same ▸ nearest c below
  have cached := complete.tidy.cached.1 known
  rw [findField?, walk, List.findSome?_append, List.findSome?_eq_none_iff.2, Option.none_or,
    List.findSome?_cons]
  · simp only [same, declared, here, cached, Option.bind_eq_bind, Option.bind_some, Option.pure_def,
      Except.map, view]
  · intro b listed
    simp [passed b listed]

theorem Program.findMethods_of_leads {name : String} {m : FoundMethod}
    (found : m ∈ p.findMethods f owner name (p.argsOf owner receiver))
    (declares : m.owner = top.index) (t : Ty) : m.args.apply t = p.seenThrough line t := by
  obtain ⟨before, here, after, walk, _, same, view⟩ :=
    Findings.chain_of_leads complete distinct starts leads ends
  obtain ⟨a, listed, owns, _, _, args⟩ := mem_findMethods.1 found
  have inChain : here ∈ f.chain owner := walk ▸ List.mem_append_cons_self
  have unique : a = here := List.inj_on_of_nodup_map (Findings.chain_nodup complete.chained owner)
    listed inChain (by rw [owns, declares, same])
  rw [args, unique, view]

/-- A sound method of the last class of a line has its types as seen through the line. -/
theorem Candidate.signature_of_leads {name : String} {c : Candidate} {found : FoundMethod}
    (searched : found ∈ p.findMethods f owner name (p.argsOf owner receiver))
    (decl : c.decl = .method found.owner found.index)
    (through : f.signatureThrough? found.method.params found.method.returnType found.args =
      some c.signature) {j : Nat} (declares : c.decl = .method top.index j) {m : Method}
    (here : (p.classAt top.index).methods[j]? = some m) {types : List Ty} {result : Ty}
    (sound : f.signature? m = some (types, result)) :
    c.signature = .ok (types.map (p.seenThrough line), p.seenThrough line result) := by
  obtain ⟨owns, rfl⟩ := Decl.method.inj (decl.symm.trans declares)
  have method := Program.findMethods_declared searched
  rw [owns, here] at method
  cases method
  have view := Program.findMethods_of_leads complete distinct starts leads ends searched owns
  rw [Findings.signatureThrough?_of_sound complete.tidy sound] at through
  rw [← Option.some.inj through, view, List.map_congr_left fun t _ => view t]

end Lines

/-! ## Type parameters -/

theorem Ty.Formed.replacing {params : String → Prop} (distinct : p.DistinctParams) {type t : Ty}
    {owner : Nat} (args : type.Formed p.Takes params) (class_ : p.classOf? type = some owner)
    (formed : t.Formed p.Takes (· ∈ (p.classAt owner).params)) :
    (t.replacing (p.classAt owner).params type.classArgs).Formed p.Takes params := by
  rw [← distinct.apply_argsOf]
  exact (Program.argsOf_forms args class_).apply formed

section Formed

variable (complete : f.Complete p) (distinct : p.DistinctParams)
include complete distinct

theorem Program.seenThrough_formed {a top : Applied} {above : List Applied}
    (leads : List.IsChain (f.Leads p) (a :: above)) (ends : (a :: above).getLast? = some top) {t : Ty}
    (formed : t.Formed p.Takes (· ∈ (p.classAt top.index).params)) :
    (p.seenThrough above t).Formed p.Takes (· ∈ (p.classAt a.index).params) := by
  induction above generalizing a with
  | nil =>
    cases ends
    exact formed
  | cons b above ih =>
    obtain ⟨first, leads⟩ := List.isChain_cons_cons.1 leads
    rw [List.getLast?_cons_cons] at ends
    obtain ⟨written, type, clause, known, class_, args, _⟩ := first.link complete
    rw [seenThrough, args]
    exact .replacing distinct (complete.types.forms_clause clause known _ rfl) class_ (ih leads ends)

/-- Through arguments without type parameters every type is seen without. -/
theorem Program.seenThrough_concrete {line : List Applied} {top : Applied} {receiver : Ty}
    {owner : Nat} (saturated : receiver.Saturated p.Takes) (class_ : p.classOf? receiver = some owner)
    (starts : line.head? = some ⟨owner, receiver.classArgs⟩) (leads : line.IsChain (f.Leads p))
    (ends : line.getLast? = some top) (concrete : Ty.allConcrete receiver.classArgs = true) {t : Ty}
    (formed : t.Formed p.Takes (· ∈ (p.classAt top.index).params)) :
    (p.seenThrough line t).isConcrete = true := by
  obtain ⟨above, rfl⟩ := List.head?_eq_some_iff.1 starts
  have whole : receiver.Formed p.Takes fun _ => False := by
    refine (Ty.formed_none _).2 ⟨saturated, ?_⟩
    cases receiver with
    | plainClass _ _ => rfl
    | genericClass _ _ _ => exact concrete
    | _ => cases class_
  exact ((Ty.formed_none _).1
    (.replacing distinct whole class_ (seenThrough_formed complete distinct leads ends formed))).2

end Formed

/-! ## Uses -/

theorem Receives.of_value {scope : Scope} {target : Expr} {access : MemberAccess}
    {from_ : Receiver} {receiver : Ty} {owner : Nat} (h : Receives scope f target access from_)
    (typed : f.cached target.id = some (.ok receiver))
    (value : ∀ i, f.resolution target.id ≠ some (.class i))
    (class_ : scope.program.classOf? receiver = some owner) :
    from_ = .instance owner (scope.program.argsOf owner receiver) receiver.mods := by
  cases h with
  | static _ refers => exact absurd refers (value _)
  | «instance» _ known _ receives =>
    cases known.symm.trans typed
    obtain ⟨owner', class', rfl⟩ := Scope.instanceReceiver_ok receives
    cases class_.symm.trans class'
    rfl

section Uses

variable (complete : f.Complete p) (distinct : p.DistinctParams) {target : Expr} {receiver : Ty}
  {owner : Nat} {line : List Applied} {top : Applied}
  (class_ : p.classOf? receiver = some owner)
  (starts : line.head? = some ⟨owner, receiver.classArgs⟩) (leads : line.IsChain (f.Leads p))
  (ends : line.getLast? = some top)
include complete distinct class_ starts leads ends

/-- An access to a field of an instance either refers to the nearest field of the name and has its type,
or it has no type. -/
theorem Findings.Complete.accessed {n : Node} {access : MemberAccess} {name : Ident}
    (typed : f.typeOf target.id = some receiver)
    (value : ∀ i, f.resolution target.id ≠ some (.class i))
    (listed : .expr (.member n target access name) ∈ p.subtrees) {index : Nat} {field : Field}
    {t : Ty} (nearest : ∀ a ∈ line.dropLast, (p.classAt a.index).fieldIndex? name.name = none)
    (declared : (p.classAt top.index).fieldIndex? name.name = some index)
    (here : (p.classAt top.index).fields[index]? = some field)
    (known : f.typeOf field.type.id = some t) (accessed : Ty) :
    f.typeOf n.id = some accessed ↔ f.resolution n.id = some (.field top.index index) ∧
      accessed = (p.seenThrough line t).constIf receiver.isConst := by
  have located := Program.findField?_of_leads complete distinct starts leads ends nearest declared
    here known
  rw [complete.tidy.cached]
  cases complete.certifies _ listed with
  | blank unreferred untyped =>
    have unreferred : f.resolution n.id = none := unreferred
    have untyped : f.cached n.id ≠ some (.ok accessed) := untyped accessed
    simp [unreferred, untyped]
  | named _ named => cases named
  | @judged scope r program _ _ cached judged =>
    subst program
    have cached : f.cached n.id = some r := cached
    change Judged scope f _ (f.resolution n.id) r at judged
    generalize f.resolution n.id = decl at judged ⊢
    rw [cached]
    cases judged with
    | fault => simp
    | @member _ _ _ _ from_ found receives member =>
      rw [receives.of_value (complete.tidy.cached.1 typed) value class_] at member ⊢
      cases located.symm.trans (Scope.memberOf_found member)
      simp [FoundField.decl, Except.map, Receiver.isConst, Ty.isConst, eq_comm]

/-- What a method of an instance offers to a call. -/
theorem Findings.Complete.candidate {scope : Scope} (program : scope.program = p)
    {access : MemberAccess} {name : Ident} {from_ : Receiver} {callee : Callee}
    (receives : scope.instanceReceiver target access receiver = .ok from_)
    (found : scope.calleeOf f from_ name = .ok callee) {c : Candidate} (listed : c ∈ callee.candidates)
    {j : Nat} (declares : c.decl = .method top.index j) {m : Method}
    (here : (p.classAt top.index).methods[j]? = some m) {types : List Ty} {result : Ty}
    (sound : f.signature? m = some (types, result)) :
    c.signature = .ok (types.map (p.seenThrough line), p.seenThrough line result) := by
  subst program
  obtain ⟨owner', class', rfl⟩ := Scope.instanceReceiver_ok receives
  cases class_.symm.trans class'
  rw [Scope.calleeOf_candidates found] at listed
  obtain ⟨_, searched, decl, through⟩ := Scope.mem_candidates _ listed
  exact Candidate.signature_of_leads complete distinct starts leads ends searched decl through
    declares here sound

/-- A call that means a method of an instance has its return type and takes its parameter types. -/
theorem Findings.Complete.called (typed : f.typeOf target.id = some receiver)
    (value : ∀ i, f.resolution target.id ≠ some (.class i)) {n n' : Node} {access : MemberAccess}
    {name : Ident} {args : List Expr}
    (listed : .expr (.call n (.member n' target access name) args) ∈ p.subtrees) {j : Nat}
    (refers : f.resolution n.id = some (.method top.index j)) {m : Method}
    (here : (p.classAt top.index).methods[j]? = some m) {types : List Ty} {result : Ty}
    (sound : f.signature? m = some (types, result)) :
    f.typeOf n.id = some (p.seenThrough line result) ∧ ∃ given,
      List.Forall₂ (fun (arg : Expr) type => f.typeOf arg.id = some type) args given ∧
        acceptsAll (types.map (p.seenThrough line)) (operands args given) = true := by
  rw [complete.tidy.cached]
  cases complete.certifies _ listed with
  | blank unreferred _ => cases refers.symm.trans unreferred
  | named _ named => cases named
  | @judged scope r program _ _ cached judged =>
    subst program
    have cached : f.cached n.id = some r := cached
    change Judged scope f _ (f.resolution n.id) r at judged
    rw [refers] at judged
    rw [cached]
    cases judged with
    | @call _ _ _ _ given _ type means _ known chosen =>
      obtain ⟨c, candidate, taken⟩ := List.exists_of_findSome?_eq_some chosen
      obtain ⟨params, signature, accepted, decl⟩ := Candidate.take?_some taken
      obtain ⟨from_, receives, found, searched, declares, through⟩ := means.ofMember candidate
      rw [receives.of_value (complete.tidy.cached.1 typed) value class_] at searched
      have same := Candidate.signature_of_leads complete distinct starts leads ends searched declares
        through decl here sound
      cases signature.symm.trans same
      exact ⟨rfl, given, known.imp fun _ _ => complete.tidy.cached.2, accepted⟩

end Uses

/-- A member that a class inherits, used through an instance, has its declared types as seen through the
extends clauses on the way and the arguments of the instance. If those name no type parameter, neither
do the types of the member. -/
theorem Source.inherited_types {source : Source} {p : Program} (settings : Settings)
    (parsed : source.parse Parser.program = .ok p) (distinct : p.DistinctParams) {f : Findings}
    (final : (p.analyze settings).state.findings = f) {target : Expr} {receiver : Ty} {owner : Nat}
    (typed : f.typeOf target.id = some receiver) (class_ : p.classOf? receiver = some owner)
    (value : ∀ i, f.resolution target.id ≠ some (.class i)) {line : List Applied} {top : Applied}
    (starts : line.head? = some ⟨owner, receiver.classArgs⟩) (leads : line.IsChain (f.Leads p))
    (ends : line.getLast? = some top) :
    (∀ (n : Node) (access : MemberAccess) (name : Ident) (index : Nat) (field : Field) (t : Ty),
      .member n target access name ∈ p.exprs →
      (∀ a ∈ line.dropLast, (p.classAt a.index).fieldIndex? name.name = none) →
      (p.classAt top.index).fieldIndex? name.name = some index →
      (p.classAt top.index).fields[index]? = some field → f.typeOf field.type.id = some t →
        ∀ accessed, f.typeOf n.id = some accessed ↔
          f.resolution n.id = some (.field top.index index) ∧
            accessed = (p.seenThrough line t).constIf receiver.isConst) ∧
    (∀ (j : Nat) (m : Method) (types : List Ty) (result : Ty),
      (p.classAt top.index).methods[j]? = some m → f.signature? m = some (types, result) →
      (∀ (scope : Scope) (access : MemberAccess) (name : Ident) (from_ : Receiver) (callee : Callee),
        scope.program = p → scope.instanceReceiver target access receiver = .ok from_ →
        scope.calleeOf f from_ name = .ok callee →
          ∀ c ∈ callee.candidates, c.decl = .method top.index j →
            c.signature = .ok (types.map (p.seenThrough line), p.seenThrough line result)) ∧
      ∀ (n n' : Node) (access : MemberAccess) (name : Ident) (args : List Expr),
        .call n (.member n' target access name) args ∈ p.exprs →
        f.resolution n.id = some (.method top.index j) →
          f.typeOf n.id = some (p.seenThrough line result) ∧ ∃ given,
            List.Forall₂ (fun (arg : Expr) type => f.typeOf arg.id = some type) args given ∧
              acceptsAll (types.map (p.seenThrough line)) (operands args given) = true) ∧
    (Ty.allConcrete receiver.classArgs = true → ∀ t ∈ (p.classAt top.index).signature,
      ∀ type, f.typeOf t.id = some type → (p.seenThrough line type).isConcrete = true) := by
  have complete := p.analyze_complete settings (source.parse_program_nodup parsed)
  rw [final] at complete
  have subtree {e : Expr} (listed : e ∈ p.exprs) : .expr e ∈ p.subtrees := by
    obtain ⟨x, inside, isExpr⟩ := List.mem_filterMap.1 listed
    cases x <;> cases isExpr
    exact inside
  refine ⟨fun n access name index field t listed nearest declared here known accessed => ?_,
    fun j m types result here sound => ⟨?_, ?_⟩, fun concrete t written type known => ?_⟩
  · exact complete.accessed distinct class_ starts leads ends typed value (subtree listed) nearest
      declared here known accessed
  · intro scope access name from_ callee program receives found c candidate declares
    exact complete.candidate distinct class_ starts leads ends program receives found candidate
      declares here sound
  · intro n n' access name args listed refers
    exact complete.called distinct class_ starts leads ends typed value (subtree listed) refers here
      sound
  · exact Program.seenThrough_concrete complete distinct
      (complete.saturated (complete.tidy.cached.1 typed)) class_ starts leads ends concrete
      (complete.types.forms_signature written (complete.tidy.cached.1 known) _ rfl)

/-! ## Permuted names -/

theorem Findings.leads_of {a : Applied} {j : Nat} {args : List Ty}
    (linked : (f.superclass? a.index).map SuperclassLink.superclass = some j)
    (clause : ((p.classAt a.index).superclass.bind fun written => f.typeOf written.id).map
      Ty.classArgs = some args) : f.Leads p a ⟨j, args⟩ := by
  obtain ⟨link, found, rfl⟩ := Option.map_eq_some_iff.1 linked
  obtain ⟨type, denotes, rfl⟩ := Option.map_eq_some_iff.1 clause
  obtain ⟨written, extends_, known⟩ := Option.bind_eq_some_iff.1 denotes
  exact ⟨link, written, type, found, extends_, known, rfl⟩

def Expr.access? : Expr → Option (Node × Expr × MemberAccess × Ident)
  | .member n target access name => some (n, target, access, name)
  | _ => none

theorem Expr.of_access? {e target : Expr} {n : Node} {access : MemberAccess} {name : Ident}
    (found : e.access? = some (n, target, access, name)) : e = .member n target access name := by
  cases e <;> cases found
  rfl

/-- Classes that use the same names for their type parameters, each in another order. -/
def permutedParams : Source :=
  ⟨"class A[T, U] \x7b public T first; public U second; \x7d " ++
    "class B[U, T] extends A[array[T], U] \x7b \x7d class C[T, U] extends B[U, T] \x7b \x7d " ++
    "const C[string, boolean] c := new C[string, boolean]; c.first;", none⟩

theorem permutedParams_inherited_types : ∃ (p : Program) (n : Node) (target : Expr)
    (access : MemberAccess) (name : Ident), permutedParams.parse Parser.program = .ok p ∧
      p.DistinctParams ∧ .member n target access name ∈ p.exprs ∧ name.name = "first" ∧
      (p.analyze ⟨false, false⟩).state.findings.typeOf target.id =
        some (.genericClass ⟨true, false, false⟩ "C" [.primitive .none .string, .boolean]) ∧
      (p.analyze ⟨false, false⟩).state.findings.resolution n.id = some (.field 0 0) ∧
      (p.analyze ⟨false, false⟩).state.findings.typeOf n.id =
        some (.array ⟨true, false, false⟩ (.primitive .none .string)) := by
  have run : (permutedParams.parse Parser.program).toOption.bind (fun p =>
        let f := (p.analyze ⟨false, false⟩).state.findings
        (p.exprs.findSome? Expr.access?).map fun parts => decide
          (((∀ c ∈ p.classes, c.params.Nodup) ∧ p.theClass? "C" = some 2 ∧
            (p.classAt 2).params = ["T", "U"] ∧ (p.classAt 1).params = ["U", "T"] ∧
            (p.classAt 0).params = ["T", "U"]) ∧
          ((f.superclass? 2).map SuperclassLink.superclass = some 1 ∧
            ((p.classAt 2).superclass.bind fun written => f.typeOf written.id).map Ty.classArgs =
              some [.param .none "U", .param .none "T"] ∧
            (f.superclass? 1).map SuperclassLink.superclass = some 0 ∧
            ((p.classAt 1).superclass.bind fun written => f.typeOf written.id).map Ty.classArgs =
              some [.array .none (.param .none "T"), .param .none "U"]) ∧
          ((p.classAt 2).fieldIndex? "first" = none ∧ (p.classAt 1).fieldIndex? "first" = none ∧
            (p.classAt 0).fieldIndex? "first" = some 0 ∧
            ((p.classAt 0).fields[0]?.bind fun field => f.typeOf field.type.id) =
              some (.param .none "T")) ∧
          parts.2.2.2.name = "first" ∧ f.typeOf parts.2.1.id = some
            (.genericClass ⟨true, false, false⟩ "C" [.primitive .none .string, .boolean]) ∧
          f.resolution parts.2.1.id = none ∧ f.resolution parts.1.id = some (.field 0 0))) =
      some true := by
    decide +kernel
  obtain ⟨p, parsed, run⟩ := Option.bind_eq_some_iff.1 run
  obtain ⟨⟨n, target, access, name⟩, found, facts⟩ := Option.map_eq_some_iff.1 run
  obtain ⟨⟨distinct, theClass, ofC, ofB, ofA⟩, ⟨linkC, clauseC, linkB, clauseB⟩,
    ⟨notC, notB, inA, declared⟩, named, typed, value, refers⟩ := of_decide_eq_true facts
  obtain ⟨e, listed, isAccess⟩ := List.exists_of_findSome?_eq_some found
  cases Expr.of_access? isAccess
  have parsed := ok_of_toOption parsed
  obtain ⟨field, here, known⟩ := Option.bind_eq_some_iff.1 declared
  have leads : List.IsChain ((p.analyze ⟨false, false⟩).state.findings.Leads p)
      [⟨2, [.primitive .none .string, .boolean]⟩, ⟨1, [.param .none "U", .param .none "T"]⟩,
        ⟨0, [.array .none (.param .none "T"), .param .none "U"]⟩] :=
    .cons_cons (Findings.leads_of linkC clauseC)
      (.cons_cons (Findings.leads_of linkB clauseB) (.singleton _))
  have fields := (Source.inherited_types ⟨false, false⟩ parsed distinct rfl typed theClass
    (fun i => by rw [value]; nofun) (by rfl) leads rfl).1
  refine ⟨p, n, target, access, name, parsed, distinct, listed, named, typed, refers, ?_⟩
  refine (fields n access name 0 field _ listed ?_ ?_ here known _).2 ⟨refers, ?_⟩
  · rw [named]
    simp [notC, notB]
  · rw [named]
    exact inA
  · simp only [Program.seenThrough, ofC, ofB, ofA]
    decide

end ClassLang
