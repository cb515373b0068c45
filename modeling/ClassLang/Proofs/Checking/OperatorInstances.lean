import ClassLang.Proofs.Checking.Constness
import ClassLang.Proofs.Checking.OperatorResolution
import ClassLang.Proofs.Checking.PhaseHonesty
import ClassLang.Proofs.Types.Inference

/-!
Operator functions on the instances of a generic class. The type arguments are inferred from the
operands, which only shows them as copies: what is read-only or an alias in the type arguments, or
nullable where the class says so itself, has to be written in the signature of the function as well.

* `Source.operator_instances`: operator functions work on the instances of their class.
-/

namespace ClassLang

variable {p : Program} {f : Findings} {i : Nat} {types params : List Ty} {result : Ty}
  {args : List Operand}

/-- The type arguments of a class for the type parameters of a function that belongs to it. -/
def Program.assignment (p : Program) (i : Nat) (types : List Ty) : Substitution :=
  .ofArgs (p.ownerParams (p.functionAt i)) types

/-- A function has sound types, and operands have the types of its parameters in an instance of the
class that it belongs to. -/
structure Program.Instance (p : Program) (f : Findings) (i : Nat) (types params : List Ty) (result : Ty)
    (args : List Operand) : Prop where
  takes : f.paramTypes? (p.functionAt i).params = some params
  returns : f.typeOf (p.functionAt i).returnType.id = some result
  length : (p.ownerParams (p.functionAt i)).length = types.length
  declarable : ∀ t ∈ types, t.Declarable
  given : args.map Operand.type = params.map (p.assignment i types).apply

theorem acceptsAll_of_each {seen written : Ty → Ty}
    (each : ∀ t ∈ params, ∀ isPlace, (seen t).accepts (written t) isPlace = true)
    (given : args.map Operand.type = params.map written) :
    acceptsAll (params.map seen) args = true := by
  induction params generalizing args with
  | nil =>
    cases args with
    | nil => rfl
    | cons _ _ => cases given
  | cons t rest ih =>
    cases args with
    | nil => cases given
    | cons arg args =>
      obtain ⟨first, others⟩ := List.cons_eq_cons.1 given
      have later := ih (fun t listed => each t (List.mem_cons_of_mem _ listed)) others
      have here := each t (List.mem_cons_self ..) arg.isPlace
      rw [← first] at here
      simp_all [acceptsAll]

namespace Program.Instance

variable (on : p.Instance f i types params result args)
include on

/-- The function takes the operands if its signature restores what inference loses. -/
theorem operatorResult? (plain : ∀ t ∈ params, t.Declarable) (restored : ∀ t ∈ params,
    t.RestoresArgument ((p.assignment i types).lost (Ty.occurrencesAll params))) :
    ∃ type, p.operatorResult? f args i = some type ∧
      ((∀ name ∈ p.ownerParams (p.functionAt i), name ∈ (Ty.occurrencesAll params).map Prod.fst) →
        type = ((p.assignment i types).inferred (Ty.occurrencesAll params)).apply result) := by
  have covers : (p.assignment i types).Covers (p.ownerParams (p.functionAt i)) := .ofArgs on.length
  have assigned : (p.assignment i types).Declarable := .ofArgs on.declarable
  refine ⟨(Substitution.learnAll (p.ownerParams (p.functionAt i)) params
    (params.map (p.assignment i types).apply) .empty).apply result, ?_, fun occur => ?_⟩
  · have accepted : acceptsAll (params.map (Substitution.learnAll (p.ownerParams (p.functionAt i))
        params (params.map (p.assignment i types).apply) .empty).apply) args = true := by
      refine acceptsAll_of_each (fun t listed isPlace => ?_) on.given
      have seen (o : String × Modifiers) (inside : o ∈ t.occurrences) :
          o.1 ∈ (Ty.occurrencesAll params).map Prod.fst :=
        List.mem_map_of_mem (Ty.occurrences_subset listed inside)
      rw [Substitution.apply_learnAll covers params fun o inside _ => seen o inside]
      exact Substitution.accepts_inferred assigned (plain t listed) (restored t listed) isPlace
    simp only [Program.operatorResult?, on.takes, on.returns, on.given, Option.bind_eq_bind,
      Option.bind_some, Option.bind_eq_some_iff]
    exact ⟨(), (Option.guard_eq_some' ()).2 accepted, rfl⟩
  · exact Substitution.apply_learnAll covers params fun o _ own => occur o.1 own

end Program.Instance

theorem Findings.TypesDenoted.params_declarable (types_ : f.TypesDenoted p) (tidy : f.Tidy)
    (listed : i ∈ p.functionIndices) (takes : f.paramTypes? (p.functionAt i).params = some params) :
    ∀ t ∈ params, t.Declarable := by
  have known := (forall₂_of_mapM takes)
  intro t isParam
  obtain ⟨param, declared, typed⟩ := mem_of_forall₂ known t isParam
  have written : param.type ∈ (p.functionAt i).signature :=
    List.mem_append_left _ (List.mem_map_of_mem declared)
  exact (types_.declared (Program.stands_of_function listed written) (tidy.cached.1 typed)).1

theorem Program.findOperator?_first {op : Operator} {type : Ty}
    (named : i ∈ p.functionsNamed op.overloadName)
    (first : ∀ j ∈ p.functionsNamed op.overloadName, j < i → p.operatorResult? f args j = none)
    (found : p.operatorResult? f args i = some type) : p.findOperator? f op args = some (i, type) := by
  obtain ⟨before, after, split_⟩ := List.append_of_mem named
  have sorted : (p.functionsNamed op.overloadName).Pairwise (· < ·) := positions_sorted _ _
  rw [split_] at sorted first
  have earlier (j : Nat) (listed : j ∈ before) : p.operatorResult? f args j = none :=
    first j (List.mem_append_left _ listed)
      ((List.pairwise_append.1 sorted).2.2 j listed i (List.mem_cons_self ..))
  rw [findOperator?, split_, List.findSome?_append, List.findSome?_eq_none_iff.2 fun j listed => by
    rw [earlier j listed, Option.map_none]]
  simp [found]

/-- Operators refer to the function that is found for the types of their operands. -/
theorem Findings.Complete.operator_found (complete : f.Complete p) {e : Expr}
    (listed : .expr e ∈ p.subtrees) {op : Operator} (applies : e.operator? = some op) {given : List Ty}
    (known : List.Forall₂ (fun (x : Expr) t => f.typeOf x.id = some t) e.operands given)
    {decl : Decl} (refers : f.resolution e.id = some decl) :
    ∃ i type, p.findOperator? f op (operands e.operands given) = some (i, type) ∧
      decl = .function i ∧ f.typeOf e.id = some type := by
  cases complete.certifies e listed with
  | blank unreferred _ => cases refers.symm.trans unreferred
  | named _ named _ _ =>
    cases e with
    | ident _ _ => cases applies
    | _ => cases named
  | @judged scope r program _ _ recorded judged =>
    subst program
    rw [refers] at judged
    obtain ⟨given', i, type, known', found, same, rfl⟩ := judged.operator_found applies
    have unique : given = given' :=
      List.right_unique_forall₂' (fun _ _ _ first second => by cases first.symm.trans second; rfl)
        known (known'.imp fun _ _ cached => complete.tidy.cached.2 cached)
    exact ⟨i, type, unique ▸ found, same, complete.tidy.cached.2 recorded⟩

/-- An operator function works on the instances of its class, wherever its signature restores what
inference loses of the type arguments. -/
theorem Source.operator_instances {source : Source} {p : Program}
    (parsed : source.parse Parser.program = .ok p) {settings : Settings} {f : Findings}
    (analyzed : (p.analyze settings).state.findings = f) {op : Operator} {g : Function} {i : Nat}
    (declared : p.functions[i]? = some g) (applies : g.operator = some op)
    {types params : List Ty} {result : Ty} {args : List Operand}
    (on : p.Instance f i types params result args)
    (first : ∀ j ∈ p.functionsNamed op.overloadName, j < i → p.operatorResult? f args j = none)
    (restored : ∀ t ∈ params,
      t.RestoresArgument ((p.assignment i types).lost (Ty.occurrencesAll params))) :
    ∃ type, p.findOperator? f op args = some (i, type) ∧
      ((∀ name ∈ p.ownerParams g, name ∈ (Ty.occurrencesAll params).map Prod.fst) →
        type = ((p.assignment i types).inferred (Ty.occurrencesAll params)).apply result ∧
          (result.Restores ((p.assignment i types).lost (Ty.occurrencesAll params)) →
            type = (p.assignment i types).apply result)) ∧
      ∀ e ∈ p.exprs, e.operator? = some op → ∀ given,
        List.Forall₂ (fun (x : Expr) t => f.typeOf x.id = some t) e.operands given →
          operands e.operands given = args → ∀ decl, f.resolution e.id = some decl →
            decl = .function i ∧ f.typeOf e.id = some type := by
  have complete := p.analyze_complete settings (source.parse_program_nodup parsed)
  rw [analyzed] at complete
  have here : p.functionAt i = g := by
    rw [Program.functionAt, List.getD_eq_getElem?_getD, declared]
    rfl
  have named : i ∈ p.functionsNamed op.overloadName := by
    have written := source.functions_written parsed g (List.mem_of_getElem? declared)
    refine mem_positions.2 ⟨g, declared, beq_iff_eq.2 ?_⟩
    cases written with
    | free => cases applies
    | operator =>
      cases applies
      rfl
  have plain := complete.types.params_declarable complete.tidy (Program.mem_functionIndices named)
    on.takes
  obtain ⟨type, taken, seen⟩ := on.operatorResult? plain restored
  have found := Program.findOperator?_first named first taken
  rw [here] at seen
  refine ⟨type, found, fun occur => ⟨seen occur, fun whole => ?_⟩, ?_⟩
  · rw [seen occur, Substitution.apply_inferred whole]
  · intro e listed applied given known same decl refers
    obtain ⟨j, type', found', is, typed⟩ :=
      complete.operator_found (Program.mem_exprs.1 listed) applied known refers
    rw [same, found] at found'
    cases found'
    exact ⟨is, typed⟩

/-- Boxes that hold null, of a class that does not say so. -/
def nullableBoxes : Source :=
  ⟨"class Box[T] \x7b Box[T] operator +(Box[T] a, T b) \x7b return a; \x7d \x7d " ++
    "Box[nullable integer] x; nullable integer n; x := x + n;", none⟩

theorem nullableBoxes_operator_instances : ∃ p f, nullableBoxes.parse Parser.program = .ok p ∧
    (p.analyze ⟨true, true⟩).state.findings = f ∧ ∃ e ∈ p.exprs,
      f.resolution e.id = some (.function 0) ∧
        f.typeOf e.id = some (.genericClass .none "Box" [.primitive ⟨false, false, true⟩ .integer]) := by
  let integer : Ty := .primitive ⟨false, false, true⟩ .integer
  let box (t : Ty) : Ty := .genericClass .none "Box" [t]
  have run : (nullableBoxes.parse Parser.program).toOption.map (fun p =>
      let f := (p.analyze ⟨true, true⟩).state.findings
      ((p.functions.map Function.operator, p.ownerParams (p.functionAt 0)),
        (f.paramTypes? (p.functionAt 0).params, f.typeOf (p.functionAt 0).returnType.id),
        p.exprs.any fun e => e.operator? == some (.binary .add) && (f.resolution e.id).isSome &&
          e.operands.map (fun x => f.typeOf x.id) == [some (box integer), some integer])) =
      some (([some (.binary .add)], ["T"]),
        (some [box (.param .none "T"), .param .none "T"], some (box (.param .none "T"))), true) := by
    decide +kernel
  obtain ⟨p, parsed, views⟩ := Option.map_eq_some_iff.1 run
  simp only [Prod.mk.injEq, List.any_eq_true, Bool.and_eq_true, beq_iff_eq] at views
  obtain ⟨⟨operators, owned⟩, ⟨takes, returns⟩, e, listed, ⟨applied, refers⟩, known⟩ := views
  obtain ⟨g, functions, applies⟩ := List.map_eq_singleton_iff.1 operators
  obtain ⟨decl, refers⟩ := Option.isSome_iff_exists.1 refers
  have known : List.Forall₂ (fun (x : Expr) t => (p.analyze ⟨true, true⟩).state.findings.typeOf x.id =
      some t) e.operands [box integer, integer] := by
    have same : List.Forall₂ Eq (e.operands.map fun x =>
        (p.analyze ⟨true, true⟩).state.findings.typeOf x.id) ([box integer, integer].map some) :=
      known ▸ List.forall₂_refl _
    rwa [List.forall₂_map_left_iff, List.forall₂_map_right_iff] at same
  have assigned : p.assignment 0 [integer] = .ofArgs ["T"] [integer] := by rw [Program.assignment, owned]
  have on : p.Instance (p.analyze ⟨true, true⟩).state.findings 0 [integer]
      [box (.param .none "T"), .param .none "T"] (box (.param .none "T"))
      (operands e.operands [box integer, integer]) :=
    ⟨takes, returns, by rw [owned]; rfl, List.forall_mem_singleton.2 trivial, by
      rw [operands_types known, assigned]
      rfl⟩
  have parsed := ok_of_toOption parsed
  have declared : p.functions[0]? = some g := by rw [functions]; rfl
  have here : p.functionAt 0 = g := by rw [Program.functionAt, functions]; rfl
  obtain ⟨type, -, inferred, recorded⟩ := Source.operator_instances parsed rfl declared applies on
    (fun j _ below => absurd below (Nat.not_lt_zero j)) (by rw [assigned]; decide)
  obtain ⟨rfl, typed⟩ := recorded e listed applied _ known rfl decl refers
  have result := (inferred (by rw [← here, owned]; decide)).2 (by rw [assigned]; decide)
  refine ⟨p, _, parsed, rfl, e, listed, refers, ?_⟩
  rw [typed, result, assigned]
  rfl

/-- A class of boxes one of whose operators says that they hold null. -/
def modifiedBoxes : Source :=
  ⟨"class Box[T] \x7b Box[T] operator +(Box[T] a, Box[T] b) \x7b return a; \x7d " ++
    "T operator -(Box[nullable T] a) \x7b T x; return x; \x7d \x7d", none⟩

/-- Boxes of what is read-only are not added. The negation of a box that holds null takes it for a box of
what is not nullable, and its result is not that of the instance. -/
theorem modifiedBoxes_misread : ∃ p f, modifiedBoxes.parse Parser.program = .ok p ∧
    (p.analyze ⟨true, true⟩).state.findings = f ∧
    let box (t : Ty) : Ty := .genericClass .none "Box" [t]
    let constant : Ty := .primitive ⟨true, false, false⟩ .integer
    let nullable : Ty := .primitive ⟨false, false, true⟩ .integer
    (p.Instance f 0 [constant] [box (.param .none "T"), box (.param .none "T")]
        (box (.param .none "T")) [⟨box constant, true⟩, ⟨box constant, true⟩] ∧
      p.functionsNamed (Operator.binary .add).overloadName = [0] ∧
      p.findOperator? f (.binary .add) [⟨box constant, true⟩, ⟨box constant, true⟩] = none) ∧
    p.Instance f 1 [nullable] [box (.param ⟨false, false, true⟩ "T")] (.param .none "T")
        [⟨box nullable, true⟩] ∧
      p.functionsNamed (Operator.unary .neg).overloadName = [1] ∧
      p.findOperator? f (.unary .neg) [⟨box nullable, true⟩] = some (1, .primitive .none .integer) ∧
      (p.assignment 1 [nullable]).apply (.param .none "T") = nullable := by
  let box (t : Ty) : Ty := .genericClass .none "Box" [t]
  let constant : Ty := .primitive ⟨true, false, false⟩ .integer
  let nullable : Ty := .primitive ⟨false, false, true⟩ .integer
  have run : (modifiedBoxes.parse Parser.program).toOption.map (fun p =>
      let f := (p.analyze ⟨true, true⟩).state.findings
      ((p.ownerParams (p.functionAt 0) == ["T"] &&
          f.paramTypes? (p.functionAt 0).params ==
            some [box (.param .none "T"), box (.param .none "T")] &&
          f.typeOf (p.functionAt 0).returnType.id == some (box (.param .none "T")) &&
          p.functionsNamed (Operator.binary .add).overloadName == [0] &&
          p.findOperator? f (.binary .add) [⟨box constant, true⟩, ⟨box constant, true⟩] == none),
        p.ownerParams (p.functionAt 1) == ["T"] &&
          f.paramTypes? (p.functionAt 1).params == some [box (.param ⟨false, false, true⟩ "T")] &&
          f.typeOf (p.functionAt 1).returnType.id == some (.param .none "T") &&
          p.functionsNamed (Operator.unary .neg).overloadName == [1] &&
          p.findOperator? f (.unary .neg) [⟨box nullable, true⟩] ==
            some (1, .primitive .none .integer))) =
      some (true, true) := by
    decide +kernel
  obtain ⟨p, parsed, views⟩ := Option.map_eq_some_iff.1 run
  simp only [Prod.mk.injEq, Bool.and_eq_true, beq_iff_eq] at views
  obtain ⟨⟨⟨⟨⟨owned, takes⟩, returns⟩, only⟩, refused⟩,
    ⟨⟨⟨owned', takes'⟩, returns'⟩, only'⟩, taken⟩ := views
  have assigned : p.assignment 0 [constant] = .ofArgs ["T"] [constant] := by
    rw [Program.assignment, owned]
  have assigned' : p.assignment 1 [nullable] = .ofArgs ["T"] [nullable] := by
    rw [Program.assignment, owned']
  refine ⟨p, _, ok_of_toOption parsed, rfl, ⟨⟨takes, returns, ?_, ?_, ?_⟩, only, refused⟩,
    ⟨takes', returns', ?_, ?_, ?_⟩, only', taken, ?_⟩
  · rw [owned]
    rfl
  · exact List.forall_mem_singleton.2 trivial
  · rw [assigned]
    rfl
  · rw [owned']
    rfl
  · exact List.forall_mem_singleton.2 trivial
  · rw [assigned']
    rfl
  · rw [assigned']
    rfl

end ClassLang
