import ClassLang.Proofs.Checking.Certificates
import ClassLang.Proofs.Parsing.Grammar
import ClassLang.Proofs.Parsing.Numbering

/-!
Which functions operators and calls refer to. Both are found by name among all functions. A call is
only given those that are no operator functions; an operator is given whatever has its name, which
is an operator function for it, or a free function that has been called like one.

* `Source.operators_resolve`: there are no other cases.
-/

namespace ClassLang

/-! ## Names of operators -/

namespace Operator

/-- All operators. -/
def all : List Operator := BinaryOp.all.map binary ++ UnaryOp.all.map unary ++ [index]

theorem mem_every (op : Operator) : op ∈ all := by
  cases op with
  | binary op => simp [all, BinaryOp.mem_all]
  | unary op => simp [all, UnaryOp.mem_all]
  | index => simp [all]

theorem overloadName_injective {a b : Operator} (h : a.overloadName = b.overloadName) : a = b := by
  have distinct : (all.map overloadName).Nodup := by decide
  exact List.inj_on_of_nodup_map distinct a.mem_every b.mem_every h

end Operator

/-- A function with the name of an operator that has been declared for an operator has been declared
for that one. -/
theorem Function.Written.operator_of_name {g : Function} (written : g.Written) {op : Operator}
    (named : g.name.name = op.overloadName) : g.operator = some op ∨ g.operator = none := by
  cases written with
  | free => exact .inr rfl
  | operator => exact .inl (congrArg some (Operator.overloadName_injective named))

/-! ## Expressions -/

/-- The operator that an expression applies. -/
def Expr.operator? : Expr → Option Operator
  | .binary _ op _ _ => some (.binary op)
  | .unary _ op _ => some (.unary op)
  | .index .. => some .index
  | _ => none

variable {p : Program} {f : Findings} {scope : Scope} {i : Nat}

theorem Program.findOperator?_named {op : Operator} {args : List Operand} {type : Ty}
    (found : p.findOperator? f op args = some (i, type)) :
    ∃ g, p.functions[i]? = some g ∧ g.name.name = op.overloadName := by
  obtain ⟨j, named, taken⟩ := List.exists_of_findSome?_eq_some found
  obtain ⟨_, _, same⟩ := Option.map_eq_some_iff.1 taken
  cases same
  obtain ⟨g, here, is⟩ := mem_positions.1 named
  exact ⟨g, here, by simpa using is⟩

theorem Program.functionCandidates_plain {c : Candidate} {name : String}
    (listed : c ∈ p.functionCandidates f name) :
    ∃ j g, c.decl = .function j ∧ p.functions[j]? = some g ∧ g.operator = none := by
  obtain ⟨j, usable, candidate⟩ := List.mem_filterMap.1 listed
  obtain ⟨_, _, rfl⟩ := Option.map_eq_some_iff.1 candidate
  obtain ⟨named, plain⟩ := List.mem_filter.1 usable
  obtain ⟨g, here, _⟩ := mem_positions.1 named
  refine ⟨j, g, rfl, here, ?_⟩
  rw [functionAt, List.getD_eq_getElem?_getD, here] at plain
  simpa using plain

theorem Means.plain {callee : Expr} {meaning : Callee} {c : Candidate}
    (means : Means scope f callee meaning) (listed : c ∈ meaning.candidates)
    (decl : c.decl = .function i) : ∃ g, scope.program.functions[i]? = some g ∧ g.operator = none := by
  cases means with
  | named found =>
    rw [Scope.calleeNamed_candidates found] at listed
    rcases List.mem_append.1 listed with method | function
    · cases here : scope.selfClass with
      | none =>
        rw [here] at method
        cases method
      | some owner =>
        rw [here] at method
        obtain ⟨_, _, isMethod, _⟩ := Scope.mem_candidates _ method
        cases decl.symm.trans isMethod
    · obtain ⟨j, g, isFunction, here, plain⟩ := Program.functionCandidates_plain function
      cases decl.symm.trans isFunction
      exact ⟨g, here, plain⟩
  | @member _ _ _ _ from_ _ _ found =>
    rw [Scope.calleeOf_candidates found] at listed
    obtain ⟨_, _, isMethod, _⟩ := Scope.mem_candidates from_.hasInstance listed
    cases decl.symm.trans isMethod

/-- What an operator refers to is the function that is found for the types of its operands. -/
theorem Judged.operator_found {e : Expr} {op : Operator} {decl : Decl} {r : Resolved}
    (judged : Judged scope f e (some decl) r) (applies : e.operator? = some op) :
    ∃ given i type, List.Forall₂ (fun (x : Expr) t => f.cached x.id = some (.ok t)) e.operands given ∧
      scope.program.findOperator? f op (ClassLang.operands e.operands given) = some (i, type) ∧
        decl = .function i ∧ r = .ok type := by
  generalize refers : some decl = refer at judged
  cases judged with
  | binaryFunction left right _ found | indexFunction left right _ found =>
    cases refers
    cases applies
    exact ⟨_, _, _, .cons left (.cons right .nil), found, rfl, rfl⟩
  | unaryFunction _ _ known _ found =>
    cases refers
    cases applies
    exact ⟨_, _, _, .cons known .nil, found, rfl, rfl⟩
  | field | member | call => cases applies
  | _ => cases refers

theorem Judged.operator_named {e : Expr} {op : Operator} {r : Resolved}
    (judged : Judged scope f e (some (.function i)) r) (applies : e.operator? = some op) :
    ∃ g, scope.program.functions[i]? = some g ∧ g.name.name = op.overloadName := by
  obtain ⟨_, _, _, _, found, same, _⟩ := judged.operator_found applies
  cases same
  exact Program.findOperator?_named found

theorem Judged.call_plain {n : Node} {callee : Expr} {args : List Expr} {r : Resolved}
    (judged : Judged scope f (.call n callee args) (some (.function i)) r) :
    ∃ g, scope.program.functions[i]? = some g ∧ g.operator = none := by
  cases judged with
  | call means _ _ chosen =>
    obtain ⟨c, listed, taken⟩ := List.exists_of_findSome?_eq_some chosen
    obtain ⟨_, _, _, decl⟩ := Candidate.take?_some taken
    exact means.plain listed decl

namespace Findings.Complete

variable (complete : f.Complete p)
include complete

theorem judged_of_function {e : Expr} (listed : .expr e ∈ p.subtrees)
    (refers : f.resolution e.id = some (.function i)) :
    ∃ scope r, scope.program = p ∧ Judged scope f e (some (.function i)) r := by
  cases complete.certifies e listed with
  | blank unreferred _ => cases refers.symm.trans unreferred
  | judged same _ _ _ judged => exact ⟨_, _, same, refers ▸ judged⟩
  | named _ _ _ named => cases refers.symm.trans named

theorem operator_named {e : Expr} {op : Operator} (listed : .expr e ∈ p.subtrees)
    (applies : e.operator? = some op) (refers : f.resolution e.id = some (.function i)) :
    ∃ g, p.functions[i]? = some g ∧ g.name.name = op.overloadName := by
  obtain ⟨_, _, rfl, judged⟩ := complete.judged_of_function listed refers
  exact judged.operator_named applies

theorem call_plain {n : Node} {callee : Expr} {args : List Expr}
    (listed : .expr (.call n callee args) ∈ p.subtrees)
    (refers : f.resolution n.id = some (.function i)) :
    ∃ g, p.functions[i]? = some g ∧ g.operator = none := by
  obtain ⟨_, _, rfl, judged⟩ := complete.judged_of_function listed refers
  exact judged.call_plain

end Findings.Complete

/-! ## Programs -/

/-- What an operator refers to has been declared for it, or is a free function with the name of its
overloads. What a call refers to is no operator function. -/
theorem Source.operators_resolve {source : Source} {p : Program}
    (parsed : source.parse Parser.program = .ok p) (settings : Settings) :
    (∀ e ∈ p.exprs, ∀ op i, e.operator? = some op →
      (p.analyze settings).state.findings.resolution e.id = some (.function i) →
        ∃ g, p.functions[i]? = some g ∧
          (g.operator = some op ∨ g.operator = none ∧ g.name.name = op.overloadName)) ∧
    ∀ n callee args, .call n callee args ∈ p.exprs → ∀ i,
      (p.analyze settings).state.findings.resolution n.id = some (.function i) →
        ∃ g, p.functions[i]? = some g ∧ g.operator = none := by
  have complete := p.analyze_complete settings (source.parse_program_nodup parsed)
  constructor
  · intro e listed op i applies refers
    obtain ⟨g, here, named⟩ := complete.operator_named (Program.mem_exprs.1 listed) applies refers
    have written := source.functions_written parsed g (List.mem_of_getElem? here)
    exact ⟨g, here, (written.operator_of_name named).imp_right fun plain => ⟨plain, named⟩⟩
  · intro n callee args listed i refers
    exact complete.call_plain (Program.mem_exprs.1 listed) refers

/-- A free function that a program has called like the overloads of `+`. -/
def calledLikePlus : Source :=
  ⟨"class A \x7b \x7d A operator_add(A a, A b) \x7b return a; \x7d A x; A y := x + x;", none⟩

/-- It is what `+` refers to. -/
theorem calledLikePlus_operators_resolve : ∃ p, calledLikePlus.parse Parser.program = .ok p ∧
    ∃ e ∈ p.exprs, e.operator? = some (.binary .add) ∧
      (p.analyze ⟨true, true⟩).state.findings.resolution e.id = some (.function 0) ∧
        ∃ g, p.functions[0]? = some g ∧ g.operator = none ∧
          g.name.name = (Operator.binary .add).overloadName := by
  have run : (calledLikePlus.parse Parser.program).toOption.map (fun p =>
      (p.functions.map Function.operator, p.exprs.any fun e =>
        e.operator? == some (.binary .add) &&
          (p.analyze ⟨true, true⟩).state.findings.resolution e.id == some (.function 0))) =
      some ([none], true) := by
    decide +kernel
  obtain ⟨p, parsed, views⟩ := Option.map_eq_some_iff.1 run
  rw [Prod.mk.injEq, List.any_eq_true] at views
  obtain ⟨free, e, listed, refers⟩ := views
  rw [Bool.and_eq_true, beq_iff_eq, beq_iff_eq] at refers
  have read := ok_of_toOption parsed
  obtain ⟨g, here, which⟩ :=
    (Source.operators_resolve read ⟨true, true⟩).1 e listed _ 0 refers.1 refers.2
  have plain : g.operator = none :=
    List.mem_singleton.1 (free ▸ List.mem_map_of_mem (List.mem_of_getElem? here))
  refine ⟨p, read, e, listed, refers.1, refers.2, g, here, plain, ?_⟩
  rcases which with declared | ⟨_, named⟩
  · cases plain.symm.trans declared
  · exact named

end ClassLang
