import ClassLang.Proofs.Parsing.ExprNumbering
import Mathlib.Data.List.Nodup

/-!
No two nodes of a parsed program share a number, and every number is below the count of nodes.
-/

namespace ClassLang

def optionalNodes (s : Option Statement) : List Node := s.elim [] Statement.nodes

def Parser.Members.nodes (m : Parser.Members) : List Node :=
  m.fields.flatMap Field.nodes ++ m.methods.flatMap Method.nodes

namespace Parser

/-! ## Statements -/

section Statements

variable {i : Nat} {statement : Parser (Option Statement)} {block : Parser Block}

theorem initializer?_conserves (i : Nat) : Conserves i 0 initializerNodes initializer? := by
  have stored (kind : AssignKind) : Conserves i 0 initializerNodes
      (do return some ⟨kind, ← nestedExpression⟩ : Parser (Option Initializer)) := by
    refine .issue (nestedExpression_conserves i) fun value => .pure ?_
    exact Nat.le_of_eq (Nat.zero_add _).symm
  refine .silent (accept_silent _) fun value => ?_
  split
  · exact stored .value
  refine .silent (accept_silent _) fun reference => ?_
  split
  · exact stored .reference
  · exact .pure (Nat.le_refl _)

theorem param_conserves (i : Nat) : Conserves i 0 Param.nodes param := by
  refine .silent here_silent fun start => .issue (typeRef_conserves i) fun type =>
    .silent expectIdent_silent fun name => .issue (nodeFrom_conserves i start) fun n => .pure ?_
  simp only [Param.nodes]
  rw [copies_cons]
  omega

theorem params_conserves (i : Nat) : Conserves i 0 (·.flatMap Param.nodes) params :=
  .commaList (param_conserves i)

theorem condition_conserves (i : Nat) : Conserves i 0 Expr.nodes condition := by
  refine .silent (expectPunct_silent _) fun _ => .issue (nestedExpression_conserves i) fun e =>
    .silent (expectPunct_silent _) fun _ => .pure (by omega)

theorem expressionStatement_conserves (i : Nat) :
    Conserves i 0 Expr.nodes expressionStatement := by
  refine .silent context_silent fun _ => .issue (.within (expression_conserves i)) fun e =>
    .silent (expectPunct_silent _) fun _ => .pure (by omega)

theorem blockOf_conserves (h : Conserves i 0 optionalNodes statement) :
    Conserves i 0 Block.nodes (blockOf statement) := by
  refine .silent (expectPunct_silent _) fun start => ?_
  refine .issue (v := (·.flatMap Statement.nodes)) ?_ fun statements =>
    .issue (nodeFrom_conserves i start) fun n => .pure ?_
  · refine Conserves.repeatFrom (·.flatMap Statement.nodes) (fun read => ?_) []
    refine .silent (accept_silent _) fun closed => ?_
    split
    · exact .pure (Nat.le_of_eq (copies_flatMap_reverse i read _))
    refine .silent atEnd_silent fun ended => ?_
    split
    · exact .fail
    refine .issue h fun s => ?_
    split
    · refine .pure ?_
      simp only [Sum.elim_inl, List.flatMap_cons, copies_append, optionalNodes, Option.elim]
      omega
    · exact .pure (Nat.le_add_right _ _)
  · rw [Block.nodes, copies_cons, statementNodes_eq]
    omega

theorem nestedBlock_conserves (extra : Context) (h : Conserves i 0 optionalNodes statement) :
    Conserves i 0 Block.nodes (nestedBlock statement extra) :=
  .silent context_silent fun _ => .within (blockOf_conserves h)

theorem body_conserves (h : Conserves i 0 optionalNodes statement) :
    Conserves i 0 Block.nodes (body statement) :=
  .within (blockOf_conserves h)

def branchNodes (branches : List (Expr × Block)) : List Node :=
  branches.flatMap fun branch => branch.1.nodes ++ branch.2.nodes

theorem copies_elseIfs (i : Nat) (branches : List (Expr × Block)) (last : Alternative) :
    copies i (branches.foldl (fun rest (c, b) => Alternative.elseIf c b rest) last).nodes =
      copies i (branchNodes branches) + copies i last.nodes := by
  induction branches generalizing last with
  | nil => simp [branchNodes]
  | cons branch rest ih =>
    obtain ⟨c, b⟩ := branch
    rw [List.foldl_cons, ih]
    simp only [branchNodes, List.flatMap_cons, copies_append, Alternative.nodes]
    omega

theorem alternative_conserves (h : Conserves i 0 Block.nodes block) :
    Conserves i 0 Alternative.nodes (alternative block) := by
  refine .issue (v := fun read => branchNodes read.1 ++ read.2.nodes) ?_ fun read => ?_
  · refine Conserves.repeatFrom branchNodes (fun read => ?_) []
    refine .silent (acceptKeyword_silent _) fun another => ?_
    split
    · refine .silent (acceptKeyword_silent _) fun condition => ?_
      split
      · refine .issue (condition_conserves i) fun c => .issue h fun b => .pure ?_
        simp only [Sum.elim_inl, branchNodes, List.flatMap_cons, copies_append]
        omega
      · refine .issue h fun b => .pure ?_
        simp [Alternative.nodes]
    · refine .pure ?_
      simp [Alternative.nodes]
  · obtain ⟨conditions, last⟩ := read
    refine .pure ?_
    rw [copies_elseIfs, copies_append]
    dsimp only
    omega

theorem addFunction_conserves (i : Nat) (f : Function) :
    Conserves i (copies i f.nodes) (fun _ => []) (addFunction f) := by
  intro bound s a t run before
  cases run
  simp only [ParserState.claims, List.flatMap_append, copies_append, List.flatMap_singleton] at *
  simp only [copies_nil]
  omega

theorem addClass_conserves (i : Nat) (class_ : Class) :
    Conserves i (copies i class_.nodes) (fun _ => []) (addClass class_) := by
  intro bound s a t run before
  cases run
  simp only [ParserState.claims, List.flatMap_append, copies_append, List.flatMap_singleton] at *
  simp only [copies_nil]
  omega

theorem functionFrom_conserves (h : Conserves i 0 optionalNodes statement) (start : Span)
    (type : TypeRef) (name : Ident) :
    Conserves i (copies i type.nodes) Function.nodes (functionFrom statement start type name) := by
  refine .silent (expectPunct_silent _) fun _ => .issue (params_conserves i) fun params =>
    .issue (body_conserves h) fun body => .issue (nodeFrom_conserves i start) fun n => .pure ?_
  simp only [Function.nodes]
  rw [copies_cons, copies_append, copies_append]
  omega

theorem declaration_conserves (h : Conserves i 0 optionalNodes statement) :
    Conserves i 0 optionalNodes (declaration statement) := by
  refine .silent here_silent fun start => .issue (returnType_conserves i) fun type =>
    .silent expectIdent_silent fun name => .silent (peek_silent _) fun paren => ?_
  split
  · refine .silent context_silent fun _ => ?_
    split
    · exact .failAt
    · refine .spend 0 (functionFrom_conserves h start type name) (by omega) fun f => ?_
      refine .spend 0 (addFunction_conserves i f) (by omega) fun _ => .pure ?_
      exact Nat.zero_le _
  · split
    · exact .failAt
    · refine .issue (initializer?_conserves i) fun init => .silent (expectPunct_silent _) fun _ =>
        .issue (nodeFrom_conserves i start) fun n => .pure ?_
      simp only [optionalNodes, Option.elim, Statement.nodes, VarDecl.nodes]
      rw [copies_cons, copies_append]
      omega

theorem jump_conserves (word : Keyword) {make : Node → Statement}
    (alone : ∀ n, (make n).nodes = [n]) : Conserves i 0 optionalNodes (jump word make) := by
  refine .silent here_silent fun start => .silent context_silent fun _ => ?_
  split
  · exact .fail
  · refine .silent bump_silent fun _ => .silent (expectPunct_silent _) fun _ =>
      .issue (nodeFrom_conserves i start) fun n => .pure ?_
    simp [optionalNodes, alone]

end Statements

/-! ## Members and classes -/

section Classes

variable {i : Nat} {statement : Parser (Option Statement)} {class_ : Parser Class}

theorem operatorFunction_conserves (h : Conserves i 0 optionalNodes statement) (start : Span)
    (type : TypeRef) (owner : Ident) :
    Conserves i (copies i type.nodes) Function.nodes
      (operatorFunction statement start type owner) := by
  refine .silent (expectKeyword_silent _) fun _ => .silent here_silent fun place =>
    .silent operatorSymbol_silent fun symbol => .silent (expectPunct_silent _) fun _ =>
    .issue (params_conserves i) fun params => ?_
  split
  · exact .failAt
  · refine .issue (body_conserves h) fun body => .issue (nodeFrom_conserves i start) fun n =>
      .pure ?_
    simp only [Function.nodes]
    rw [copies_cons, copies_append, copies_append]
    omega

theorem methodFrom_conserves (h : Conserves i 0 optionalNodes statement) (start : Span)
    (ms : MemberModifiers) (type : TypeRef) (name : Ident) :
    Conserves i (copies i type.nodes) Method.nodes (methodFrom statement start ms type name) := by
  refine .issue (params_conserves i) fun params => .issue (body_conserves h) fun body =>
    .issue (nodeFrom_conserves i start) fun n => .pure ?_
  simp only [Method.nodes]
  rw [copies_cons, copies_append, copies_append]
  omega

theorem fieldFrom_conserves (i : Nat) (start : Span) (ms : MemberModifiers) (type : TypeRef)
    (name : Ident) :
    Conserves i (copies i type.nodes) Field.nodes (fieldFrom start ms type name) := by
  unfold fieldFrom
  split
  · exact .failAt
  split
  · exact .failAt
  refine .issue (initializer?_conserves i) fun init => .silent (expectPunct_silent _) fun _ =>
    .issue (nodeFrom_conserves i start) fun n => .pure ?_
  simp only [Field.nodes]
  rw [copies_cons, copies_append]
  omega

theorem member_conserves (h : Conserves i 0 optionalNodes statement) (owner : Ident)
    (read : Members) :
    Conserves i (copies i read.nodes) Members.nodes (member statement owner read) := by
  refine .silent here_silent fun start => .silent memberModifiers_silent fun ms =>
    .silent expectMemberType_silent fun _ => .issue (returnType_conserves i) fun type =>
    .silent (peek_silent _) fun operator => ?_
  split
  · split
    · exact .failAt
    · refine .spend (copies i read.nodes) (operatorFunction_conserves h start type owner)
        (by omega) fun f => ?_
      refine .spend (copies i read.nodes) (addFunction_conserves i f) (by omega) fun _ => .pure ?_
      exact Nat.le_add_right _ _
  refine .silent expectIdent_silent fun name => .silent (accept_silent _) fun paren => ?_
  split
  · refine .spend (copies i read.nodes) (methodFrom_conserves h start ms type name) (by omega)
      fun m => .pure ?_
    simp only [Members.nodes, List.flatMap_cons, copies_append]
    omega
  · refine .spend (copies i read.nodes) (fieldFrom_conserves i start ms type name) (by omega)
      fun field => .pure ?_
    simp only [Members.nodes, List.flatMap_cons, copies_append]
    omega

theorem memberStep_conserves (h : Conserves i 0 optionalNodes statement)
    (hc : Conserves i 0 Class.nodes class_) (owner : Ident) (read : Members) :
    Conserves i (copies i read.nodes) (Sum.elim Members.nodes Members.nodes)
      (memberStep statement class_ owner read) := by
  refine .silent (accept_silent _) fun closed => ?_
  split
  · refine .pure ?_
    simp only [Sum.elim_inr, Members.nodes, copies_append, copies_flatMap_reverse]
    exact Nat.le_refl _
  have another : Conserves i (copies i read.nodes) (Sum.elim Members.nodes Members.nodes)
      (do return .inl (← member statement owner read) : Parser (Members ⊕ Members)) := by
    refine .spend 0 (member_conserves h owner read) (by omega) fun read => .pure ?_
    exact Nat.le_of_eq (Nat.zero_add _).symm
  refine .silent kind_silent fun kind => ?_
  split
  · refine .issue hc fun c => ?_
    refine .spend (copies i read.nodes) (addClass_conserves i c) (by omega) fun _ => .pure ?_
    exact Nat.le_add_right _ _
  · exact .fail
  · exact .fail
  · exact .fail
  · exact another
  · exact another
  · exact .fail

theorem classWith_conserves (h : Conserves i 0 optionalNodes statement)
    (hc : Conserves i 0 Class.nodes class_) :
    Conserves i 0 Class.nodes (classWith statement class_) := by
  refine .silent (expectKeyword_silent _) fun start => .silent expectIdent_silent fun name =>
    .silent genericParams_silent fun generics => .silent (acceptKeyword_silent _) fun extends_ => ?_
  have rest (superclass : Option TypeRef) :
      Conserves i (copies i (superclass.elim [] TypeRef.nodes)) Class.nodes (do
        let _ ← expectPunct .openBrace
        let members ← within .classBody <|
          repeatFrom (⟨[], []⟩ : Members) (memberStep statement class_ name)
        return ⟨← nodeFrom start, name, generics, superclass, members.fields, members.methods⟩) := by
    refine .silent (expectPunct_silent _) fun _ => ?_
    have members := Conserves.repeatFrom Members.nodes (memberStep_conserves h hc name) ⟨[], []⟩
    refine .issue (Conserves.within members) fun members => .issue (nodeFrom_conserves i start)
      fun n => .pure ?_
    simp only [Class.nodes, Members.nodes]
    rw [copies_cons, copies_append, copies_append, copies_append]
    omega
  split
  · refine .issue (v := fun superclass => superclass.elim [] TypeRef.nodes) ?_ fun superclass =>
      (rest superclass).weaken (by omega)
    exact .issue (typeRef_conserves i) fun type => .pure (Nat.le_of_eq (Nat.zero_add _).symm)
  · exact .issue (v := fun superclass => superclass.elim [] TypeRef.nodes)
      (.pure (Nat.le_refl _)) fun superclass => (rest superclass).weaken (by omega)

theorem classDecl_conserves (h : Conserves i 0 optionalNodes statement) :
    Conserves i 0 Class.nodes (classDecl statement) :=
  .recursive fun _ hc => classWith_conserves h hc

end Classes

/-! ## Statements inside statements -/

theorem statementWith_conserves {i : Nat} {statement : Parser (Option Statement)}
    (h : Conserves i 0 optionalNodes statement) :
    Conserves i 0 optionalNodes (statementWith statement) := by
  refine .silent here_silent fun start => ?_
  have plain : Conserves i 0 optionalNodes (do
      let value ← expressionStatement
      return some (.expr (← nodeFrom start) value)) := by
    refine .issue (expressionStatement_conserves i) fun value =>
      .issue (nodeFrom_conserves i start) fun n => .pure ?_
    simp only [optionalNodes, Option.elim, Statement.nodes]
    rw [copies_cons]
    omega
  refine .silent kind_silent fun kind => ?_
  split
  · refine .silent context_silent fun _ => ?_
    split
    · refine .issue (classDecl_conserves h) fun c =>
        .spend 0 (addClass_conserves i c) (by omega) fun _ => .pure ?_
      exact Nat.zero_le _
    · exact .fail
  · refine .silent bump_silent fun _ => .issue (condition_conserves i) fun c =>
      .issue (nestedBlock_conserves _ h) fun thenBlock =>
      .issue (alternative_conserves (nestedBlock_conserves _ h)) fun rest =>
      .issue (nodeFrom_conserves i start) fun n => .pure ?_
    simp only [optionalNodes, Option.elim, Statement.nodes]
    rw [copies_cons, copies_append, copies_append]
    omega
  · refine .silent bump_silent fun _ => .issue (condition_conserves i) fun c =>
      .issue (nestedBlock_conserves _ h) fun body =>
      .issue (nodeFrom_conserves i start) fun n => .pure ?_
    simp only [optionalNodes, Option.elim, Statement.nodes]
    rw [copies_cons, copies_append]
    omega
  · refine .silent bump_silent fun _ => .issue (nestedBlock_conserves _ h) fun body =>
      .silent (expectKeyword_silent _) fun _ => .issue (nestedBlock_conserves _ h) fun handler =>
      .issue (nodeFrom_conserves i start) fun n => .pure ?_
    simp only [optionalNodes, Option.elim, Statement.nodes]
    rw [copies_cons, copies_append]
    omega
  · refine .silent context_silent fun _ => ?_
    split
    · exact .fail
    have finish (value : Option Expr) :
        Conserves i (copies i (value.elim [] Expr.nodes)) optionalNodes (do
          let _ ← expectPunct .semicolon
          return some (.return (← nodeFrom start) value)) := by
      refine .silent (expectPunct_silent _) fun _ => .issue (nodeFrom_conserves i start) fun n =>
        .pure ?_
      cases value with
      | none => simp [optionalNodes, Statement.nodes]
      | some value =>
        simp only [optionalNodes, Option.elim, Statement.nodes]
        rw [copies_cons]
        omega
    refine .silent bump_silent fun _ => .silent (peek_silent _) fun empty => ?_
    split
    · exact .issue (v := fun value => value.elim [] Expr.nodes) (.pure (Nat.le_refl _))
        fun value => (finish value).weaken (by omega)
    · refine .issue (v := fun value => value.elim [] Expr.nodes) ?_ fun value =>
        (finish value).weaken (by omega)
      exact .issue (nestedExpression_conserves i) fun e => .pure (Nat.le_of_eq (Nat.zero_add _).symm)
  · exact jump_conserves .kwBreak fun _ => rfl
  · exact jump_conserves .kwContinue fun _ => rfl
  · refine .issue (nestedBlock_conserves _ h) fun body =>
      .issue (nodeFrom_conserves i start) fun n => .pure ?_
    simp only [optionalNodes, Option.elim, Statement.nodes]
    rw [copies_cons]
    omega
  · split
    · exact declaration_conserves h
    · exact plain
  · refine .silent startsDeclaration_silent fun begins => ?_
    split
    · exact declaration_conserves h
    · exact plain
  · exact .fail
  · exact plain

theorem statement_conserves (i : Nat) : Conserves i 0 optionalNodes statement :=
  .recursive fun _ h => statementWith_conserves h

/-! ## Programs -/

theorem programStatements_conserves (i : Nat) :
    Conserves i 0 (·.flatMap Statement.nodes) (within .global <| repeatFrom [] fun read => do
      if ← atEnd then return .inr read.reverse
      else match ← statement with
        | some s => return .inl (s :: read)
        | none => return .inl read) := by
  refine .within (Conserves.repeatFrom (·.flatMap Statement.nodes) (fun read => ?_) [])
  refine .silent atEnd_silent fun ended => ?_
  split
  · exact .pure (Nat.le_of_eq (copies_flatMap_reverse i read _))
  refine .issue (statement_conserves i) fun s => ?_
  split
  · refine .pure ?_
    simp only [Sum.elim_inl, List.flatMap_cons, copies_append, optionalNodes, Option.elim]
    omega
  · exact .pure (Nat.le_add_right _ _)

theorem program_conserves (i : Nat) :
    Ensures program (fun s => s.claims i ≤ 1)
      fun p _ => copies i p.nodes + stillFree i p.nodeCount ≤ 1 := by
  intro s p t run before
  obtain ⟨statements, middle, read, rest⟩ := bind_eq_ok.1 run
  have kept := programStatements_conserves i 1 s statements middle read (by omega)
  cases rest
  simp only [Program.nodes, copies_append, statementNodes_eq, ParserState.claims] at kept ⊢
  omega

end Parser

theorem Source.parse_program_copies {source : Source} {p : Program}
    (h : source.parse Parser.program = .ok p) (i : Nat) :
    copies i p.nodes + stillFree i p.nodeCount ≤ 1 := by
  obtain ⟨tokens, s, _, run⟩ := Source.parse_eq_ok.1 h
  have begins : (ParserState.start tokens source.whole).claims i ≤ 1 := stillFree_le_one i 0
  exact Parser.program_conserves i _ p s run.1 (by simpa [ParserState.claims] using begins)

theorem Source.parse_program_nodup {source : Source} {p : Program}
    (h : source.parse Parser.program = .ok p) : (p.nodes.map Node.id).Nodup := by
  rw [List.nodup_iff_count_le_one]
  intro i
  exact Nat.le_trans (Nat.le_add_right _ _) (source.parse_program_copies h i)

theorem Source.parse_program_numbering {source : Source} {p : Program}
    (h : source.parse Parser.program = .ok p) :
    (p.nodes.map Node.id).Nodup ∧ ∀ n ∈ p.nodes, n.id < p.nodeCount := by
  refine ⟨source.parse_program_nodup h, fun n listed => ?_⟩
  have within := source.parse_program_copies h n.id
  have present : 0 < copies n.id p.nodes :=
    List.count_pos_iff.2 (List.mem_map_of_mem listed)
  by_contra beyond
  simp only [stillFree, beyond, if_false] at within
  omega

-- A chain inside the target of a compound assignment: the copies hold copies.
theorem chain_in_compound_target_numbering :
    ∃ p, (⟨"a < f() < [c] < d; a[new A < b < c] += 1;", none⟩ : Source).parse Parser.program = .ok p ∧
      p.nodes.length = 40 ∧ (p.nodes.map Node.id).Nodup ∧ ∀ n ∈ p.nodes, n.id < p.nodeCount := by
  have counted : ((⟨"a < f() < [c] < d; a[new A < b < c] += 1;", none⟩ : Source).parse
      Parser.program).toOption.map (·.nodes.length) = some 40 := by
    decide +kernel
  obtain ⟨p, parsed, length⟩ := Option.map_eq_some_iff.1 counted
  have h := ok_of_toOption parsed
  exact ⟨p, h, length, Source.parse_program_numbering h⟩

end ClassLang
