import ClassLang.Proofs.Parsing.Brackets
import ClassLang.Proofs.Parsing.Termination

/-!
Statements that start with a name: declarations and expressions. The tokens behind the name, as far
as the bracket that closes the first one and the token after it, tell them apart.

* `statement_decides`: a statement is read as the one or the other whenever it can be, and it can
  never be read as both.
-/

namespace ClassLang

/-- Whether a declaration can go on here, behind the name that it starts with. -/
def Cursor.goesOnDeclaring (c : Cursor) : Bool :=
  match c.current.kind with
  | .ident _ => true
  | .punct .openBracket => Parser.nameAfterBrackets 0 c.tokens
  | _ => false

theorem BinaryOp.token_ne_ident (op : BinaryOp) (name : String) : op.token ≠ .ident name := by
  cases op <;> nofun

namespace Parser

variable {α β σ : Type} {found : Bool} {before : Cursor → Prop} {after : β → Cursor → Prop}

/-- A name, behind which a declaration can go on or not. -/
def Named (found : Bool) (c : Cursor) : Prop :=
  (∃ name, c.current.kind = .ident name) ∧ c.advance.goesOnDeclaring = found

/-- The place behind a name. -/
def Behind (found : Bool) (c : Cursor) : Prop := c.goesOnDeclaring = found

theorem Behind.opens {c : Cursor} (here : Behind found c)
    (bracket : c.current.kind = .punct .openBracket) : Seeks found 1 c.advance := by
  rw [Behind, Cursor.goesOnDeclaring, bracket] at here
  exact (Cursor.leadsToName_opens bracket).trans here

theorem Behind.over {c : Cursor} (here : Behind found c)
    (other : c.current.kind ≠ .punct .openBracket) : Seeks found 0 c := by
  rw [Behind, Cursor.goesOnDeclaring] at here
  rw [Seeks, Cursor.leadsToName]
  split at here
  · next name kind => rw [kind]; exact here
  · next kind => exact absurd kind other
  · next none _ =>
    split
    · next name kind => exact absurd kind (none name)
    · exact here

theorem seeks_zero {c : Cursor} : Seeks true 0 c ↔ ∃ name, c.current.kind = .ident name := by
  rw [Seeks, Cursor.leadsToName]
  split
  · next name kind => exact ⟨fun _ => ⟨name, kind⟩, fun _ => rfl⟩
  · next none => exact iff_of_false Bool.false_ne_true (not_exists.2 none)

/-- Behind a name where a declaration can go on, there is a name or an opening bracket. -/
theorem Behind.cases {c : Cursor} (here : Behind true c) :
    (∃ name, c.current.kind = .ident name) ∨ c.current.kind = .punct .openBracket := by
  rw [Behind, Cursor.goesOnDeclaring] at here
  split at here
  · next name kind => exact .inl ⟨name, kind⟩
  · next kind => exact .inr kind
  · cases here

theorem Behind.of_name {c : Cursor} (named : Seeks true 0 c) : Behind true c := by
  obtain ⟨name, kind⟩ := seeks_zero.1 named
  rw [Behind, Cursor.goesOnDeclaring, kind]

/-! ## Declarations -/

/-- Where there is a name, nothing else is. -/
theorem byName {f : TokenKind → Parser β}
    (hb : ∀ c, before c → ∃ name, c.current.kind = .ident name)
    (hf : ∀ name, Leads (f (.ident name)) before after) : Leads (kind >>= f) before after := by
  refine .bind kind_leads fun kind => ?_
  cases kind with
  | ident name => exact (hf name).weaken (fun _ => And.left) fun _ _ => id
  | _ =>
    refine .absurd fun c here => ?_
    obtain ⟨name, kind⟩ := hb c here.1
    rw [kind] at here
    cases here.2

theorem modifiers_named : Leads modifiers (Named found) fun _ => Named found := by
  refine .repeatFrom (Named found) (fun m => byName (fun _ => And.left) fun name => ?_) _
  exact .pure fun _ => id

theorem expectIdent_named : Leads expectIdent (Named found) fun _ => Behind found :=
  expectIdent_leads fun _ _ here _ => here.2

theorem typeArgs?_behind :
    Leads (typeArgs? typeRef) (Behind found) fun _ => Seeks found 0 :=
  .bind (accept_leads fun _ here bracket => here.opens bracket) fun _ => .ite
    (.bind (bracketList_leads typeRef_keeps) fun _ => .pure fun _ => id)
    (.pure fun _ here => here.1.over here.2)

theorem returnType_named : Leads returnType (Named found) fun _ => Seeks found 0 := by
  refine .still here_ends fun start => .bind modifiers_named fun mods =>
    byName (fun _ => And.left) fun name => .bind expectIdent_named fun name =>
    .bind typeArgs?_behind fun args => ?_
  split
  · exact .still (nodeFrom_ends start) fun _ => .pure fun _ => id
  · exact .still (nodeFrom_ends start) fun _ => .pure fun _ => id

/-- A declaration has a second name. -/
theorem declaration_named (statement : Parser (Option Statement)) :
    Leads (declaration statement) (Named found) fun _ _ => found = true := by
  have second : Leads expectIdent (Seeks found 0) fun _ _ => found = true :=
    expectIdent_leads fun _ _ here name => here.symm.trans (seeks_zero.2 ⟨_, name⟩)
  exact .still here_ends fun start => .bind returnType_named fun type => .bind second fun name =>
    fun _ _ _ _ => id

/-! ## Expressions -/

theorem iterate_succ_run (rule : Parser α → Parser α) (n : Nat) (s : ParserState) :
    (iterate rule (n + 1)).run s = (rule (iterate rule n)).run s := rfl

/-- A token that is not there is not read. -/
theorem Leads.missing {p : Parser Bool} {f : Bool → Parser β} {absent : Cursor → Prop}
    (unread : Leads p before fun read c => bif read then False else before c ∧ absent c)
    (rest : Leads (f false) before after) : Leads (p >>= f) before after := by
  refine .bind unread fun read => ?_
  cases read with
  | true => exact .absurd fun _ => id
  | false => exact rest.weaken (fun _ => And.left) fun _ _ => id

theorem accept_missing {p : Punct} {f : Bool → Parser β}
    (absent : ∀ c, before c → c.current.kind ≠ .punct p) (rest : Leads (f false) before after) :
    Leads (accept p >>= f) before after :=
  .missing (accept_leads (Q := fun _ => False) absent) rest

theorem acceptKeyword_missing {k : Keyword} {f : Bool → Parser β}
    (absent : ∀ c, before c → c.current.kind ≠ .keyword k) (rest : Leads (f false) before after) :
    Leads (acceptKeyword k >>= f) before after :=
  .missing (acceptKeyword_leads (Q := fun _ => False) absent) rest

theorem operatorOf?_name {ops : List BinaryOp} {f : Option BinaryOp → Parser β}
    (rest : Leads (f none) (Seeks true 0) after) :
    Leads (operatorOf? ops >>= f) (Seeks true 0) after := by
  have none_ : Leads (operatorOf? ops) (Seeks true 0) fun op c => op = none ∧ Seeks true 0 c := by
    refine byName (fun _ => seeks_zero.1) fun name => ?_
    have other : ops.find? (fun op => op.token == .ident name) = none :=
      List.find?_eq_none.2 fun op _ same => op.token_ne_ident name (eq_of_beq same)
    rw [other]
    exact .pure fun _ here => ⟨rfl, here⟩
  refine .bind none_ fun op => ?_
  cases op with
  | some op => exact .absurd fun _ => nofun
  | none => exact rest.weaken (fun _ => And.right) fun _ _ => id

section Expressions

variable {next operand nested : Parser Expr}

/-- What is read stops in front of another name. -/
def StopsAtName (p : Parser Expr) : Prop := Leads p (Named true) fun _ => Seeks true 0

theorem leftAssoc_named (ops : List BinaryOp) (h : StopsAtName next) :
    StopsAtName (leftAssoc ops next) := by
  refine .bind h fun first => .repeatFrom (Seeks true 0) (fun lhs => operatorOf?_name ?_) _
  exact .pure fun _ => id

theorem operations_name (ops : List BinaryOp) :
    Leads (operations ops next) (Seeks true 0) fun _ => Seeks true 0 := by
  refine .repeatFrom (Seeks true 0) (fun read => operatorOf?_name ?_) _
  exact .pure fun _ => id

theorem chain_named (ops : List BinaryOp) (h : StopsAtName next) :
    StopsAtName (chain ops next) := by
  refine .bind h fun first => .bind (operations_name ops) fun others =>
    .still (comparisons_ends first others) fun all => ?_
  split
  · exact .pure fun _ => id
  · exact (conjunction_ends _ _).leads

theorem binary_named (h : StopsAtName operand) : ∀ ls : List Level, StopsAtName (binary ls operand)
  | [] => h
  | .leftAssoc ops :: tighter => leftAssoc_named ops (binary_named h tighter)
  | .chain ops :: tighter => chain_named ops (binary_named h tighter)

theorem unary_named {op? : TokenKind → Option UnaryOp} (none_ : ∀ name, op? (.ident name) = none)
    (h : StopsAtName operand) : StopsAtName (unary op? operand) := by
  have ops : Leads (unaryOps op?) (Named true) fun _ => Named true := by
    refine .repeatFrom (Named true) (fun read => .still here_ends fun start =>
      byName (fun _ => And.left) fun name => ?_) _
    rw [none_ name]
    exact .pure fun _ => id
  exact .bind ops fun ops => .bind h fun e => (applyUnary_ends e ops).leads

theorem power_named (h : StopsAtName operand) : StopsAtName (power operand) :=
  .bind h fun _ => .bind (operations_name _) fun _ => (powerOf_ends _ _).leads

theorem primary_named : Leads (primary nested) (Named true) fun _ => Behind true :=
  .still here_ends fun start => byName (fun _ => And.left) fun _ => .bind expectIdent_named fun _ =>
    .still (nodeFrom_ends start) fun _ => .pure fun _ => id

/-- An index behind the name has a name behind it in turn. -/
theorem postfixStep_behind (start : Span) (target : Expr) (h : Keeps true nested) :
    Leads (postfixStep nested start target) (Behind true)
      (Sum.elim (fun _ => Behind true) fun _ => Seeks true 0) := by
  have other {p : Punct} (different : p ≠ .openBracket) (c : Cursor) (here : Behind true c) :
      c.current.kind ≠ .punct p := by
    rcases here.cases with ⟨name, kind⟩ | kind
    · rw [kind]
      nofun
    · rw [kind]
      exact fun same => different (TokenKind.punct.inj same).symm
  refine accept_missing (other (by decide)) (accept_missing (other (by decide)) ?_)
  refine .bind (accept_leads fun _ here bracket => here.opens bracket) fun bracket => .ite ?_ ?_
  · exact .bind (h 0) fun i => .bind expectPunct_closes fun _ => .still (nodeFrom_ends start)
      fun n => .pure fun _ => .of_name
  · refine .weaken ?_ (fun c here => here.1.over here.2) fun _ _ => id
    refine accept_missing (fun c here => ?_) (.pure fun _ => id)
    obtain ⟨name, kind⟩ := seeks_zero.1 here
    rw [kind]
    nofun

theorem postfixed_named (h : Keeps true nested) : StopsAtName (postfixed nested) :=
  .still here_ends fun start => .bind primary_named fun _ =>
    .repeatFrom (Behind true) (fun target => postfixStep_behind start target h) _

theorem allocation_named (h : Keeps true nested) : StopsAtName (allocation nested) := by
  have noKeyword (k : Keyword) (c : Cursor) (here : Named true c) :
      c.current.kind ≠ .keyword k := by
    obtain ⟨⟨name, kind⟩, -⟩ := here
    rw [kind]
    nofun
  exact .still here_ends fun start => acceptKeyword_missing (noKeyword _)
    (acceptKeyword_missing (noKeyword _) (postfixed_named h))

theorem operation_named (h : Keeps true nested) : StopsAtName (operation nested) :=
  binary_named (unary_named (fun _ => rfl) (power_named
    (unary_named (fun _ => rfl) (allocation_named h)))) levels

theorem assignment_named (h : Keeps true nested) : StopsAtName (assignment nested) := by
  have noMark : Leads (takePunctOf? assignmentPuncts) (Seeks true 0)
      fun mark c => mark = none ∧ Seeks true 0 c :=
    byName (fun _ => seeks_zero.1) fun _ => .pure fun _ here => ⟨rfl, here⟩
  refine .bind (operation_named (inside_keeps h)) fun target => .bind noMark fun mark => ?_
  cases mark with
  | some mark => exact .absurd fun _ => nofun
  | none => exact .pure fun _ => And.right

theorem expression_named : StopsAtName expression := by
  intro s e t run here
  rw [expression, recursive_run, iterate_succ_run] at run
  exact assignment_named (iterate_keeps _) s e t run here

/-- No semicolon is there then. -/
theorem expressionStatement_named : Leads expressionStatement (Named true) fun _ _ => False := by
  have missing (c : Cursor) (here : Seeks true 0 c) : c.current.kind ≠ .punct .semicolon := by
    obtain ⟨name, kind⟩ := seeks_zero.1 here
    rw [kind]
    nofun
  exact .still context_ends fun _ => .bind (.within expression_named) fun _ =>
    .bind (expectPunct_leads (Q := fun _ => False) missing) fun _ => .pure fun _ => id

end Expressions

/-! ## Statements -/

theorem startsDeclaration_run {s : ParserState} (going : s.cursor.current.kind ≠ .eof)
    (more : s.cursor.later ≠ []) :
    startsDeclaration.run s = (.ok s.cursor.advance.goesOnDeclaring, s) := by
  obtain ⟨⟨current, later⟩, prev, nextId, context, classes, functions, handler⟩ := s
  cases later with
  | nil => exact absurd rfl more
  | cons next rest =>
    have passed : Cursor.advance ⟨current, next :: rest⟩ = ⟨next, rest⟩ := Cursor.advance_cons going
    dsimp only
    rw [passed]
    simp only [startsDeclaration, Cursor.goesOnDeclaring, Cursor.tokens, nameAfterBrackets]
    cases next.kind with
    | punct p => cases p <;> rfl
    | _ => rfl

/-- A statement that starts with a name is read as what the tokens behind the name say. -/
theorem statement_run {s : ParserState} (ended : s.cursor.Ended) {name : String}
    (named : s.cursor.current.kind = .ident name) :
    statement.run s = (if s.cursor.advance.goesOnDeclaring then declaration statement
      else do
        let value ← expressionStatement
        return some (.expr (← nodeFrom s.cursor.current.span) value)).run s := by
  have going : s.cursor.current.kind ≠ .eof := by rw [named]; nofun
  have more : s.cursor.later ≠ [] := rest_ne_nil ended (List.nil_append _).symm going
  have unfolded : statement.run s = (statementWith statement).run s :=
    unfold_run (fun _ _ _ _ => statementWith_consuming) (n := s.cursor.remaining + 1)
      ⟨ended, Nat.lt_succ_self _⟩
  have here_ : here.run s = (.ok s.cursor.current.span, s) := rfl
  have kind_ : kind.run s = (.ok (.ident name), s) := by rw [← named]; rfl
  rw [unfolded, statementWith, bind_of_ok here_, bind_of_ok kind_,
    bind_of_ok (startsDeclaration_run going more)]

theorem run_of_toOption {p : Parser α} {s : ParserState} {a : α}
    (h : (p.run s).1.toOption = some a) : p.run s = (.ok a, (p.run s).2) :=
  Prod.ext (ok_of_toOption h) rfl

/-- In front of a name, what is read as a declaration is no expression statement, and a statement is
read as the one of them that there is. -/
theorem statement_decides {s : ParserState} (ended : s.cursor.Ended) {name : String}
    (named : s.cursor.current.kind = .ident name) :
    (¬ ∃ d t e u, (declaration statement).run s = (.ok d, t) ∧
      expressionStatement.run s = (.ok e, u)) ∧
    (∀ d t, (declaration statement).run s = (.ok d, t) → statement.run s = (.ok d, t)) ∧
    ∀ e t, expressionStatement.run s = (.ok e, t) → statement.run s =
      (.ok (some (.expr ⟨t.nextId, s.cursor.current.span.join t.prev⟩ e)),
        { t with nextId := t.nextId + 1 }) := by
  have read := statement_run ended named
  have declares (d : Option Statement) (t : ParserState)
      (run : (declaration statement).run s = (.ok d, t)) :
      s.cursor.advance.goesOnDeclaring = true :=
    declaration_named statement s d t run ⟨⟨name, named⟩, rfl⟩
  have computes (e : Expr) (t : ParserState) (run : expressionStatement.run s = (.ok e, t)) :
      s.cursor.advance.goesOnDeclaring = false :=
    Bool.eq_false_iff.2 fun on => expressionStatement_named s e t run ⟨⟨name, named⟩, on⟩
  refine ⟨?_, fun d t run => ?_, fun e t run => ?_⟩
  · rintro ⟨d, t, e, u, declared, computed⟩
    cases (declares d t declared).symm.trans (computes e u computed)
  · rwa [read, if_pos (declares d t run)]
  · rw [read, if_neg (by simp [computes e t run]), bind_of_ok run]
    rfl

-- A call behind two indices, and a variable of a generic type.
theorem indexed_and_generic_decide :
    let start (kinds : List TokenKind) :=
      ParserState.start (kinds.map (Token.mk · "" ⟨0, 0⟩)) ⟨0, 0⟩
    let bracketed : List TokenKind := [.ident "A", .punct .openBracket, .ident "B",
      .punct .openBracket, .ident "c", .punct .closeBracket, .punct .closeBracket]
    let called := start (bracketed ++ [.punct .openParen, .punct .closeParen, .punct .semicolon])
    let declared := start (bracketed ++ [.ident "d", .punct .semicolon])
    (∃ e t n u, expressionStatement.run called = (.ok e, t) ∧
      statement.run called = (.ok (some (.expr n e)), u)) ∧
    ∃ d t, (declaration statement).run declared = (.ok d, t) ∧
      statement.run declared = (.ok d, t) := by
  intro start bracketed called declared
  constructor
  · have accepted : (expressionStatement.run called).1.toOption.map Expr.text =
        some "A[B[c]]()" := by decide +kernel
    obtain ⟨e, ok, -⟩ := Option.map_eq_some_iff.1 accepted
    have ended : called.cursor.Ended := ofTokens_ended _ _
    have named : called.cursor.current.kind = .ident "A" := rfl
    have run := run_of_toOption ok
    have decided := (statement_decides ended named).2.2 e _ run
    exact ⟨e, _, _, _, run, decided⟩
  · have accepted : ((declaration statement).run declared).1.toOption.map
        (Option.map Statement.text) = some (some "A[B[c]] d;\n") := by decide +kernel
    obtain ⟨d, ok, -⟩ := Option.map_eq_some_iff.1 accepted
    have ended : declared.cursor.Ended := ofTokens_ended _ _
    have named : declared.cursor.current.kind = .ident "A" := rfl
    have run := run_of_toOption ok
    exact ⟨d, _, run, (statement_decides ended named).2.1 d _ run⟩

end Parser

end ClassLang
