import ClassLang.Proofs.Parsing.Branches
import ClassLang.Proofs.Parsing.ExprReads
import ClassLang.Proofs.Syntax.Grammar
import ClassLang.Proofs.Syntax.Scoping

/-!
A printed statement is read back. The parser tells from the first tokens what a statement is; in front
of a name it goes by what is behind it. A printed expression statement is taken for one unless a brace
is in front. The induction is on the statement, with as much fuel as there are tokens.

* `Parser.reads_statement`: a printed statement is read as the same statement.
-/

namespace ClassLang

/-! ## Printed statements -/

namespace Ink

@[simp] theorem tokensOf_token (kind : TokenKind) (rest : List Ink) :
    tokensOf (token kind :: rest) = kind :: tokensOf rest := rfl

@[simp] theorem tokensOf_mark (p : Punct) (rest : List Ink) :
    tokensOf (mark p :: rest) = .punct p :: tokensOf rest := rfl

@[simp] theorem tokensOf_word (k : Keyword) (rest : List Ink) :
    tokensOf (word k :: rest) = .keyword k :: tokensOf rest := rfl

@[simp] theorem tokensOf_name (n : String) (rest : List Ink) :
    tokensOf (name n :: rest) = .ident n :: tokensOf rest := rfl

@[simp] theorem tokensOf_space (rest : List Ink) : tokensOf (space :: rest) = tokensOf rest := rfl

@[simp] theorem tokensOf_newline (rest : List Ink) : tokensOf (newline :: rest) = tokensOf rest :=
  rfl

@[simp] theorem tokensOf_indent (depth : Nat) (rest : List Ink) :
    tokensOf (indent depth :: rest) = tokensOf rest := rfl

@[simp] theorem tokensOf_nil : tokensOf [] = [] := rfl

attribute [simp] tokensOf_append

end Ink

open Ink

variable {depth : Nat} {rest : List TokenKind}

theorem TypeRef.args_sound {t : TypeRef} (sound : t.isSound = true) :
    ∀ arg ∈ t.args, arg.isSound = true := by
  cases t with
  | primitive | named => exact List.forall_mem_nil _
  | array _ _ args | keymap _ _ args =>
    rw [isSound, soundAll_eq, List.all_eq_true] at sound
    exact sound
  | generic _ _ name args =>
    rw [isSound, soundAll_eq, Bool.and_eq_true, List.all_eq_true] at sound
    exact sound.2
  | void => cases sound

theorem tokensOf_statements (ss : List Statement) :
    tokensOf (statementsInk depth ss) = ss.flatMap fun s => tokensOf (s.ink depth) := by
  induction ss with
  | nil => rfl
  | cons s ss ih => rw [statementsInk, tokensOf_append, ih, List.flatMap_cons]

/-- No statement starts with one of these: they end what is in front. -/
def TokenKind.opensStatement (k : TokenKind) : Bool :=
  !([TokenKind.keyword .kwElse, .punct .closeBrace, .eof].contains k)

theorem TokenKind.opensStatement_of_opensType {k : TokenKind} (opens : k.opensType = true) :
    k.opensStatement = true := by
  cases k with
  | ident _ => rfl
  | keyword k => cases k <;> first | rfl | cases opens
  | _ => cases opens

theorem TokenKind.opensStatement_of_opensOperand {k : TokenKind} (opens : k.opensOperand = true) :
    k.opensStatement = true := by
  cases k with
  | ident _ | literal _ => rfl
  | keyword k => cases k <;> first | rfl | cases opens
  | punct p => cases p <;> first | rfl | cases opens
  | eof => cases opens

theorem Statement.tokens_start (s : Statement) (depth : Nat) (rest : List TokenKind) :
    ∃ k ks, tokensOf (s.ink depth) ++ rest = k :: ks ∧ k.opensStatement = true := by
  cases s with
  | varDecl _ decl =>
    obtain ⟨k, ks, front, opens⟩ := decl.type.tokens_start (.ident decl.name.name ::
      (tokensOf (initializerInk decl.init) ++ .punct .semicolon :: rest))
    exact ⟨k, ks, by simp [ink, declarationInk, ← front], k.opensStatement_of_opensType opens⟩
  | expr _ value =>
    obtain ⟨k, ks, front, opens⟩ := value.tokens_open (.punct .semicolon :: rest)
    exact ⟨k, ks, by simp [ink, ← front], k.opensStatement_of_opensOperand opens⟩
  | ifElse | «while» | tryCatch | «break» | «continue» => exact ⟨_, _, rfl, rfl⟩
  | «return» _ value => cases value <;> exact ⟨_, _, rfl, rfl⟩
  | block _ body =>
    cases body
    exact ⟨_, _, rfl, rfl⟩

theorem TypeRef.isVoid_of_same {t u : TypeRef} (h : t.same u = true) : u.isVoid = t.isVoid := by
  cases t <;> cases u <;> first | rfl | cases h

theorem TypeRef.isVoid_of_sound {t : TypeRef} (sound : t.isSound = true) : t.isVoid = false := by
  cases t <;> first | rfl | cases sound

/-- Whether the printed expression has a brace in front. -/
def Expr.opensBrace (e : Expr) : Bool := (tokensOf e.ink).head? == some (.punct .openBrace)

/-- Whether the statement is an expression that is printed with a brace in front. -/
def Statement.opensBrace : Statement → Bool
  | .expr _ value => value.opensBrace
  | _ => false

/-- What is not taken for something else when it is read again: no assignment is in an operation, and
no expression statement has a brace in front. -/
def Statement.Replays (s : Statement) : Prop :=
  s.opensBrace = false ∧ ∀ n e, s = .expr n e → e.assignsAtRoot = true

namespace Parser

variable {c : Context} {k : TokenKind} {ks after : List TokenKind} {bound : Nat}

/-! ## Parts of statements -/

theorem returnType_reads {t : TypeRef} (returned : t.Returnable) (other : k ≠ .punct .openBracket) :
    Reads c returnType (tokensOf t.ink ++ k :: ks) (k :: ks) (t.same · = true) := by
  rcases returned with sound | ⟨n, rfl⟩
  · refine typeWith_reads sound true (fun arg mem c k ks other _ => typeRef_reads ?_ other) other
      (Nat.le_succ _)
    exact t.args_sound sound arg mem
  · refine modified_reads (m := .none) rfl fun start => ?_
    exact .bind (bump_reads (by simp) (by simp)) fun _ _ => .bind (nodeFrom_reads start) fun _ _ =>
      .pure rfl

theorem nestedExpression_reads {e : Expr} (nested : e.Nested) (ends : EndsExpression k) :
    Reads c nestedExpression (tokensOf e.ink ++ k :: ks) (k :: ks) (e.same · = true) := by
  refine .bind context_reads fun outer _ => .within (.recursive ?_)
  refine .iterate (by simp) (Nat.le_refl _) fun m fuel => assignment_of_operation ends ?_
  exact (readsOperand_of_sound nested.sound nested.free).operation ends.toEndsOperation fuel

theorem condition_reads {e : Expr} (nested : e.Nested) (more : rest ≠ []) :
    Reads c condition (.punct .openParen :: (tokensOf e.ink ++ .punct .closeParen :: rest)) rest
      (e.same · = true) :=
  .bind (expectPunct_reads (by simp)) fun _ _ =>
    .bind (nestedExpression_reads nested (endsExpression_closer (by simp))) fun _ same =>
    .bind (expectPunct_reads more) fun _ _ => .pure same

theorem expressionStatement_reads {e : Expr} (sound : e.isSound = true)
    (root : e.assignsAtRoot = true) (more : rest ≠ []) :
    Reads c expressionStatement (tokensOf e.ink ++ .punct .semicolon :: rest) rest
      (e.same · = true) := by
  refine .bind context_reads fun outer _ => ?_
  refine .bind (.within (expression_reads sound root (endsExpression_closer (by simp)) rfl))
    fun value same => ?_
  exact .bind (expectPunct_reads more) fun _ _ => .pure same

theorem initializer?_reads {init : Option Initializer}
    (nested : ∀ i, init = some i → i.value.Nested) :
    Reads c initializer? (tokensOf (initializerInk init) ++ .punct .semicolon :: rest)
      (.punct .semicolon :: rest) (sameOption Initializer.same init · = true) := by
  cases init with
  | none =>
    exact .branch_false (accept_absent (by simp)) (.branch_false (accept_absent (by simp)) (.pure rfl))
  | some i =>
    obtain ⟨kind, value⟩ := i
    have read : Reads c nestedExpression (tokensOf value.ink ++ .punct .semicolon :: rest)
        (.punct .semicolon :: rest) (value.same · = true) :=
      nestedExpression_reads (nested _ rfl) (endsExpression_closer (by simp))
    cases kind with
    | value =>
      refine .branch_true (accept_present (by simp)) (.bind read fun value' same => .pure ?_)
      exact same
    | reference =>
      refine .branch_false (accept_absent (by simp [AssignKind.punct])) ?_
      refine .branch_true (accept_present (by simp)) (.bind read fun value' same => .pure ?_)
      exact same

/-! ## Declarations -/

/-- A statement is read that is the same but for numbers and places. -/
def SameStatement (s : Statement) (found : Option Statement) : Prop :=
  ∃ copy, found = some copy ∧ s.same copy = true

/-- No parenthesis is behind the name of a variable or field. -/
theorem initializer_starts (init : Option Initializer) (rest : List TokenKind) :
    ∃ k ks, tokensOf (initializerInk init) ++ .punct .semicolon :: rest = k :: ks ∧
      k ≠ .punct .openParen := by
  cases init with
  | none => exact ⟨_, _, rfl, by simp⟩
  | some i => exact ⟨_, _, rfl, by cases i.kind <;> simp [AssignKind.punct]⟩

theorem declaration_variable (self : Parser (Option Statement)) (node : Node) {decl : VarDecl}
    (variable_ : GrammaticalVariable decl.type decl.name decl.init) (more : rest ≠ []) :
    Reads c (declaration self)
      (tokensOf decl.type.ink ++ .ident decl.name.name ::
        (tokensOf (initializerInk decl.init) ++ .punct .semicolon :: rest)) rest
      (SameStatement (.varDecl node decl)) := by
  refine .bind here_reads fun start _ =>
    .bind (returnType_reads (.inl variable_.type) (by simp)) fun type sameType => ?_
  refine .bind (expectIdent_reads (by simp)) fun name sameName => ?_
  obtain ⟨k, ks, front, other⟩ := initializer_starts decl.init rest
  have read : Reads c initializer? (tokensOf (initializerInk decl.init) ++ .punct .semicolon :: rest)
      (.punct .semicolon :: rest) _ := initializer?_reads variable_.init
  rw [front] at read ⊢
  refine .branch_false (.mono (peek_reads _) fun _ eq => eq.trans (beq_false_of_ne other)) ?_
  rw [TypeRef.isVoid_of_same sameType, TypeRef.isVoid_of_sound variable_.type, if_neg (by simp)]
  refine .bind read fun init sameInit => .bind (expectPunct_reads more) fun _ _ => ?_
  refine .bind (nodeFrom_reads start) fun _ _ => .pure ⟨_, rfl, ?_⟩
  simp [Statement.same, VarDecl.same, Ident.same, sameType, sameName, sameInit]

/-! ## The kind of a statement -/

theorem later_ne_nil {s : ParserState} (kinds : s.kinds = k :: ks) (more : ks ≠ []) :
    s.cursor.later ≠ [] := by
  rintro none_
  exact more (by rw [← (kinds_cons kinds).2, none_]; rfl)

/-- In front of a name, what is read as a declaration is taken for one. -/
theorem startsDeclaration_reads {name : String} {self : Parser (Option Statement)}
    {good : Option Statement → List Class → List Function → Prop} (more : ks ≠ [])
    (h : Declares c (declaration self) (.ident name :: ks) after good) :
    Reads c startsDeclaration (.ident name :: ks) (.ident name :: ks) (· = true) := by
  intro s kinds
  obtain ⟨d, t, _, _, run, -⟩ := h s kinds
  have named := (kinds_cons kinds).1
  have on := declaration_named self _ d t run ⟨⟨name, named⟩, rfl⟩
  refine ⟨_, _, startsDeclaration_run (by rw [named]; nofun) (later_ne_nil kinds more), kinds,
    ⟨rfl, rfl⟩, on⟩

/-- In front of a name, what is read as an expression is taken for one. -/
theorem startsDeclaration_of_expression {name : String} {good : Expr → Prop} (more : ks ≠ [])
    (h : Reads c expressionStatement (.ident name :: ks) after good) :
    Reads c startsDeclaration (.ident name :: ks) (.ident name :: ks) (· = false) := by
  intro s kinds
  obtain ⟨e, t, run, -⟩ := h s kinds
  have named := (kinds_cons kinds).1
  refine ⟨_, _, startsDeclaration_run (by rw [named]; nofun) (later_ne_nil kinds more), kinds,
    ⟨rfl, rfl⟩, Bool.eq_false_iff.2 fun on => ?_⟩
  exact expressionStatement_named _ e t run ⟨⟨name, named⟩, on⟩

theorem statementWith_declaration (t : TypeRef) {self : Parser (Option Statement)}
    {good : Option Statement → List Class → List Function → Prop}
    (h : Declares c (declaration self) (tokensOf t.ink ++ k :: ks) after good) :
    Declares c (statementWith self) (tokensOf t.ink ++ k :: ks) after good := by
  obtain ⟨first, tail, front, opens⟩ := t.tokens_start []
  rw [List.append_nil] at front
  rw [front, List.cons_append] at h ⊢
  refine .behind here_reads fun start _ => .behind kind_reads fun kind eq => ?_
  subst eq
  cases kind with
  | ident name => exact .branch_true (startsDeclaration_reads (by simp) h) h
  | keyword word => cases word <;> first | exact absurd opens Bool.false_ne_true | exact h
  | _ => cases opens

theorem statementWith_expression (node : Node) {self : Parser (Option Statement)} {e : Expr}
    (opens : k.opensOperand = true) (brace : k ≠ .punct .openBrace) (more : ks ≠ [])
    (h : Reads c expressionStatement (k :: ks) after (e.same · = true)) :
    Reads c (statementWith self) (k :: ks) after (SameStatement (.expr node e)) := by
  have plain (start : Span) : Reads c (do
      let value ← expressionStatement
      return some (.expr (← nodeFrom start) value) : Parser (Option Statement)) (k :: ks) after
      (SameStatement (.expr node e)) :=
    .bind h fun value same => .bind (nodeFrom_reads start) fun _ _ =>
      .pure ⟨_, rfl, by rw [Statement.same, same]⟩
  refine .bind here_reads fun start _ => .bind kind_reads fun kind eq => ?_
  subst eq
  cases kind with
  | ident name => exact .branch_false (startsDeclaration_of_expression more h) (plain start)
  | literal value => exact plain start
  | keyword word =>
    cases word <;> first | exact absurd opens Bool.false_ne_true | exact plain start
  | punct p =>
    cases p <;> first
      | exact absurd opens Bool.false_ne_true
      | exact absurd rfl brace
      | exact plain start
  | eof => cases opens

/-! ## Blocks -/

/-- The statement is read with as much fuel as there are tokens. -/
def ReadsStatement (c : Context) (s : Statement) : Prop :=
  ∀ depth n rest, Resumes rest → (tokensOf (s.ink depth) ++ rest).length ≤ n →
    Reads c (iterate statementWith n) (tokensOf (s.ink depth) ++ rest) rest (SameStatement s)

/-- A parser reads the block, as long as no more tokens are left behind its brace than a bound. -/
def ReadsBlock (c : Context) (block : Parser Block) (bound : Nat) (b : Block) : Prop :=
  ∀ depth rest, rest ≠ [] → (tokensOf (b.ink depth) ++ rest).length ≤ bound + 1 →
    Reads c block (tokensOf (b.ink depth) ++ rest) rest (b.same · = true)

/-- What has been read, the latest first, is the same as some statements. -/
def SameRead (done read : List Statement) : Prop :=
  List.Forall₂ (fun s s' => s.same s' = true) done read.reverse

theorem SameRead.next {done read : List Statement} {s copy : Statement} (h : SameRead done read)
    (same : s.same copy = true) : SameRead (done ++ [s]) (copy :: read) := by
  rw [SameRead, List.reverse_cons]
  exact List.rel_append h (.cons same .nil)

theorem SameRead.sameStatements {done read : List Statement} (h : SameRead done read) :
    sameStatements done read.reverse = true := by
  rw [SameRead] at h
  generalize read.reverse = copies at h
  induction h with
  | nil => rw [ClassLang.sameStatements]
  | cons first _ ih => rw [ClassLang.sameStatements, first, ih]; rfl

theorem statement_resumes (depth : Nat) (s : Statement) (rest : List TokenKind) :
    Resumes (tokensOf (s.ink depth) ++ rest) := by
  obtain ⟨k, ks, front, opens⟩ := s.tokens_start depth rest
  exact ⟨k, ks, front, fun eq => by rw [eq] at opens; cases opens⟩

/-- One statement of a block, or the brace behind them. -/
def blockStep (statement : Parser (Option Statement)) (read : List Statement) :
    Parser (List Statement ⊕ List Statement) := do
  if ← accept .closeBrace then return .inr read.reverse
  else if ← atEnd then fail .unexpectedEof
  else match ← statement with
    | some s => return .inl (s :: read)
    | none => return .inl read

theorem blockOf_eq (statement : Parser (Option Statement)) :
    blockOf statement = (do
      let start ← expectPunct .openBrace
      let statements ← repeatFrom [] (blockStep statement)
      return .mk (← nodeFrom start) statements) := rfl

theorem blockStep_reads {statement : Parser (Option Statement)} {s : Statement}
    {done read : List Statement}
    (reads : Reads c statement (tokensOf (s.ink depth) ++ rest) rest (SameStatement s))
    (here : SameRead done read) :
    Reads c (blockStep statement read) (tokensOf (s.ink depth) ++ rest) rest
      fun result => ∃ y, result = .inl y ∧ SameRead (done ++ [s]) y := by
  obtain ⟨k, ks, front, opens⟩ := s.tokens_start depth rest
  have other {k' : TokenKind} (closed : k'.opensStatement = false) : k ≠ k' := by
    rintro rfl
    exact Bool.false_ne_true (closed.symm.trans opens)
  rw [front] at reads ⊢
  refine .branch_false (accept_absent (other rfl)) ?_
  refine .branch_false (.mono atEnd_reads fun _ eq => eq.trans (beq_false_of_ne (other rfl))) ?_
  refine .bind reads fun found same => ?_
  obtain ⟨copy, rfl, same⟩ := same
  exact .pure ⟨_, rfl, here.next same⟩

theorem blockLoop_reads {ss : List Statement} (reads : ∀ s ∈ ss, ReadsStatement c s)
    (more : rest ≠ [])
    (length : (tokensOf (statementsInk depth ss) ++ .punct .closeBrace :: rest).length ≤ bound) :
    Reads c (repeatFrom [] (blockStep (iterate statementWith bound)))
      (tokensOf (statementsInk depth ss) ++ .punct .closeBrace :: rest) rest
      (sameStatements ss · = true) := by
  rw [tokensOf_statements] at length ⊢
  refine .repeatFrom fun n fuel => Declares.reads <| Declares.loop_items
    (fun done read classes functions => SameRead done read ∧ classes = [] ∧ functions = [])
    (fun copies classes functions => sameStatements ss copies = true ∧ classes = [] ∧ functions = [])
    ss (fun s _ => statement_resumes depth s) ⟨_, _, rfl, by simp⟩ n [] [] [] [] ⟨.nil, rfl, rfl⟩
    ?_ ?_ length fuel
  · rintro s listed done read _ _ behind ⟨here, rfl, rfl⟩ resumes shorter
    refine .mono (blockStep_reads (reads s listed depth bound behind resumes shorter) here).declares ?_
    rintro _ _ _ ⟨⟨y, goes, same⟩, rfl, rfl⟩
    exact ⟨y, goes, same, rfl, rfl⟩
  · rintro n read _ _ ⟨here, rfl, rfl⟩ fuel
    refine .loop_ends (Nat.lt_of_lt_of_le (by simp) fuel) ?_
    exact .branch_true (accept_present more) (.pure ⟨_, rfl, here.sameStatements, rfl, rfl⟩)

theorem blockOf_reads (node : Node) {ss : List Statement}
    (reads : ∀ s ∈ ss, ReadsStatement c s) :
    ReadsBlock c (blockOf (iterate statementWith bound)) bound (.mk node ss) := by
  intro depth rest more length
  have tokens : tokensOf ((Block.mk node ss).ink depth) ++ rest = .punct .openBrace ::
      (tokensOf (statementsInk (depth + 1) ss) ++ .punct .closeBrace :: rest) := by
    simp [Block.ink]
  rw [tokens] at length ⊢
  rw [blockOf_eq]
  refine .bind (expectPunct_reads (by simp)) fun start _ => ?_
  refine .bind (blockLoop_reads reads more (Nat.le_of_succ_le_succ length)) fun copies same => ?_
  exact .bind (nodeFrom_reads start) fun _ _ => .pure (by rw [Block.same, same])

theorem block_starts (b : Block) (depth : Nat) (rest : List TokenKind) :
    ∃ ks, tokensOf (b.ink depth) ++ rest = .punct .openBrace :: ks := by
  cases b
  exact ⟨_, rfl⟩

theorem block_ne_nil (b : Block) (rest : List TokenKind) : tokensOf (b.ink depth) ++ rest ≠ [] := by
  obtain ⟨ks, front⟩ := block_starts b depth rest
  rw [front]
  exact List.cons_ne_nil _ _

theorem nestedBlock_reads {self : Parser (Option Statement)} {extra : Context} {b : Block}
    (h : ReadsBlock (c.nested extra) (blockOf self) bound b) :
    ReadsBlock c (nestedBlock self extra) bound b := by
  refine fun depth rest more length => .bind context_reads fun outer eq => ?_
  subst eq
  exact .within (h depth rest more length)

/-! ## Conditionals -/

/-- One more condition with its block, or what is done if all conditions fail. -/
def alternativeStep (block : Parser Block) (read : List (Expr × Block)) :
    Parser (List (Expr × Block) ⊕ List (Expr × Block) × Alternative) := do
  if ← acceptKeyword .kwElse then
    if ← acceptKeyword .kwIf then
      let c ← condition
      let b ← block
      return .inl ((c, b) :: read)
    else return .inr (read, .block (← block))
  else return .inr (read, .none)

/-- Conditions with their blocks, the latest first, in front of what is done if they fail. -/
def chained (read : List (Expr × Block)) (last : Alternative) : Alternative :=
  read.foldl (fun rest (c, b) => .elseIf c b rest) last

theorem alternative_eq (block : Parser Block) : alternative block = (do
    let (conditions, last) ← repeatFrom [] (alternativeStep block)
    return chained conditions last) := rfl

/-- What has been read stands in front of what is still to come. -/
theorem alternativeLoop_reads {block : Parser Block} (resumes : Resumes rest) : ∀ (a : Alternative)
    (n : Nat) (read : List (Expr × Block)), (∀ e ∈ a.conditions, e.Nested) →
      (∀ b ∈ a.blocks, ReadsBlock c block bound b) →
      (tokensOf (a.ink depth) ++ rest).length ≤ bound →
      (tokensOf (a.ink depth) ++ rest).length ≤ n →
      Reads c (loop (alternativeStep block) n read) (tokensOf (a.ink depth) ++ rest) rest
        fun r => ∃ copy, a.same copy = true ∧ chained r.1 r.2 = chained read copy
  | .none, n, read, _, _, _, fuel => by
    obtain ⟨k, ks, rfl, other⟩ := resumes
    obtain ⟨n, rfl⟩ : ∃ m, n = m + 1 := ⟨n - 1, by simp [Alternative.ink] at fuel; omega⟩
    refine .loop_ends (.branch_false (acceptKeyword_absent other) (.pure ⟨_, rfl, .none, ?_, rfl⟩))
    rw [Alternative.same]
  | .block body, n, read, _, reads, length, fuel => by
    have tokens : tokensOf ((Alternative.block body).ink depth) ++ rest =
        .keyword .kwElse :: (tokensOf (body.ink depth) ++ rest) := by
      simp [Alternative.ink]
    obtain ⟨k, ks, rfl, -⟩ := resumes
    rw [tokens] at length fuel ⊢
    obtain ⟨n, rfl⟩ : ∃ m, n = m + 1 := ⟨n - 1, by simp at fuel; omega⟩
    have read := reads body (List.mem_singleton_self body) depth (k :: ks) (by simp)
      (Nat.le_succ_of_le (Nat.le_of_succ_le length))
    obtain ⟨inner, front⟩ := block_starts body depth (k :: ks)
    rw [front] at read ⊢
    refine .loop_ends (.branch_true (acceptKeyword_present (by simp)) ?_)
    refine .branch_false (acceptKeyword_absent (by simp)) (.bind read fun copy same => ?_)
    exact .pure ⟨_, rfl, .block copy, by rw [Alternative.same, same], rfl⟩
  | .elseIf condition_ thenBlock a, n, read, nested, reads, length, fuel => by
    have tokens : tokensOf ((Alternative.elseIf condition_ thenBlock a).ink depth) ++ rest =
        .keyword .kwElse :: .keyword .kwIf :: .punct .openParen :: (tokensOf condition_.ink ++
          .punct .closeParen :: (tokensOf (thenBlock.ink depth) ++
            (tokensOf (a.ink depth) ++ rest))) := by
      simp [Alternative.ink, conditionInk]
    have shorter : (tokensOf (thenBlock.ink depth) ++ (tokensOf (a.ink depth) ++ rest)).length <
        (tokensOf ((Alternative.elseIf condition_ thenBlock a).ink depth) ++ rest).length := by
      rw [tokens]
      simp only [List.length_append, List.length_cons]
      omega
    have last : (tokensOf (a.ink depth) ++ rest).length ≤
        (tokensOf (thenBlock.ink depth) ++ (tokensOf (a.ink depth) ++ rest)).length := by
      simp only [List.length_append]
      omega
    obtain ⟨n, rfl⟩ : ∃ m, n = m + 1 := ⟨n - 1, by omega⟩
    have more : tokensOf (a.ink depth) ++ rest ≠ [] := by
      obtain ⟨k, ks, rfl, -⟩ := resumes
      simp
    rw [tokens]
    refine .loop_goes (tokensOf (a.ink depth) ++ rest)
      (fun next => ∃ e b, next = (e, b) :: read ∧ condition_.same e = true ∧ thenBlock.same b = true)
      (.branch_true (acceptKeyword_present (by simp))
        (.branch_true (acceptKeyword_present (by simp)) ?_)) ?_
    · refine .bind (condition_reads (nested condition_ (List.mem_cons_self ..))
        (block_ne_nil thenBlock _)) fun e sameCondition => ?_
      refine .bind (reads thenBlock (List.mem_cons_self ..) depth _ more (by omega))
        fun b sameBlock => .pure ⟨_, rfl, e, b, rfl, sameCondition, sameBlock⟩
    · rintro _ ⟨e, b, rfl, sameCondition, sameBlock⟩
      refine .mono (alternativeLoop_reads resumes a n _
        (fun e listed => nested e (List.mem_cons_of_mem condition_ listed))
        (fun b listed => reads b (List.mem_cons_of_mem thenBlock listed)) (by omega) (by omega)) ?_
      rintro r ⟨copy, same, eq⟩
      refine ⟨.elseIf e b copy, ?_, eq⟩
      rw [Alternative.same, sameCondition, sameBlock, same]
      rfl

theorem alternative_reads {block : Parser Block} {a : Alternative} (resumes : Resumes rest)
    (nested : ∀ e ∈ a.conditions, e.Nested) (reads : ∀ b ∈ a.blocks, ReadsBlock c block bound b)
    (length : (tokensOf (a.ink depth) ++ rest).length ≤ bound) :
    Reads c (alternative block) (tokensOf (a.ink depth) ++ rest) rest (a.same · = true) := by
  rw [alternative_eq]
  refine .bind (.repeatFrom fun n fuel =>
    alternativeLoop_reads resumes a n [] nested reads length fuel) ?_
  rintro ⟨conditions, last⟩ ⟨copy, same, eq⟩
  refine .pure ?_
  rw [eq]
  exact same

/-! ## All statements -/

theorem readsStatement_of_step {s : Statement}
    (h : ∀ depth n rest, Resumes rest → (tokensOf (s.ink depth) ++ rest).length ≤ n + 1 →
      Reads c (statementWith (iterate statementWith n)) (tokensOf (s.ink depth) ++ rest) rest
        (SameStatement s)) : ReadsStatement c s := by
  intro depth n rest resumes length
  obtain ⟨k, ks, front, -⟩ := statement_resumes depth s rest
  have nonempty : tokensOf (s.ink depth) ++ rest ≠ [] := by simp [front]
  exact .iterate nonempty length fun m fuel => h depth m rest resumes fuel

theorem Resumes.ne_nil (h : Resumes rest) : rest ≠ [] := by
  obtain ⟨k, ks, rfl, -⟩ := h
  exact List.cons_ne_nil _ _

theorem readsStatement_varDecl (node : Node) {decl : VarDecl}
    (variable_ : GrammaticalVariable decl.type decl.name decl.init) :
    ReadsStatement c (.varDecl node decl) := by
  refine readsStatement_of_step fun depth n rest resumes _ => ?_
  have tokens : tokensOf ((Statement.varDecl node decl).ink depth) ++ rest =
      tokensOf decl.type.ink ++ .ident decl.name.name ::
        (tokensOf (initializerInk decl.init) ++ .punct .semicolon :: rest) := by
    simp [Statement.ink, declarationInk]
  rw [tokens]
  exact (statementWith_declaration decl.type
    (declaration_variable (iterate statementWith n) node variable_ resumes.ne_nil).declares).reads

/-- An expression that is not taken for a block. -/
theorem readsStatement_expr (node : Node) {e : Expr} (sound : e.isSound = true)
    (root : e.assignsAtRoot = true) (brace : e.opensBrace = false) :
    ReadsStatement c (.expr node e) := by
  refine readsStatement_of_step fun depth n rest resumes _ => ?_
  have tokens : tokensOf ((Statement.expr node e).ink depth) ++ rest =
      tokensOf e.ink ++ .punct .semicolon :: rest := by
    simp [Statement.ink]
  have read := expressionStatement_reads (c := c) sound root resumes.ne_nil
  obtain ⟨k, ks, front, opens⟩ := e.tokens_open []
  rw [List.append_nil] at front
  have other : k ≠ .punct .openBrace := by
    rintro rfl
    simp [Expr.opensBrace, front] at brace
  rw [tokens]
  rw [front] at read ⊢
  exact statementWith_expression node opens other (by simp) read

theorem readsStatement_return (node : Node) {value : Option Expr} (inside : c.inFunction = true)
    (nested : ∀ e, value = some e → e.Nested) : ReadsStatement c (.return node value) := by
  refine readsStatement_of_step fun depth n rest resumes _ => ?_
  have ended (start : Span) (value' : Option Expr) (same : sameOption Expr.same value value' = true) :
      Reads c (do
        let _ ← expectPunct .semicolon
        return some (.return (← nodeFrom start) value') : Parser (Option Statement))
        (.punct .semicolon :: rest) rest (SameStatement (.return node value)) := by
    refine .bind (expectPunct_reads resumes.ne_nil) fun _ _ =>
      .bind (nodeFrom_reads start) fun _ _ => .pure ⟨_, rfl, ?_⟩
    rw [Statement.same, same]
  have returns {tokens : List TokenKind} (more : tokens ≠ [])
      (h : ∀ start, Reads c (do
        let value ← if ← peekPunct .semicolon then Pure.pure none else some <$> nestedExpression
        let _ ← expectPunct .semicolon
        return some (.return (← nodeFrom start) value) : Parser (Option Statement)) tokens rest
        (SameStatement (.return node value))) :
      Reads c (statementWith (iterate statementWith n)) (.keyword .kwReturn :: tokens) rest
        (SameStatement (.return node value)) := by
    refine .bind here_reads fun start _ => .bind kind_reads fun kind eq => ?_
    subst eq
    refine .bind context_reads fun outer eq => ?_
    subst eq
    rw [if_neg (by simp [inside])]
    exact .bind (bump_reads (by simp) more) fun _ _ => h start
  cases value with
  | none =>
    have tokens : tokensOf ((Statement.return node none).ink depth) ++ rest =
        .keyword .kwReturn :: .punct .semicolon :: rest := by
      simp [Statement.ink]
    rw [tokens]
    refine returns (by simp) fun start => .branch_true (.mono (peek_reads _) fun _ eq => ?_) ?_
    · exact eq.trans (by simp)
    · exact .bind (.pure rfl) fun value eq => by subst eq; exact ended start none rfl
  | some e =>
    have tokens : tokensOf ((Statement.return node (some e)).ink depth) ++ rest =
        .keyword .kwReturn :: (tokensOf e.ink ++ .punct .semicolon :: rest) := by
      simp [Statement.ink]
    have read : Reads c nestedExpression (tokensOf e.ink ++ .punct .semicolon :: rest)
        (.punct .semicolon :: rest) (e.same · = true) :=
      nestedExpression_reads (nested e rfl) (endsExpression_closer (by simp))
    obtain ⟨k, ks, front, opens⟩ := e.tokens_open (.punct .semicolon :: rest)
    have other : k ≠ .punct .semicolon := by
      rintro rfl
      cases opens
    rw [tokens]
    refine returns (by simp) fun start => ?_
    rw [front] at read ⊢
    refine .branch_false (.mono (peek_reads _) fun _ eq => eq.trans (beq_false_of_ne other)) ?_
    exact .bind (.bind read fun _ same => .pure same) fun value same => ended start value same

theorem jump_reads {word : Keyword} {make : Node → Statement} {s : Statement}
    (inside : c.inLoop = true) (same : ∀ n, s.same (make n) = true) (more : rest ≠ []) :
    Reads c (jump word make) (.keyword word :: .punct .semicolon :: rest) rest
      (SameStatement s) := by
  refine .bind here_reads fun start _ => .bind context_reads fun outer eq => ?_
  subst eq
  rw [if_neg (by simp [inside])]
  refine .bind (bump_reads (by simp) (by simp)) fun _ _ => .bind (expectPunct_reads more) fun _ _ => ?_
  exact .bind (nodeFrom_reads start) fun n _ => .pure ⟨_, rfl, same n⟩

theorem readsStatement_while (node : Node) {condition_ : Expr} {body : Block}
    (nested : condition_.Nested)
    (reads : ∀ n, ReadsBlock (c.nested { Context.none with inLoop := true })
      (blockOf (iterate statementWith n)) n body) :
    ReadsStatement c (.while node condition_ body) := by
  refine readsStatement_of_step fun depth n rest resumes length => ?_
  have tokens : tokensOf ((Statement.while node condition_ body).ink depth) ++ rest =
      .keyword .kwWhile :: .punct .openParen :: (tokensOf condition_.ink ++
        .punct .closeParen :: (tokensOf (body.ink depth) ++ rest)) := by
    simp [Statement.ink, conditionInk]
  rw [tokens] at length ⊢
  have shorter : (tokensOf (body.ink depth) ++ rest).length ≤ n := by
    simp only [List.length_append, List.length_cons] at length ⊢
    omega
  have block := nestedBlock_reads (reads n) depth rest resumes.ne_nil (Nat.le_succ_of_le shorter)
  refine .bind here_reads fun start _ => .bind kind_reads fun kind eq => ?_
  subst eq
  refine .bind (bump_reads (by simp) (by simp)) fun _ _ => ?_
  refine .bind (condition_reads nested (block_ne_nil body rest)) fun e sameCondition => ?_
  refine .bind block fun b sameBlock => ?_
  refine .bind (nodeFrom_reads start) fun _ _ => .pure ⟨_, rfl, ?_⟩
  rw [Statement.same, sameCondition, sameBlock]
  rfl

theorem readsStatement_ifElse (node : Node) {condition_ : Expr} {thenBlock : Block}
    {alternative_ : Alternative} (nested : condition_.Nested)
    (others : ∀ e ∈ alternative_.conditions, e.Nested)
    (reads : ∀ n, ∀ b ∈ thenBlock :: alternative_.blocks,
      ReadsBlock (c.nested { Context.none with inIf := true })
        (blockOf (iterate statementWith n)) n b) :
    ReadsStatement c (.ifElse node condition_ thenBlock alternative_) := by
  refine readsStatement_of_step fun depth n rest resumes length => ?_
  have tokens : tokensOf ((Statement.ifElse node condition_ thenBlock alternative_).ink depth) ++
      rest = .keyword .kwIf :: .punct .openParen :: (tokensOf condition_.ink ++ .punct .closeParen ::
        (tokensOf (thenBlock.ink depth) ++ (tokensOf (alternative_.ink depth) ++ rest))) := by
    simp [Statement.ink, conditionInk]
  rw [tokens] at length ⊢
  have shorter : (tokensOf (thenBlock.ink depth) ++
      (tokensOf (alternative_.ink depth) ++ rest)).length ≤ n := by
    simp only [List.length_append, List.length_cons] at length ⊢
    omega
  have last : (tokensOf (alternative_.ink depth) ++ rest).length ≤ n := by
    rw [List.length_append] at shorter
    omega
  have more : tokensOf (alternative_.ink depth) ++ rest ≠ [] := by simp [resumes.ne_nil]
  obtain ⟨first, second⟩ := List.forall_mem_cons.1 fun b listed =>
    nestedBlock_reads (reads n b listed)
  refine .bind here_reads fun start _ => .bind kind_reads fun kind eq => ?_
  subst eq
  refine .bind (bump_reads (by simp) (by simp)) fun _ _ => ?_
  refine .bind (condition_reads nested (block_ne_nil thenBlock _)) fun e sameCondition => ?_
  refine .bind (first depth _ more (Nat.le_succ_of_le shorter)) fun b sameBlock => ?_
  refine .bind (alternative_reads resumes others second last) fun a sameRest => ?_
  refine .bind (nodeFrom_reads start) fun _ _ => .pure ⟨_, rfl, ?_⟩
  rw [Statement.same, sameCondition, sameBlock, sameRest]
  rfl

theorem readsStatement_tryCatch (node : Node) {body handler : Block}
    (reads : ∀ n, ∀ b ∈ [body, handler], ReadsBlock (c.nested { Context.none with inTry := true })
      (blockOf (iterate statementWith n)) n b) :
    ReadsStatement c (.tryCatch node body handler) := by
  refine readsStatement_of_step fun depth n rest resumes length => ?_
  have tokens : tokensOf ((Statement.tryCatch node body handler).ink depth) ++ rest =
      .keyword .kwTry :: (tokensOf (body.ink depth) ++
        .keyword .kwCatch :: (tokensOf (handler.ink depth) ++ rest)) := by
    simp [Statement.ink]
  rw [tokens] at length ⊢
  have shorter : (tokensOf (handler.ink depth) ++ rest).length ≤ n + 1 := by
    simp only [List.length_append, List.length_cons] at length ⊢
    omega
  obtain ⟨first, second⟩ := List.forall_mem_cons.1 fun b listed =>
    nestedBlock_reads (reads n b listed)
  refine .bind here_reads fun start _ => .bind kind_reads fun kind eq => ?_
  subst eq
  refine .bind (bump_reads (by simp) (block_ne_nil body _)) fun _ _ => ?_
  refine .bind (first depth _ (by simp) (Nat.le_of_succ_le length)) fun b sameBody => ?_
  refine .bind (expectKeyword_reads (block_ne_nil handler rest)) fun _ _ => ?_
  refine .bind (List.forall_mem_singleton.1 second depth rest resumes.ne_nil shorter)
    fun b' sameHandler => ?_
  refine .bind (nodeFrom_reads start) fun _ _ => .pure ⟨_, rfl, ?_⟩
  rw [Statement.same, sameBody, sameHandler]
  rfl

theorem readsStatement_block (node : Node) {body : Block}
    (reads : ∀ n, ReadsBlock (c.nested .none) (blockOf (iterate statementWith n)) n body) :
    ReadsStatement c (.block node body) := by
  refine readsStatement_of_step fun depth n rest resumes length => ?_
  have tokens : tokensOf ((Statement.block node body).ink depth) ++ rest =
      tokensOf (body.ink depth) ++ rest := by
    simp [Statement.ink]
  rw [tokens] at length ⊢
  have block := nestedBlock_reads (reads n) depth rest resumes.ne_nil length
  obtain ⟨inner, front⟩ := block_starts body depth rest
  rw [front] at block ⊢
  refine .bind here_reads fun start _ => .bind kind_reads fun kind eq => ?_
  subst eq
  refine .bind block fun b same => .bind (nodeFrom_reads start) fun _ _ => .pure ⟨_, rfl, ?_⟩
  rw [Statement.same, same]

mutual

theorem reads_statement : ∀ (s : Statement) {c : Context}, s.Grammatical c →
    (∀ r ∈ s.within, Statement.Replays r) → ReadsStatement c s
  | .varDecl node _, _, variable_, _ => readsStatement_varDecl node variable_
  | .expr node _, _, standalone, replays =>
    have ⟨brace, root⟩ := replays _ (List.mem_singleton_self _)
    readsStatement_expr node (Expr.Standalone.sound standalone) (root _ _ rfl) brace
  | .ifElse node _ thenBlock alternative_, _, ⟨nested, first, second⟩, replays => by
    obtain ⟨-, inside⟩ := List.forall_mem_cons.1 replays
    obtain ⟨inFirst, inSecond⟩ := List.forall_mem_append.1 inside
    refine readsStatement_ifElse node nested second.nested fun n => List.forall_mem_cons.2 ?_
    exact ⟨reads_block thenBlock first inFirst n, fun b listed =>
      reads_alternative alternative_ second inSecond b listed n⟩
  | .while node _ body, _, ⟨nested, grammatical⟩, replays =>
    readsStatement_while node nested
      (reads_block body grammatical (List.forall_mem_cons.1 replays).2)
  | .tryCatch node body handler, _, ⟨first, second⟩, replays => by
    obtain ⟨-, inside⟩ := List.forall_mem_cons.1 replays
    obtain ⟨inFirst, inSecond⟩ := List.forall_mem_append.1 inside
    refine readsStatement_tryCatch node fun n => List.forall_mem_cons.2
      ⟨reads_block body first inFirst n, List.forall_mem_singleton.2 ?_⟩
    exact reads_block handler second inSecond n
  | .return node _, _, ⟨inside, nested⟩, _ => readsStatement_return node inside nested
  | .break _, _, inside, _ => by
    refine readsStatement_of_step fun depth n rest resumes _ => ?_
    refine .bind here_reads fun start _ => .bind kind_reads fun kind eq => ?_
    subst eq
    exact jump_reads inside (fun n => by rw [Statement.same]) resumes.ne_nil
  | .continue _, _, inside, _ => by
    refine readsStatement_of_step fun depth n rest resumes _ => ?_
    refine .bind here_reads fun start _ => .bind kind_reads fun kind eq => ?_
    subst eq
    exact jump_reads inside (fun n => by rw [Statement.same]) resumes.ne_nil
  | .block node body, _, grammatical, replays =>
    readsStatement_block node (reads_block body grammatical (List.forall_mem_cons.1 replays).2)

theorem reads_block : ∀ (b : Block) {c : Context}, b.Grammatical c →
    (∀ r ∈ b.within, Statement.Replays r) → ∀ n, ReadsBlock c (blockOf (iterate statementWith n)) n b
  | .mk node ss, _, grammatical, replays, _ =>
    blockOf_reads node (reads_statements ss grammatical replays)

theorem reads_alternative : ∀ (a : Alternative) {c : Context}, a.Grammatical c →
    (∀ r ∈ a.within, Statement.Replays r) → ∀ b ∈ a.blocks, ∀ n,
      ReadsBlock c (blockOf (iterate statementWith n)) n b
  | .none, _, _, _ => nofun
  | .block body, _, grammatical, replays =>
    List.forall_mem_singleton.2 (reads_block body grammatical replays)
  | .elseIf _ thenBlock a, _, ⟨_, first, second⟩, replays =>
    have ⟨inFirst, inSecond⟩ := List.forall_mem_append.1 replays
    List.forall_mem_cons.2 ⟨reads_block thenBlock first inFirst, reads_alternative a second inSecond⟩

theorem reads_statements : ∀ (ss : List Statement) {c : Context}, GrammaticalStatements c ss →
    (∀ r ∈ withinStatements ss, Statement.Replays r) → ∀ s ∈ ss, ReadsStatement c s
  | [], _, _, _ => nofun
  | s :: ss, _, ⟨first, others⟩, replays =>
    have ⟨inFirst, inOthers⟩ := List.forall_mem_append.1 replays
    List.forall_mem_cons.2 ⟨reads_statement s first inFirst, reads_statements ss others inOthers⟩

end

end Parser

end ClassLang
