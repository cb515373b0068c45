import ClassLang.Proofs.Parsing.Runs

/-!
What all parsers are made of. `Composed aside p` says that `p` is put together from a few steps:
looking at the state, reading a token, numbering nodes, failing, changing the context for a part,
and, if `aside` holds, putting declarations aside. Whatever holds of these steps and passes through
sequencing holds of every rule of the grammar.
-/

namespace ClassLang

namespace Parser

inductive Composed (aside : Bool) : {α : Type} → Parser α → Prop where
  | pure (a : α) : Composed aside (Pure.pure a)
  | bind {p : Parser α} {f : α → Parser β} : Composed aside p → (∀ a, Composed aside (f a)) →
      Composed aside (p >>= f)
  | look (f : ParserState → α) : (∀ s handler, f { s with handler } = f s) →
      Composed aside ⟨fun s => (.ok (f s), s)⟩
  | bump : Composed aside bump
  | number (f : Nat → α × Nat) :
      Composed aside ⟨fun s => (.ok (f s.nextId).1, { s with nextId := (f s.nextId).2 })⟩
  | shelve (f : List Class → List Function → α × List Class × List Function) : aside = true →
      Composed aside ⟨fun s =>
        let (a, classes, functions) := f s.classes s.functions
        (.ok a, { s with classes, functions })⟩
  | fail (cause : SyntaxCause) : Composed aside (Parser.fail cause : Parser α)
  | failAt (span : Span) (cause : SyntaxCause) :
      Composed aside (Parser.failAt span cause : Parser α)
  | within {p : Parser α} (c : Context) : Composed aside p → Composed aside (Parser.within c p)

variable {α β σ : Type} {aside : Bool}

namespace Composed

theorem map {p : Parser α} (f : α → β) (h : Composed aside p) : Composed aside (f <$> p) :=
  .bind h fun _ => .pure _

/-- A parser that is chosen by the number of tokens left. -/
theorem choose {f : Nat → Parser α} (h : ∀ n, Composed aside (f n)) :
    Composed aside ⟨fun s => (f s.cursor.remaining).run s⟩ :=
  .bind (.look (·.cursor.remaining) fun _ _ => rfl) h

theorem loop {step : σ → Parser (σ ⊕ β)} (hstep : ∀ x, Composed aside (step x)) (n : Nat) :
    ∀ x, Composed aside (Parser.loop step n x) := by
  induction n with
  | zero => exact fun _ => .fail _
  | succ n ih =>
    intro x
    refine .bind (hstep x) fun result => ?_
    cases result with
    | inl y => exact ih y
    | inr b => exact .pure b

theorem repeatFrom {step : σ → Parser (σ ⊕ β)} (hstep : ∀ x, Composed aside (step x)) (start : σ) :
    Composed aside (Parser.repeatFrom start step) :=
  choose (f := fun n => Parser.loop step (n + 1) start) fun _ => loop hstep _ start

theorem recursive {rule : Parser α → Parser α}
    (hrule : ∀ p, Composed aside p → Composed aside (rule p)) :
    Composed aside (Parser.recursive rule) :=
  choose (f := fun n => iterate rule (n + 1)) fun _ => iterate_induction (.fail _) hrule _

end Composed

/-- A parser that puts nothing aside leaves what has been. -/
theorem Composed.shelf_eq {p : Parser α} (h : Composed false p) (s : ParserState) :
    (p.run s).2.classes = s.classes ∧ (p.run s).2.functions = s.functions := by
  generalize off : false = aside at h
  induction h generalizing s with
  | pure _ | look _ _ | number _ | fail _ | failAt _ _ => exact ⟨rfl, rfl⟩
  | bump =>
    unfold Parser.bump
    dsimp only
    split <;> exact ⟨rfl, rfl⟩
  | @bind _ _ p f _ _ ihp ihf =>
    have first := ihp s
    change ((Parser.bind p f).run s).2.classes = _ ∧ ((Parser.bind p f).run s).2.functions = _
    unfold Parser.bind
    dsimp only
    rcases run : p.run s with ⟨_ | a, middle⟩
    · rwa [run] at first
    · rw [run] at first
      have second := ihf a middle
      exact ⟨second.1.trans first.1, second.2.trans first.2⟩
  | shelve _ allowed =>
    rw [← off] at allowed
    cases allowed
  | within c _ ih => exact ih { s with context := c }

/-- No parser goes back. -/
theorem Composed.suffix {p : Parser α} (h : Composed aside p) (s : ParserState) :
    (p.run s).2.cursor.tokens <:+ s.cursor.tokens := by
  induction h generalizing s with
  | pure _ | look _ _ | number _ | shelve _ _ | fail _ | failAt _ _ => exact List.suffix_refl _
  | bump => exact bump_suffix s
  | @bind _ _ p f _ _ ihp ihf =>
    have first := ihp s
    change ((Parser.bind p f).run s).2.cursor.tokens <:+ _
    unfold Parser.bind
    dsimp only
    rcases run : p.run s with ⟨_ | a, middle⟩
    · rwa [run] at first
    · rw [run] at first
      exact (ihf a middle).trans first
  | within c _ ih => exact ih { s with context := c }

/-! ## Tokens -/

theorem context_composed : Composed aside context := .look _ fun _ _ => rfl
theorem current_composed : Composed aside current := .look _ fun _ _ => rfl
theorem kind_composed : Composed aside kind := .look _ fun _ _ => rfl
theorem here_composed : Composed aside here := .look _ fun _ _ => rfl
theorem atEnd_composed : Composed aside atEnd := .look _ fun _ _ => rfl
theorem peek_composed (wanted : TokenKind) : Composed aside (peek wanted) :=
  .look _ fun _ _ => rfl
theorem spanFrom_composed (start : Span) : Composed aside (spanFrom start) :=
  .look _ fun _ _ => rfl
theorem nodeCount_composed : Composed aside nodeCount := .look _ fun _ _ => rfl
theorem startsDeclaration_composed : Composed aside startsDeclaration := .look _ fun _ _ => rfl

theorem newNode_composed (span : Span) : Composed aside (newNode span) :=
  .number fun n => (Node.mk n span, n + 1)

theorem nodeFrom_composed (start : Span) : Composed aside (nodeFrom start) :=
  .bind (spanFrom_composed start) newNode_composed

theorem addClass_composed (c : Class) : Composed true (addClass c) :=
  .shelve (fun classes functions => ((), classes ++ [c], functions)) rfl

theorem addFunction_composed (f : Function) : Composed true (addFunction f) :=
  .shelve (fun classes functions => ((), classes, functions ++ [f])) rfl

theorem takeDeclarations_composed : Composed true takeDeclarations :=
  .shelve (fun classes functions => ((classes, functions), [], [])) rfl

theorem take?_composed (wanted : TokenKind) : Composed aside (take? wanted) := by
  refine .bind (peek_composed wanted) fun present => ?_
  split
  · exact .bind .bump fun _ => .pure _
  · exact .pure _

theorem takePunctOf?_composed (marks : List Punct) : Composed aside (takePunctOf? marks) := by
  refine .bind kind_composed fun kind => ?_
  split
  · split
    · exact .bind .bump fun _ => .pure _
    · exact .pure _
  · exact .pure _

theorem takeIdent?_composed : Composed aside takeIdent? := by
  refine .bind kind_composed fun kind => ?_
  split
  · exact .bind .bump fun _ => .pure _
  · exact .pure _

theorem accept_composed (p : Punct) : Composed aside (accept p) :=
  .bind (take?_composed _) fun _ => .pure _

theorem acceptKeyword_composed (k : Keyword) : Composed aside (acceptKeyword k) :=
  .bind (take?_composed _) fun _ => .pure _

theorem expected_composed (text : String) : Composed aside (expected text : Parser α) :=
  .bind current_composed fun _ => .fail _

theorem expectPunct_composed (p : Punct) : Composed aside (expectPunct p) := by
  refine .bind (take?_composed _) fun span => ?_
  split
  · exact .pure _
  · exact expected_composed _

theorem expectKeyword_composed (k : Keyword) : Composed aside (expectKeyword k) := by
  refine .bind (take?_composed _) fun span => ?_
  split
  · exact .pure _
  · exact expected_composed _

theorem expectIdent_composed : Composed aside expectIdent := by
  refine .bind takeIdent?_composed fun name => ?_
  split
  · exact .pure _
  · refine .bind atEnd_composed fun ended => ?_
    split <;> exact .fail _

theorem commaList_composed {item : Parser α} (closing : Punct) (cause : SyntaxCause)
    (h : Composed aside item) : Composed aside (commaList closing cause item) := by
  refine .bind (accept_composed _) fun closed => ?_
  split
  · exact .pure _
  refine .repeatFrom (fun items => .bind h fun a => .bind (accept_composed _) fun comma => ?_) _
  split
  · exact .pure _
  refine .bind (accept_composed _) fun closed => ?_
  split
  · exact .pure _
  · exact .fail _

/-! ## Types -/

theorem modifiers_composed : Composed aside modifiers := by
  refine .repeatFrom (fun m => ?_) _
  have another (present : Bool) (word : Keyword) (added : Modifiers) :
      Composed aside (if present then Parser.fail (.duplicateModifier word)
        else do let _ ← bump; return .inl added : Parser (Modifiers ⊕ Modifiers)) := by
    split
    · exact .fail _
    · exact .bind .bump fun _ => .pure _
  refine .bind kind_composed fun kind => ?_
  split
  · exact another _ _ _
  · exact another _ _ _
  · exact another _ _ _
  · exact .pure _

section Types

variable {type : Parser TypeRef}

theorem typeArgs?_composed (h : Composed aside type) : Composed aside (typeArgs? type) := by
  refine .bind (accept_composed _) fun bracket => ?_
  split
  · exact .bind (commaList_composed _ _ h) fun _ => .pure _
  · exact .pure _

theorem typeWith_composed (allowVoid : Bool) (h : Composed aside type) :
    Composed aside (typeWith type allowVoid) := by
  refine .bind here_composed fun start => .bind modifiers_composed fun mods => ?_
  refine .bind kind_composed fun kind => ?_
  split
  · split
    · exact .fail _
    · exact .bind .bump fun _ => .bind (nodeFrom_composed start) fun _ => .pure _
  · exact .bind .bump fun _ => .bind (typeArgs?_composed h) fun _ =>
      .bind (nodeFrom_composed start) fun _ => .pure _
  · exact .bind .bump fun _ => .bind (typeArgs?_composed h) fun _ =>
      .bind (nodeFrom_composed start) fun _ => .pure _
  · exact .bind .bump fun _ => .bind (nodeFrom_composed start) fun _ => .pure _
  · refine .bind expectIdent_composed fun name => .bind (typeArgs?_composed h) fun args => ?_
    split <;> exact .bind (nodeFrom_composed start) fun _ => .pure _
  · exact .fail _
  · exact .fail _

theorem typeRef_composed : Composed aside typeRef := .recursive fun _ h => typeWith_composed _ h

theorem returnType_composed : Composed aside returnType := typeWith_composed _ typeRef_composed

end Types

/-! ## Expressions -/

section Expressions

variable {next operand nested expr : Parser Expr}

theorem freshCopy_composed (e : Expr) : Composed aside (freshCopy e) :=
  .number e.renumber

theorem binaryNode_composed (op : BinaryOp) (lhs rhs : Expr) :
    Composed aside (binaryNode op lhs rhs) :=
  .bind (newNode_composed _) fun _ => .pure _

theorem unaryNode_composed (op : UnaryOp) (start : Span) (operand : Expr) :
    Composed aside (unaryNode op start operand) :=
  .bind (nodeFrom_composed start) fun _ => .pure _

theorem operatorOf?_composed (ops : List BinaryOp) : Composed aside (operatorOf? ops) := by
  refine .bind kind_composed fun kind => ?_
  split
  · exact .bind .bump fun _ => .pure _
  · exact .pure _

theorem leftAssoc_composed (ops : List BinaryOp) (h : Composed aside next) :
    Composed aside (leftAssoc ops next) := by
  refine .bind h fun first => .repeatFrom (fun lhs => ?_) first
  refine .bind (operatorOf?_composed ops) fun op => ?_
  split
  · exact .bind h fun rhs => .bind (binaryNode_composed _ _ _) fun _ => .pure _
  · exact .pure _

theorem operations_composed (ops : List BinaryOp) (h : Composed aside next) :
    Composed aside (operations ops next) := by
  refine .repeatFrom (fun read => .bind (operatorOf?_composed ops) fun op => ?_) _
  split
  · exact .bind h fun rhs => .pure _
  · exact .pure _

theorem comparisons_composed (lhs : Expr) (rest : List (BinaryOp × Expr)) :
    Composed aside (comparisons lhs rest) := by
  induction rest generalizing lhs with
  | nil => exact .pure _
  | cons first rest ih =>
    exact .bind (freshCopy_composed _) fun shared => .bind (binaryNode_composed _ _ _) fun _ =>
      .bind (ih shared) fun _ => .pure _

theorem conjunction_composed (first : Expr) (rest : List Expr) :
    Composed aside (conjunction first rest) := by
  induction rest generalizing first with
  | nil => exact .pure _
  | cons second rest ih => exact .bind (ih second) fun _ => binaryNode_composed _ _ _

theorem chain_composed (ops : List BinaryOp) (h : Composed aside next) :
    Composed aside (chain ops next) := by
  refine .bind h fun first => .bind (operations_composed ops h) fun others =>
    .bind (comparisons_composed first others) fun compared => ?_
  split
  · exact .pure _
  · exact conjunction_composed _ _

theorem binary_composed (ls : List Level) (h : Composed aside operand) :
    Composed aside (binary ls operand) := by
  induction ls with
  | nil => exact h
  | cons l tighter ih =>
    cases l with
    | leftAssoc ops => exact leftAssoc_composed ops ih
    | chain ops => exact chain_composed ops ih

theorem applyUnary_composed (operand : Expr) (ops : List (UnaryOp × Span)) :
    Composed aside (applyUnary operand ops) := by
  induction ops with
  | nil => exact .pure _
  | cons op inner ih => exact .bind ih fun _ => unaryNode_composed _ _ _

theorem unary_composed (op? : TokenKind → Option UnaryOp) (h : Composed aside operand) :
    Composed aside (unary op? operand) := by
  have ops : Composed aside (unaryOps op?) := by
    refine .repeatFrom (fun read => ?_) _
    refine .bind here_composed fun start => .bind kind_composed fun kind => ?_
    split
    · exact .bind .bump fun _ => .pure _
    · exact .pure _
  exact .bind ops fun _ => .bind h fun _ => applyUnary_composed _ _

theorem powerOf_composed (base : Expr) (others : List Expr) :
    Composed aside (powerOf base others) := by
  induction others generalizing base with
  | nil => exact .pure _
  | cons second rest ih => exact .bind (ih second) fun _ => binaryNode_composed _ _ _

theorem power_composed (h : Composed aside operand) : Composed aside (power operand) :=
  .bind h fun _ => .bind (operations_composed _ h) fun _ => powerOf_composed _ _

theorem keymapPair_composed (h : Composed aside nested) : Composed aside (keymapPair nested) :=
  .bind here_composed fun start => .bind h fun _ => .bind (expectPunct_composed _) fun _ =>
    .bind h fun _ => .bind (nodeFrom_composed start) fun _ => .pure _

theorem primary_composed (h : Composed aside nested) : Composed aside (primary nested) := by
  refine .bind here_composed fun start => ?_
  have word (make : Node → Expr) :
      Composed aside (do let _ ← bump; return make (← nodeFrom start) : Parser Expr) :=
    .bind .bump fun _ => .bind (nodeFrom_composed start) fun _ => .pure _
  refine .bind kind_composed fun kind => ?_
  split
  · exact .bind expectIdent_composed fun _ => .bind (nodeFrom_composed start) fun _ => .pure _
  · exact word _
  · exact word _
  · exact word _
  · exact word _
  · exact word _
  · exact word _
  · exact .bind .bump fun _ => .bind h fun _ => .bind (expectPunct_composed _) fun _ => .pure _
  · exact .bind .bump fun _ => .bind (commaList_composed _ _ h) fun _ =>
      .bind (nodeFrom_composed start) fun _ => .pure _
  · exact .bind .bump fun _ => .bind (commaList_composed _ _ (keymapPair_composed h)) fun _ =>
      .bind (nodeFrom_composed start) fun _ => .pure _
  · exact .fail _
  · exact .fail _

theorem postfixStep_composed (start : Span) (target : Expr) (h : Composed aside nested) :
    Composed aside (postfixStep nested start target) := by
  refine .bind (accept_composed _) fun dot => ?_
  split
  · exact .bind expectIdent_composed fun _ => .bind (nodeFrom_composed start) fun _ => .pure _
  refine .bind (accept_composed _) fun arrow => ?_
  split
  · exact .bind expectIdent_composed fun _ => .bind (nodeFrom_composed start) fun _ => .pure _
  refine .bind (accept_composed _) fun bracket => ?_
  split
  · exact .bind h fun _ => .bind (expectPunct_composed _) fun _ =>
      .bind (nodeFrom_composed start) fun _ => .pure _
  refine .bind (accept_composed _) fun paren => ?_
  split
  · exact .bind (commaList_composed _ _ h) fun _ =>
      .bind (nodeFrom_composed start) fun _ => .pure _
  · exact .pure _

theorem postfixed_composed (h : Composed aside nested) : Composed aside (postfixed nested) :=
  .bind here_composed fun start => .bind (primary_composed h) fun first =>
    .repeatFrom (fun target => postfixStep_composed start target h) first

theorem allocation_composed (h : Composed aside nested) : Composed aside (allocation nested) := by
  refine .bind here_composed fun start => .bind (acceptKeyword_composed _) fun new => ?_
  split
  · exact .bind typeRef_composed fun _ => .bind (nodeFrom_composed start) fun _ => .pure _
  refine .bind (acceptKeyword_composed _) fun delete => ?_
  split
  · refine .bind (peek_composed _) fun new => .bind (peek_composed _) fun delete => ?_
    split
    · exact .fail _
    · exact .bind (postfixed_composed h) fun _ => unaryNode_composed _ _ _
  · exact postfixed_composed h

theorem operation_composed (h : Composed aside nested) : Composed aside (operation nested) :=
  binary_composed _ (unary_composed _ (power_composed (unary_composed _ (allocation_composed h))))

theorem inside_composed (h : Composed aside expr) : Composed aside (inside expr) :=
  .bind context_composed fun _ => .within _ h

theorem storedValue_composed (mark : Punct) (target value : Expr) :
    Composed aside (storedValue mark target value) := by
  unfold storedValue
  split
  · exact .bind (freshCopy_composed _) fun _ => .bind (binaryNode_composed _ _ _) fun _ => .pure _
  · exact .pure _

theorem assignment_composed (h : Composed aside expr) : Composed aside (assignment expr) := by
  refine .bind (operation_composed (inside_composed h)) fun target =>
    .bind (takePunctOf?_composed _) fun mark => ?_
  split
  · exact .pure _
  refine .bind context_composed fun context => ?_
  split
  · exact .failAt _ _
  split
  · exact .failAt _ _
  · exact .bind h fun _ => .bind (storedValue_composed _ _ _) fun _ =>
      .bind (newNode_composed _) fun _ => .pure _

theorem expression_composed : Composed aside expression :=
  .recursive fun _ h => assignment_composed h

theorem nestedExpression_composed : Composed aside nestedExpression :=
  inside_composed expression_composed

end Expressions

/-! ## Statements -/

theorem initializer?_composed : Composed aside initializer? := by
  refine .bind (accept_composed _) fun value => ?_
  split
  · exact .bind nestedExpression_composed fun _ => .pure _
  refine .bind (accept_composed _) fun reference => ?_
  split
  · exact .bind nestedExpression_composed fun _ => .pure _
  · exact .pure _

theorem params_composed : Composed aside params := by
  have param : Composed aside param :=
    .bind here_composed fun start => .bind typeRef_composed fun _ =>
      .bind expectIdent_composed fun _ => .bind (nodeFrom_composed start) fun _ => .pure _
  exact commaList_composed _ _ param

theorem condition_composed : Composed aside condition :=
  .bind (expectPunct_composed _) fun _ => .bind nestedExpression_composed fun _ =>
    .bind (expectPunct_composed _) fun _ => .pure _

theorem expressionStatement_composed : Composed aside expressionStatement :=
  .bind context_composed fun _ => .bind (.within _ expression_composed) fun _ =>
    .bind (expectPunct_composed _) fun _ => .pure _

theorem genericParams_composed : Composed aside genericParams := by
  refine .bind (accept_composed _) fun bracket => ?_
  split
  · refine .repeatFrom (fun read => ?_) _
    refine .bind expectIdent_composed fun name => .bind (accept_composed _) fun comma => ?_
    split
    · exact .pure _
    · refine .bind (accept_composed _) fun closed => ?_
      split
      · exact .pure _
      · exact .fail _
  · exact .pure _

theorem operatorSymbol_composed : Composed aside operatorSymbol := by
  refine .bind kind_composed fun kind => ?_
  split
  · exact .bind .bump fun _ => .bind (expectPunct_composed _) fun _ => .pure _
  · split
    · exact .bind .bump fun _ => .pure _
    · exact .fail _

theorem memberModifiers_composed : Composed aside memberModifiers := by
  refine .repeatFrom (fun ms => .bind kind_composed fun kind => ?_) _
  split
  · split
    · exact .pure _
    · split
      · exact .fail _
      · exact .bind .bump fun _ => .pure _
  · exact .pure _

theorem expectMemberType_composed : Composed aside expectMemberType := by
  refine .bind kind_composed fun kind => ?_
  split
  · exact .pure _
  · split
    · exact .pure _
    · exact .fail _
  · exact .fail _

theorem fieldFrom_composed (start : Span) (ms : MemberModifiers) (type : TypeRef) (name : Ident) :
    Composed aside (fieldFrom start ms type name) := by
  unfold fieldFrom
  split
  · exact .failAt _ _
  split
  · exact .failAt _ _
  · exact .bind initializer?_composed fun _ => .bind (expectPunct_composed _) fun _ =>
      .bind (nodeFrom_composed start) fun _ => .pure _

section Statements

variable {statement : Parser (Option Statement)} {class_ : Parser Class} {block : Parser Block}

theorem blockOf_composed (h : Composed true statement) : Composed true (blockOf statement) := by
  refine .bind (expectPunct_composed _) fun start => .bind (.repeatFrom (fun read => ?_) _)
    fun _ => .bind (nodeFrom_composed start) fun _ => .pure _
  refine .bind (accept_composed _) fun closed => ?_
  split
  · exact .pure _
  refine .bind atEnd_composed fun ended => ?_
  split
  · exact .fail _
  · refine .bind h fun s => ?_
    split <;> exact .pure _

theorem nestedBlock_composed (extra : Context) (h : Composed true statement) :
    Composed true (nestedBlock statement extra) :=
  .bind context_composed fun _ => .within _ (blockOf_composed h)

theorem body_composed (h : Composed true statement) : Composed true (body statement) :=
  .within _ (blockOf_composed h)

theorem alternative_composed (h : Composed true block) : Composed true (alternative block) := by
  refine .bind (.repeatFrom (fun read => ?_) _) fun _ => .pure _
  refine .bind (acceptKeyword_composed _) fun another => ?_
  split
  · refine .bind (acceptKeyword_composed _) fun conditional => ?_
    split
    · exact .bind condition_composed fun _ => .bind h fun _ => .pure _
    · exact .bind h fun _ => .pure _
  · exact .pure _

theorem functionFrom_composed (start : Span) (type : TypeRef) (name : Ident)
    (h : Composed true statement) : Composed true (functionFrom statement start type name) :=
  .bind (expectPunct_composed _) fun _ => .bind params_composed fun _ =>
    .bind (body_composed h) fun _ => .bind (nodeFrom_composed start) fun _ => .pure _

theorem declaration_composed (h : Composed true statement) :
    Composed true (declaration statement) := by
  refine .bind here_composed fun start => .bind returnType_composed fun type =>
    .bind expectIdent_composed fun name => .bind (peek_composed _) fun function => ?_
  split
  · refine .bind context_composed fun context => ?_
    split
    · exact .failAt _ _
    · exact .bind (functionFrom_composed start type name h) fun _ =>
        .bind (addFunction_composed _) fun _ => .pure _
  split
  · exact .failAt _ _
  · exact .bind initializer?_composed fun _ => .bind (expectPunct_composed _) fun _ =>
      .bind (nodeFrom_composed start) fun _ => .pure _

theorem operatorFunction_composed (start : Span) (type : TypeRef) (owner : Ident)
    (h : Composed true statement) :
    Composed true (operatorFunction statement start type owner) := by
  refine .bind (expectKeyword_composed _) fun _ => .bind here_composed fun place =>
    .bind operatorSymbol_composed fun symbol => .bind (expectPunct_composed _) fun _ =>
    .bind params_composed fun params => ?_
  split
  · exact .failAt _ _
  · exact .bind (body_composed h) fun _ => .bind (nodeFrom_composed start) fun _ => .pure _

theorem methodFrom_composed (start : Span) (ms : MemberModifiers) (type : TypeRef) (name : Ident)
    (h : Composed true statement) : Composed true (methodFrom statement start ms type name) :=
  .bind params_composed fun _ => .bind (body_composed h) fun _ =>
    .bind (nodeFrom_composed start) fun _ => .pure _

theorem member_composed (owner : Ident) (read : Members) (h : Composed true statement) :
    Composed true (member statement owner read) := by
  refine .bind here_composed fun start => .bind memberModifiers_composed fun ms =>
    .bind expectMemberType_composed fun _ => .bind returnType_composed fun type =>
    .bind (peek_composed _) fun operator => ?_
  split
  · split
    · exact .failAt _ _
    · exact .bind (operatorFunction_composed start type owner h) fun _ =>
        .bind (addFunction_composed _) fun _ => .pure _
  · refine .bind expectIdent_composed fun name => .bind (accept_composed _) fun method => ?_
    split
    · exact .bind (methodFrom_composed start ms type name h) fun _ => .pure _
    · exact .bind (fieldFrom_composed start ms type name) fun _ => .pure _

theorem memberStep_composed (owner : Ident) (read : Members) (h : Composed true statement)
    (hc : Composed true class_) : Composed true (memberStep statement class_ owner read) := by
  refine .bind (accept_composed _) fun closed => ?_
  split
  · exact .pure _
  refine .bind kind_composed fun kind => ?_
  split
  · exact .bind hc fun _ => .bind (addClass_composed _) fun _ => .pure _
  · exact .fail _
  · exact .fail _
  · exact .fail _
  · exact .bind (member_composed owner read h) fun _ => .pure _
  · exact .bind (member_composed owner read h) fun _ => .pure _
  · exact .fail _

theorem classWith_composed (h : Composed true statement) (hc : Composed true class_) :
    Composed true (classWith statement class_) := by
  refine .bind (expectKeyword_composed _) fun start => .bind expectIdent_composed fun name =>
    .bind genericParams_composed fun generics => .bind (acceptKeyword_composed _) fun extended => ?_
  have rest (superclass : Option TypeRef) : Composed true (do
      let _ ← expectPunct .openBrace
      let members ← within .classBody <|
        repeatFrom (⟨[], []⟩ : Members) (memberStep statement class_ name)
      return ⟨← nodeFrom start, name, generics, superclass, members.fields, members.methods⟩ :
        Parser Class) :=
    .bind (expectPunct_composed _) fun _ =>
      .bind (.within _ (.repeatFrom (fun read => memberStep_composed name read h hc) _)) fun _ =>
      .bind (nodeFrom_composed start) fun _ => .pure _
  dsimp only
  split
  · exact .bind (.map _ typeRef_composed) rest
  · exact .bind (.pure _) rest

theorem classDecl_composed (h : Composed true statement) : Composed true (classDecl statement) :=
  .recursive fun _ hc => classWith_composed h hc

theorem jump_composed (word : Keyword) (make : Node → Statement) :
    Composed true (jump word make) := by
  refine .bind here_composed fun start => .bind context_composed fun context => ?_
  split
  · exact .fail _
  · exact .bind .bump fun _ => .bind (expectPunct_composed _) fun _ =>
      .bind (nodeFrom_composed start) fun _ => .pure _

theorem statementWith_composed (h : Composed true statement) :
    Composed true (statementWith statement) := by
  refine .bind here_composed fun start => ?_
  have plain : Composed true (do
      let value ← expressionStatement
      return some (.expr (← nodeFrom start) value) : Parser (Option Statement)) :=
    .bind expressionStatement_composed fun _ => .bind (nodeFrom_composed start) fun _ => .pure _
  refine .bind kind_composed fun kind => ?_
  split
  · refine .bind context_composed fun context => ?_
    split
    · exact .bind (classDecl_composed h) fun _ => .bind (addClass_composed _) fun _ => .pure _
    · exact .fail _
  · exact .bind .bump fun _ => .bind condition_composed fun _ =>
      .bind (nestedBlock_composed _ h) fun _ =>
      .bind (alternative_composed (nestedBlock_composed _ h)) fun _ =>
      .bind (nodeFrom_composed start) fun _ => .pure _
  · exact .bind .bump fun _ => .bind condition_composed fun _ =>
      .bind (nestedBlock_composed _ h) fun _ => .bind (nodeFrom_composed start) fun _ => .pure _
  · exact .bind .bump fun _ => .bind (nestedBlock_composed _ h) fun _ =>
      .bind (expectKeyword_composed _) fun _ => .bind (nestedBlock_composed _ h) fun _ =>
      .bind (nodeFrom_composed start) fun _ => .pure _
  · refine .bind context_composed fun context => ?_
    split
    · exact .fail _
    have rest (value : Option Expr) : Composed true (do
        let _ ← expectPunct .semicolon
        return some (.return (← nodeFrom start) value) : Parser (Option Statement)) :=
      .bind (expectPunct_composed _) fun _ => .bind (nodeFrom_composed start) fun _ => .pure _
    refine .bind .bump fun _ => .bind (peek_composed _) fun bare => ?_
    split
    · exact .bind (.pure _) rest
    · exact .bind (.map _ nestedExpression_composed) rest
  · exact jump_composed _ _
  · exact jump_composed _ _
  · exact .bind (nestedBlock_composed _ h) fun _ =>
      .bind (nodeFrom_composed start) fun _ => .pure _
  · split
    · exact declaration_composed h
    · exact plain
  · refine .bind startsDeclaration_composed fun declares => ?_
    split
    · exact declaration_composed h
    · exact plain
  · exact .fail _
  · exact plain

end Statements

/-! ## Whole programs -/

theorem statement_composed : Composed true statement :=
  .recursive fun _ h => statementWith_composed h

theorem block_composed : Composed true block := blockOf_composed statement_composed

theorem program_composed : Composed true program := by
  refine .bind (.within _ (.repeatFrom (fun read => ?_) _)) fun statements =>
    .bind takeDeclarations_composed fun _ => .bind nodeCount_composed fun _ => .pure _
  refine .bind atEnd_composed fun ended => ?_
  split
  · exact .pure _
  · refine .bind statement_composed fun s => ?_
    split <;> exact .pure _

theorem toEnd_composed {p : Parser α} (h : Composed true p) : Composed true p.toEnd := by
  refine .bind h fun _ => .bind atEnd_composed fun ended => ?_
  split
  · exact .pure _
  · exact .fail _

end Parser

end ClassLang
