import ClassLang.Proofs.Parsing.Executions

/-!
Every rule of the grammar ends. What reads a type, an expression, a statement or a member is
`Consuming`, so that a loop around it reads a token in each round and a rule that recurs behind it
recurs with fewer tokens left; the other rules are steady, they have at most as many tokens left as
before.
-/

namespace ClassLang

namespace Parser

variable {α β σ : Type} {n m : Nat} {before : Cursor → Prop}

/-! ## Tokens -/

theorem context_ends : Ends context context before fun _ => before := .look fun _ => id
theorem current_ends : Ends current current before fun _ => before := .look fun _ => id
theorem here_ends : Ends here here before fun _ => before := .look fun _ => id
theorem atEnd_ends : Ends atEnd atEnd before fun _ => before := .look fun _ => id
theorem peek_ends (wanted : TokenKind) : Ends (peek wanted) (peek wanted) before fun _ => before :=
  .look fun _ => id
theorem nodeCount_ends : Ends nodeCount nodeCount before fun _ => before := .look fun _ => id

theorem kind_ends : Ends kind kind (Left n) (Seen n) := .look fun _ h => ⟨h, rfl⟩

theorem newNode_ends (span : Span) :
    Ends (newNode span) (newNode span) before fun _ => before :=
  .number fun n => (Node.mk n span, n + 1)

theorem nodeFrom_ends (start : Span) :
    Ends (nodeFrom start) (nodeFrom start) before fun _ => before :=
  .bind (.look fun _ => id) newNode_ends

theorem bump_consumes {kind : TokenKind} (more : kind ≠ .eof) :
    Ends bump bump (Seen (n + 1) kind) fun _ => Left n := by
  rintro s ⟨left, seen⟩
  refine ⟨rfl, ⟨_, .bump⟩, fun token t run => ?_⟩
  have going : s.cursor.isAtEnd = false := by simp [Cursor.isAtEnd, seen, more]
  obtain rfl : { s with cursor := s.cursor.advance, prev := s.cursor.current.span } = t :=
    (if_neg (by simp [going])).symm.trans (congrArg Prod.snd run)
  refine ⟨left.1.of_suffix s.cursor.advance_tokens, ?_⟩
  have fewer := left.1.remaining_advance_lt going
  have := left.2
  change s.cursor.advance.remaining < n
  omega

theorem take?_ends {wanted : TokenKind} (more : wanted ≠ .eof) :
    Ends (take? wanted) (take? wanted) (Left (n + 1))
      fun span => Left (bif span.isSome then n else n + 1) := by
  have present : Ends (peek wanted) (peek wanted) (Left (n + 1))
      fun present => bif present then Seen (n + 1) wanted else Left (n + 1) := by
    refine .look fun s left => ?_
    cases h : s.cursor.current.kind == wanted with
    | true => exact ⟨left, eq_of_beq h⟩
    | false => exact left
  refine .bind present fun present => ?_
  cases present with
  | true => exact .bind (bump_consumes more) fun _ => .pure fun _ => id
  | false => exact .pure fun _ => id

theorem accept_ends (p : Punct) :
    Ends (accept p) (accept p) (Left (n + 1)) fun read => Left (bif read then n else n + 1) :=
  .bind (take?_ends nofun) fun _ => .pure fun _ => id

theorem acceptKeyword_ends (k : Keyword) :
    Ends (acceptKeyword k) (acceptKeyword k) (Left (n + 1))
      fun read => Left (bif read then n else n + 1) :=
  .bind (take?_ends nofun) fun _ => .pure fun _ => id

theorem accept_steady (p : Punct) : Ends (accept p) (accept p) (Left n) fun _ => Left n :=
  .optional id fun _ => accept_ends p

theorem acceptKeyword_steady (k : Keyword) :
    Ends (acceptKeyword k) (acceptKeyword k) (Left n) fun _ => Left n :=
  .optional id fun _ => acceptKeyword_ends k

theorem expected_ends (text : String) {after : α → Cursor → Prop} :
    Ends (expected text) (expected text) before after :=
  .bind current_ends fun _ => .fail _

theorem expectPunct_consumes (p : Punct) :
    Ends (expectPunct p) (expectPunct p) (Left (n + 1)) fun _ => Left n :=
  .bind (take?_ends nofun) fun
    | some _ => .pure fun _ => id
    | none => expected_ends _

theorem expectKeyword_consumes (k : Keyword) :
    Ends (expectKeyword k) (expectKeyword k) (Left (n + 1)) fun _ => Left n :=
  .bind (take?_ends nofun) fun
    | some _ => .pure fun _ => id
    | none => expected_ends _

theorem expectPunct_steady (p : Punct) :
    Ends (expectPunct p) (expectPunct p) (Left n) fun _ => Left n :=
  .steady fun _ => expectPunct_consumes p

theorem expectKeyword_steady (k : Keyword) :
    Ends (expectKeyword k) (expectKeyword k) (Left n) fun _ => Left n :=
  .steady fun _ => expectKeyword_consumes k

theorem takeIdent?_ends :
    Ends takeIdent? takeIdent? (Left (n + 1))
      fun name => Left (bif name.isSome then n else n + 1) := by
  refine .bind kind_ends fun kind => ?_
  split
  · exact .bind (bump_consumes nofun) fun _ => .pure fun _ => id
  · exact .pure fun _ => And.left

theorem expectIdent_consumes :
    Ends expectIdent expectIdent (Left (n + 1)) fun _ => Left n :=
  .bind takeIdent?_ends fun
    | some _ => .pure fun _ => id
    | none => .bind atEnd_ends fun _ => .branch (.fail _) (.fail _)

theorem expectIdent_steady : Ends expectIdent expectIdent (Left n) fun _ => Left n :=
  .steady fun _ => expectIdent_consumes

theorem takePunctOf?_steady (marks : List Punct) :
    Ends (takePunctOf? marks) (takePunctOf? marks) (Left n) fun _ => Left n := by
  refine .optional Option.isSome fun m => .bind kind_ends fun kind => ?_
  split
  · split
    · exact .bind (bump_consumes nofun) fun _ => .pure fun _ => id
    · exact .pure fun _ => And.left
  · exact .pure fun _ => And.left

/-- Each item after the first follows a comma. -/
theorem commaList_steady {item item' : Parser α} (closing : Punct) (cause : SyntaxCause)
    (h : Consuming n item item') (le : m ≤ n) :
    Ends (commaList closing cause item) (commaList closing cause item') (Left m)
      fun _ => Left m := by
  refine .bind (accept_steady _) fun closed => .branch (.pure fun _ => id) ?_
  refine .repeatFrom fun items k lt => ?_
  refine .bind (h k (Nat.lt_of_lt_of_le lt le)) fun a => .bind (accept_steady _) fun comma => ?_
  refine .branch (.pure fun _ => id) (.bind (accept_steady _) fun closed => ?_)
  exact .branch (.pure fun _ => Left.succ) (.fail _)

/-! ## Types -/

theorem modifiers_steady : Ends modifiers modifiers (Left n) fun _ => Left n := by
  refine .repeatFrom fun m k _ => ?_
  have another (present : Bool) (word : Keyword) (added : Modifiers) :
      Ends (if present then Parser.fail (.duplicateModifier word)
          else do let _ ← bump; return .inl added : Parser (Modifiers ⊕ Modifiers))
        (if present then Parser.fail (.duplicateModifier word)
          else do let _ ← bump; return .inl added) (Seen (k + 1) (.keyword word))
        (Sum.elim (fun _ => Left k) fun _ => Left (k + 1)) :=
    .branch (.fail _) (.bind (bump_consumes nofun) fun _ => .pure fun _ => id)
  refine .bind kind_ends fun kind => ?_
  split
  · exact another _ _ _
  · exact another _ _ _
  · exact another _ _ _
  · exact .pure fun _ => And.left

section Types

variable {type type' : Parser TypeRef}

theorem typeArgs?_steady (h : Consuming n type type') (le : m ≤ n) :
    Ends (typeArgs? type) (typeArgs? type') (Left m) fun _ => Left m := by
  refine .bind (accept_steady _) fun bracket => .branch ?_ (.pure fun _ => id)
  exact .bind (commaList_steady _ _ h le) fun _ => .pure fun _ => id

theorem typeWith_consuming (allowVoid : Bool) (h : Consuming n type type') :
    Consuming (n + 1) (typeWith type allowVoid) (typeWith type' allowVoid) := by
  intro m lt
  have le := Nat.le_of_lt_succ lt
  refine .bind here_ends fun start => .bind modifiers_steady fun mods => ?_
  refine .bind kind_ends fun kind => ?_
  split
  · refine .branch (.fail _) (.bind (bump_consumes nofun) fun _ => ?_)
    exact .bind (nodeFrom_ends start) fun _ => .pure fun _ => id
  · exact .bind (bump_consumes nofun) fun _ => .bind (typeArgs?_steady h le) fun _ =>
      .bind (nodeFrom_ends start) fun _ => .pure fun _ => id
  · exact .bind (bump_consumes nofun) fun _ => .bind (typeArgs?_steady h le) fun _ =>
      .bind (nodeFrom_ends start) fun _ => .pure fun _ => id
  · exact .bind (bump_consumes nofun) fun _ =>
      .bind (nodeFrom_ends start) fun _ => .pure fun _ => id
  · refine .bind (.seen expectIdent_consumes) fun name =>
      .bind (typeArgs?_steady h le) fun args => ?_
    split <;> exact .bind (nodeFrom_ends start) fun _ => .pure fun _ => id
  · exact .fail _
  · exact .fail _

theorem typeRef_consuming : Consuming n typeRef typeRef :=
  .recursive (fun _ _ _ _ => typeWith_consuming false) fun _ _ _ _ => typeWith_consuming false

theorem typeRef_consumes : Ends typeRef typeRef (Left (n + 1)) fun _ => Left n :=
  typeRef_consuming n (Nat.lt_succ_self n)

theorem typeRef_steady : Ends typeRef typeRef (Left n) fun _ => Left n :=
  .steady fun _ => typeRef_consumes

theorem returnType_consumes : Ends returnType returnType (Left (n + 1)) fun _ => Left n :=
  typeWith_consuming true typeRef_consuming n (Nat.lt_succ_self n)

end Types

/-! ## Expressions -/

section Expressions

variable {next next' operand operand' nested nested' expr expr' : Parser Expr}

theorem freshCopy_ends (e : Expr) :
    Ends (freshCopy e) (freshCopy e) before fun _ => before := .number e.renumber

theorem binaryNode_ends (op : BinaryOp) (lhs rhs : Expr) :
    Ends (binaryNode op lhs rhs) (binaryNode op lhs rhs) before fun _ => before :=
  .bind (newNode_ends _) fun _ => .pure fun _ => id

theorem unaryNode_ends (op : UnaryOp) (start : Span) (operand : Expr) :
    Ends (unaryNode op start operand) (unaryNode op start operand) before fun _ => before :=
  .bind (nodeFrom_ends start) fun _ => .pure fun _ => id

theorem operatorOf?_ends (ops : List BinaryOp) :
    Ends (operatorOf? ops) (operatorOf? ops) (Left (n + 1))
      fun op => Left (bif op.isSome then n else n + 1) := by
  refine .bind kind_ends fun kind => ?_
  split
  · next op found =>
    have token : op.token = kind := by simpa using List.find?_some found
    have more : kind ≠ .eof := by
      rw [← token]
      cases op <;> nofun
    exact .bind (bump_consumes more) fun _ => .pure fun _ => id
  · exact .pure fun _ => And.left

theorem leftAssoc_consuming (ops : List BinaryOp) (h : Consuming n next next') :
    Consuming n (leftAssoc ops next) (leftAssoc ops next') := by
  refine fun m lt => .bind (h m lt) fun first => .repeatFrom fun lhs k below => ?_
  refine .bind (operatorOf?_ends ops) fun
    | some op => .bind (h.steady (m := k) (by omega)) fun rhs =>
      .bind (binaryNode_ends _ _ _) fun _ => ?_
    | none => .pure fun _ => id
  exact .pure fun _ => id

theorem operations_steady (ops : List BinaryOp) (h : Consuming n next next') (le : m ≤ n) :
    Ends (operations ops next) (operations ops next') (Left m) fun _ => Left m :=
  .repeatFrom fun read k below => .bind (operatorOf?_ends ops) fun
    | some op => .bind (h.steady (m := k) (by omega)) fun rhs => .pure fun _ => id
    | none => .pure fun _ => id

theorem comparisons_ends (lhs : Expr) (rest : List (BinaryOp × Expr)) :
    Ends (comparisons lhs rest) (comparisons lhs rest) before fun _ => before := by
  induction rest generalizing lhs with
  | nil => exact .pure fun _ => id
  | cons first rest ih =>
    exact .bind (freshCopy_ends _) fun shared => .bind (binaryNode_ends _ _ _) fun _ =>
      .bind (ih shared) fun _ => .pure fun _ => id

theorem conjunction_ends (first : Expr) (rest : List Expr) :
    Ends (conjunction first rest) (conjunction first rest) before fun _ => before := by
  induction rest generalizing first with
  | nil => exact .pure fun _ => id
  | cons second rest ih => exact .bind (ih second) fun _ => binaryNode_ends _ _ _

theorem chain_consuming (ops : List BinaryOp) (h : Consuming n next next') :
    Consuming n (chain ops next) (chain ops next') := by
  refine fun m lt => .bind (h m lt) fun first =>
    .bind (operations_steady ops h (Nat.le_of_lt lt)) fun others =>
    .bind (comparisons_ends first others) fun compared => ?_
  split
  · exact .pure fun _ => id
  · exact conjunction_ends _ _

theorem binary_consuming (ls : List Level) (h : Consuming n operand operand') :
    Consuming n (binary ls operand) (binary ls operand') := by
  induction ls with
  | nil => exact h
  | cons l tighter ih =>
    cases l with
    | leftAssoc ops => exact leftAssoc_consuming ops ih
    | chain ops => exact chain_consuming ops ih

theorem applyUnary_ends (operand : Expr) (ops : List (UnaryOp × Span)) :
    Ends (applyUnary operand ops) (applyUnary operand ops) before fun _ => before := by
  induction ops with
  | nil => exact .pure fun _ => id
  | cons op inner ih => exact .bind ih fun _ => unaryNode_ends _ _ _

theorem unary_consuming {op? : TokenKind → Option UnaryOp} (more : op? .eof = none)
    (h : Consuming n operand operand') : Consuming n (unary op? operand) (unary op? operand') := by
  have ops (m : Nat) : Ends (unaryOps op?) (unaryOps op?) (Left m) fun _ => Left m := by
    refine .repeatFrom fun read k below => .bind here_ends fun start => ?_
    refine .bind kind_ends fun kind => ?_
    split
    · next op found =>
      have more : kind ≠ .eof := by
        rintro rfl
        rw [more] at found
        cases found
      exact .bind (bump_consumes more) fun _ => .pure fun _ => id
    · exact .pure fun _ => And.left
  exact fun m lt => .bind (ops _) fun _ => .bind (h m lt) fun _ => applyUnary_ends _ _

theorem powerOf_ends (base : Expr) (others : List Expr) :
    Ends (powerOf base others) (powerOf base others) before fun _ => before := by
  induction others generalizing base with
  | nil => exact .pure fun _ => id
  | cons second rest ih => exact .bind (ih second) fun _ => binaryNode_ends _ _ _

theorem power_consuming (h : Consuming n operand operand') :
    Consuming n (power operand) (power operand') :=
  fun m lt => .bind (h m lt) fun _ => .bind (operations_steady _ h (Nat.le_of_lt lt)) fun _ =>
    powerOf_ends _ _

theorem keymapPair_consuming (h : Consuming n nested nested') :
    Consuming n (keymapPair nested) (keymapPair nested') :=
  fun m lt => .bind here_ends fun start => .bind (h m lt) fun _ =>
    .bind (expectPunct_steady _) fun _ => .bind (h.steady (Nat.le_of_lt lt)) fun _ =>
    .bind (nodeFrom_ends start) fun _ => .pure fun _ => id

theorem primary_consuming (h : Consuming n nested nested') :
    Consuming (n + 1) (primary nested) (primary nested') := by
  intro m lt
  have le := Nat.le_of_lt_succ lt
  refine .bind here_ends fun start => ?_
  have word (make : Node → Expr) {kind : TokenKind} (more : kind ≠ .eof) :
      Ends (do let _ ← bump; return make (← nodeFrom start) : Parser Expr)
        (do let _ ← bump; return make (← nodeFrom start)) (Seen (m + 1) kind) fun _ => Left m :=
    .bind (bump_consumes more) fun _ => .bind (nodeFrom_ends start) fun _ => .pure fun _ => id
  refine .bind kind_ends fun kind => ?_
  split
  · exact .bind (.seen expectIdent_consumes) fun _ => .bind (nodeFrom_ends start) fun _ =>
      .pure fun _ => id
  · exact word _ (by nofun)
  · exact word _ (by nofun)
  · exact word _ (by nofun)
  · exact word _ (by nofun)
  · exact word _ (by nofun)
  · exact word _ (by nofun)
  · exact .bind (bump_consumes nofun) fun _ => .bind (h.steady le) fun _ =>
      .bind (expectPunct_steady _) fun _ => .pure fun _ => id
  · exact .bind (bump_consumes nofun) fun _ => .bind (commaList_steady _ _ h le) fun _ =>
      .bind (nodeFrom_ends start) fun _ => .pure fun _ => id
  · exact .bind (bump_consumes nofun) fun _ =>
      .bind (commaList_steady _ _ (keymapPair_consuming h) le) fun _ =>
      .bind (nodeFrom_ends start) fun _ => .pure fun _ => id
  · exact .fail _
  · exact .fail _

/-- A step that finds nothing behind the target has read nothing. -/
theorem postfixStep_optional (start : Span) (target : Expr) (h : Consuming n nested nested')
    (le : m ≤ n) :
    Ends (postfixStep nested start target) (postfixStep nested' start target) (Left (m + 1))
      (Sum.elim (fun _ => Left m) fun _ => Left (m + 1)) := by
  refine .bind (accept_ends _) fun dot => .ite ?_ ?_
  · exact .bind expectIdent_steady fun _ => .bind (nodeFrom_ends start) fun _ => .pure fun _ => id
  refine .bind (accept_ends _) fun arrow => .ite ?_ ?_
  · exact .bind expectIdent_steady fun _ => .bind (nodeFrom_ends start) fun _ => .pure fun _ => id
  refine .bind (accept_ends _) fun bracket => .ite ?_ ?_
  · exact .bind (h.steady le) fun _ => .bind (expectPunct_steady _) fun _ =>
      .bind (nodeFrom_ends start) fun _ => .pure fun _ => id
  refine .bind (accept_ends _) fun paren => .ite ?_ (.pure fun _ => id)
  exact .bind (commaList_steady _ _ h le) fun _ =>
    .bind (nodeFrom_ends start) fun _ => .pure fun _ => id

theorem postfixed_consuming (h : Consuming n nested nested') :
    Consuming (n + 1) (postfixed nested) (postfixed nested') :=
  fun m lt => .bind here_ends fun start => .bind (primary_consuming h m lt) fun first =>
    .repeatFrom fun target _ below => postfixStep_optional start target h (by omega)

theorem allocation_consuming (h : Consuming n nested nested') :
    Consuming (n + 1) (allocation nested) (allocation nested') := by
  intro m lt
  refine .bind here_ends fun start => .bind (acceptKeyword_ends _) fun new => .ite ?_ ?_
  · exact .bind typeRef_steady fun _ => .bind (nodeFrom_ends start) fun _ => .pure fun _ => id
  refine .bind (acceptKeyword_ends _) fun delete => .ite ?_ (postfixed_consuming h m lt)
  refine .bind (peek_ends _) fun new => .bind (peek_ends _) fun delete => .branch (.fail _) ?_
  exact .bind ((postfixed_consuming h).steady (Nat.le_of_lt lt)) fun _ => unaryNode_ends _ _ _

theorem operation_consuming (h : Consuming n nested nested') :
    Consuming (n + 1) (operation nested) (operation nested') :=
  binary_consuming _ (unary_consuming rfl (power_consuming (unary_consuming rfl
    (allocation_consuming h))))

theorem inside_consuming (h : Consuming n expr expr') : Consuming n (inside expr) (inside expr') :=
  fun m lt => .bind context_ends fun _ => .within _ (h m lt)

theorem storedValue_ends (mark : Punct) (target value : Expr) :
    Ends (storedValue mark target value) (storedValue mark target value) before
      fun _ => before := by
  unfold storedValue
  split
  · exact .bind (freshCopy_ends _) fun _ => .bind (binaryNode_ends _ _ _) fun _ =>
      .pure fun _ => id
  · exact .pure fun _ => id

theorem assignment_consuming (h : Consuming n expr expr') :
    Consuming (n + 1) (assignment expr) (assignment expr') := by
  intro m lt
  refine .bind (operation_consuming (inside_consuming h) m lt) fun target =>
    .bind (takePunctOf?_steady _) fun mark => ?_
  split
  · exact .pure fun _ => id
  refine .bind context_ends fun context => .branch (.failAt _ _) (.branch (.failAt _ _) ?_)
  exact .bind (h.steady (Nat.le_of_lt_succ lt)) fun _ => .bind (storedValue_ends _ _ _) fun _ =>
    .bind (newNode_ends _) fun _ => .pure fun _ => id

theorem expression_consuming : Consuming n expression expression :=
  .recursive (fun _ _ _ _ => assignment_consuming) fun _ _ _ _ => assignment_consuming

theorem nestedExpression_consumes :
    Ends nestedExpression nestedExpression (Left (n + 1)) fun _ => Left n :=
  inside_consuming expression_consuming n (Nat.lt_succ_self n)

theorem nestedExpression_steady :
    Ends nestedExpression nestedExpression (Left n) fun _ => Left n :=
  .steady fun _ => nestedExpression_consumes

end Expressions

/-! ## Statements -/

theorem initializer?_steady : Ends initializer? initializer? (Left n) fun _ => Left n := by
  refine .bind (accept_steady _) fun value => .branch ?_ ?_
  · exact .bind nestedExpression_steady fun _ => .pure fun _ => id
  refine .bind (accept_steady _) fun reference => .branch ?_ (.pure fun _ => id)
  exact .bind nestedExpression_steady fun _ => .pure fun _ => id

theorem params_steady : Ends params params (Left n) fun _ => Left n := by
  have param : Consuming n param param := fun m _ =>
    .bind here_ends fun start => .bind typeRef_consumes fun _ => .bind expectIdent_steady fun _ =>
      .bind (nodeFrom_ends start) fun _ => .pure fun _ => id
  exact commaList_steady _ _ param (Nat.le_refl n)

theorem condition_steady : Ends condition condition (Left n) fun _ => Left n :=
  .bind (expectPunct_steady _) fun _ => .bind nestedExpression_steady fun _ =>
    .bind (expectPunct_steady _) fun _ => .pure fun _ => id

theorem expressionStatement_consumes :
    Ends expressionStatement expressionStatement (Left (n + 1)) fun _ => Left n :=
  .bind context_ends fun _ =>
    .bind (.within _ (expression_consuming n (Nat.lt_succ_self n))) fun _ =>
    .bind (expectPunct_steady _) fun _ => .pure fun _ => id

theorem genericParams_steady : Ends genericParams genericParams (Left n) fun _ => Left n := by
  refine .bind (accept_steady _) fun bracket => .branch ?_ (.pure fun _ => id)
  refine .repeatFrom fun read k _ => .bind expectIdent_consumes fun name => ?_
  refine .bind (accept_steady _) fun comma => .branch (.pure fun _ => id) ?_
  exact .bind (accept_steady _) fun closed => .branch (.pure fun _ => Left.succ) (.fail _)

theorem operatorSymbol_steady : Ends operatorSymbol operatorSymbol (Left n) fun _ => Left n := by
  refine .steady fun m => .bind kind_ends fun kind => ?_
  split
  · exact .bind (bump_consumes nofun) fun _ => .bind (expectPunct_steady _) fun _ =>
      .pure fun _ => id
  · split
    · next symbol found =>
      have more : kind ≠ .eof := by
        rintro rfl
        cases found
      exact .bind (bump_consumes more) fun _ => .pure fun _ => id
    · exact .fail _

theorem memberModifiers_steady :
    Ends memberModifiers memberModifiers (Left n) fun _ => Left n := by
  refine .repeatFrom fun ms k _ => .bind kind_ends fun kind => ?_
  split
  · refine .branch (.pure fun _ => And.left) (.branch (.fail _) ?_)
    exact .bind (bump_consumes nofun) fun _ => .pure fun _ => id
  · exact .pure fun _ => And.left

theorem expectMemberType_steady :
    Ends expectMemberType expectMemberType (Left n) fun _ => Left n := by
  refine .bind kind_ends fun kind => ?_
  split
  · exact .pure fun _ => And.left
  · exact .branch (.pure fun _ => And.left) (.fail _)
  · exact .fail _

theorem fieldFrom_steady (start : Span) (ms : MemberModifiers) (type : TypeRef) (name : Ident) :
    Ends (fieldFrom start ms type name) (fieldFrom start ms type name) (Left n)
      fun _ => Left n := by
  unfold fieldFrom
  refine .branch (.failAt _ _) ?_
  split
  · exact .failAt _ _
  · exact .bind initializer?_steady fun _ => .bind (expectPunct_steady _) fun _ =>
      .bind (nodeFrom_ends start) fun _ => .pure fun _ => id

section Statements

variable {statement statement' : Parser (Option Statement)} {class_ class' : Parser Class}
  {block block' : Parser Block}

/-- Each round of the loop reads a statement, also one that leaves none. -/
theorem blockOf_consuming (h : Consuming n statement statement') :
    Consuming (n + 1) (blockOf statement) (blockOf statement') := by
  intro m lt
  refine .bind (expectPunct_consumes _) fun start => .bind (.repeatFrom fun read k below => ?_)
    fun _ => .bind (nodeFrom_ends start) fun _ => .pure fun _ => id
  refine .bind (accept_steady _) fun closed => .branch (.pure fun _ => id) ?_
  refine .bind atEnd_ends fun ended => .branch (.fail _) ?_
  refine .bind (h k (by omega)) fun
    | some s => .pure fun _ => id
    | none => .pure fun _ => id

theorem nestedBlock_consuming (extra : Context) (h : Consuming n statement statement') :
    Consuming (n + 1) (nestedBlock statement extra) (nestedBlock statement' extra) :=
  fun m lt => .bind context_ends fun _ => .within _ (blockOf_consuming h m lt)

theorem body_consuming (h : Consuming n statement statement') :
    Consuming (n + 1) (body statement) (body statement') :=
  fun m lt => .within _ (blockOf_consuming h m lt)

theorem alternative_steady (h : Consuming n block block') (le : m ≤ n) :
    Ends (alternative block) (alternative block') (Left m) fun _ => Left m := by
  refine .bind (.repeatFrom fun read k below => ?_) fun _ => .pure fun _ => id
  refine .bind (acceptKeyword_ends _) fun another => .ite ?_ (.pure fun _ => id)
  refine .bind (acceptKeyword_steady _) fun conditional => .branch ?_ ?_
  · exact .bind condition_steady fun _ => .bind (h.steady (by omega)) fun _ => .pure fun _ => id
  · exact .bind (h.steady (by omega)) fun _ => .pure fun _ => Left.succ

theorem functionFrom_steady (start : Span) (type : TypeRef) (name : Ident)
    (h : Consuming n statement statement') (le : m ≤ n) :
    Ends (functionFrom statement start type name) (functionFrom statement' start type name)
      (Left m) fun _ => Left m :=
  .bind (expectPunct_steady _) fun _ => .bind params_steady fun _ =>
    .bind ((body_consuming h).steady (Nat.le_succ_of_le le)) fun _ =>
    .bind (nodeFrom_ends start) fun _ => .pure fun _ => id

theorem addClass_ends (c : Class) : Ends (addClass c) (addClass c) before fun _ => before :=
  .shelve fun classes functions => ((), classes ++ [c], functions)

theorem addFunction_ends (f : Function) :
    Ends (addFunction f) (addFunction f) before fun _ => before :=
  .shelve fun classes functions => ((), classes, functions ++ [f])

theorem declaration_consuming (h : Consuming n statement statement') :
    Consuming (n + 1) (declaration statement) (declaration statement') := by
  intro m lt
  have le := Nat.le_of_lt_succ lt
  refine .bind here_ends fun start => .bind returnType_consumes fun type =>
    .bind expectIdent_steady fun name => .bind (peek_ends _) fun function => .branch ?_ ?_
  · refine .bind context_ends fun context => .branch (.failAt _ _) ?_
    exact .bind (functionFrom_steady start type name h le) fun _ =>
      .bind (addFunction_ends _) fun _ => .pure fun _ => id
  · exact .branch (.failAt _ _) (.bind initializer?_steady fun _ =>
      .bind (expectPunct_steady _) fun _ => .bind (nodeFrom_ends start) fun _ => .pure fun _ => id)

theorem operatorFunction_steady (start : Span) (type : TypeRef) (owner : Ident)
    (h : Consuming n statement statement') (le : m ≤ n) :
    Ends (operatorFunction statement start type owner)
      (operatorFunction statement' start type owner) (Left m) fun _ => Left m := by
  refine .bind (expectKeyword_steady _) fun _ => .bind here_ends fun place =>
    .bind operatorSymbol_steady fun symbol => .bind (expectPunct_steady _) fun _ =>
    .bind params_steady fun params => ?_
  split
  · exact .failAt _ _
  · exact .bind ((body_consuming h).steady (Nat.le_succ_of_le le)) fun _ =>
      .bind (nodeFrom_ends start) fun _ => .pure fun _ => id

theorem methodFrom_steady (start : Span) (ms : MemberModifiers) (type : TypeRef) (name : Ident)
    (h : Consuming n statement statement') (le : m ≤ n) :
    Ends (methodFrom statement start ms type name) (methodFrom statement' start ms type name)
      (Left m) fun _ => Left m :=
  .bind params_steady fun _ => .bind ((body_consuming h).steady (Nat.le_succ_of_le le)) fun _ =>
    .bind (nodeFrom_ends start) fun _ => .pure fun _ => id

theorem member_consuming (owner : Ident) (read : Members) (h : Consuming n statement statement') :
    Consuming (n + 1) (member statement owner read) (member statement' owner read) := by
  intro m lt
  have le := Nat.le_of_lt_succ lt
  refine .bind here_ends fun start => .bind memberModifiers_steady fun ms =>
    .bind expectMemberType_steady fun _ => .bind returnType_consumes fun type =>
    .bind (peek_ends _) fun operator => .branch ?_ ?_
  · split
    · exact .failAt _ _
    · exact .bind (operatorFunction_steady start type owner h le) fun _ =>
        .bind (addFunction_ends _) fun _ => .pure fun _ => id
  · refine .bind expectIdent_steady fun name => .bind (accept_steady _) fun method => .branch ?_ ?_
    · exact .bind (methodFrom_steady start ms type name h le) fun _ => .pure fun _ => id
    · exact .bind (fieldFrom_steady start ms type name) fun _ => .pure fun _ => id

theorem memberStep_ends (owner : Ident) (read : Members) (h : Consuming n statement statement')
    (hc : Consuming n class_ class') (lt : m < n) :
    Ends (memberStep statement class_ owner read) (memberStep statement' class' owner read)
      (Left (m + 1)) (Sum.elim (fun _ => Left m) fun _ => Left (m + 1)) := by
  have plain := member_consuming owner read h m (Nat.lt_succ_of_lt lt)
  refine .bind (accept_ends _) fun closed => .ite (.pure fun _ => Left.succ) ?_
  refine .bind kind_ends fun kind => ?_
  split
  · exact .seen (.bind (hc m lt) fun _ => .bind (addClass_ends _) fun _ => .pure fun _ => id)
  · exact .fail _
  · exact .fail _
  · exact .fail _
  · exact .seen (.bind plain fun _ => .pure fun _ => id)
  · exact .seen (.bind plain fun _ => .pure fun _ => id)
  · exact .fail _

theorem classWith_consuming (h : Consuming n statement statement')
    (hc : Consuming n class_ class') :
    Consuming (n + 1) (classWith statement class_) (classWith statement' class') := by
  intro m lt
  refine .bind (expectKeyword_consumes _) fun start => .bind expectIdent_steady fun name =>
    .bind genericParams_steady fun generics => .bind (acceptKeyword_steady _) fun extended => ?_
  have rest (superclass : Option TypeRef) : Ends (do
      let _ ← expectPunct .openBrace
      let members ← within .classBody <|
        repeatFrom (⟨[], []⟩ : Members) (memberStep statement class_ name)
      return ⟨← nodeFrom start, name, generics, superclass, members.fields, members.methods⟩ :
        Parser Class) (do
      let _ ← expectPunct .openBrace
      let members ← within .classBody <|
        repeatFrom (⟨[], []⟩ : Members) (memberStep statement' class' name)
      return ⟨← nodeFrom start, name, generics, superclass, members.fields, members.methods⟩)
      (Left m) fun _ => Left m :=
    .bind (expectPunct_steady _) fun _ => .bind (.within _ (.repeatFrom fun read k below =>
        memberStep_ends name read h hc (by omega))) fun _ =>
      .bind (nodeFrom_ends start) fun _ => .pure fun _ => id
  refine .branch ?_ ?_
  · exact .bind (.bind typeRef_steady fun _ => .pure fun _ => id) rest
  · exact .bind (.pure fun _ => id) rest

theorem classDecl_consuming (h : Consuming n statement statement') :
    Consuming (n + 1) (classDecl statement) (classDecl statement') :=
  .recursive (fun _ lt _ _ hc => classWith_consuming (h.mono (Nat.le_of_lt_succ lt)) hc)
    fun _ lt _ _ hc => classWith_consuming (h.right.mono (Nat.le_of_lt_succ lt)) hc

theorem jump_ends (word : Keyword) (make : Node → Statement) :
    Ends (jump word make) (jump word make) (Seen (n + 1) (.keyword word)) fun _ => Left n := by
  refine .bind here_ends fun start => .bind context_ends fun context => .branch (.fail _) ?_
  exact .bind (bump_consumes nofun) fun _ => .bind (expectPunct_steady _) fun _ =>
    .bind (nodeFrom_ends start) fun _ => .pure fun _ => id

theorem statementWith_consuming (h : Consuming n statement statement') :
    Consuming (n + 1) (statementWith statement) (statementWith statement') := by
  intro m lt
  have le := Nat.le_of_lt_succ lt
  have inner (extra : Context) : Ends (nestedBlock statement extra) (nestedBlock statement' extra)
      (Left m) fun _ => Left m :=
    (nestedBlock_consuming extra h).steady (Nat.le_of_lt lt)
  refine .bind here_ends fun start => ?_
  have plain : Ends (do
      let value ← expressionStatement
      return some (.expr (← nodeFrom start) value) : Parser (Option Statement)) (do
      let value ← expressionStatement
      return some (.expr (← nodeFrom start) value)) (Left (m + 1)) fun _ => Left m :=
    .bind expressionStatement_consumes fun _ => .bind (nodeFrom_ends start) fun _ =>
      .pure fun _ => id
  refine .bind kind_ends fun kind => ?_
  split
  · refine .seen (.bind context_ends fun context => .branch ?_ (.fail _))
    exact .bind (classDecl_consuming h m lt) fun _ => .bind (addClass_ends _) fun _ =>
      .pure fun _ => id
  · exact .bind (bump_consumes nofun) fun _ => .bind condition_steady fun _ =>
      .bind (inner _) fun _ =>
      .bind (alternative_steady (nestedBlock_consuming _ h) (Nat.le_of_lt lt)) fun _ =>
      .bind (nodeFrom_ends start) fun _ => .pure fun _ => id
  · exact .bind (bump_consumes nofun) fun _ => .bind condition_steady fun _ =>
      .bind (inner _) fun _ => .bind (nodeFrom_ends start) fun _ => .pure fun _ => id
  · exact .bind (bump_consumes nofun) fun _ => .bind (inner _) fun _ =>
      .bind (expectKeyword_steady _) fun _ => .bind (inner _) fun _ =>
      .bind (nodeFrom_ends start) fun _ => .pure fun _ => id
  · refine .bind context_ends fun context => .branch (.fail _) ?_
    have rest (value : Option Expr) : Ends (do
        let _ ← expectPunct .semicolon
        return some (.return (← nodeFrom start) value) : Parser (Option Statement)) (do
        let _ ← expectPunct .semicolon
        return some (.return (← nodeFrom start) value)) (Left m) fun _ => Left m :=
      .bind (expectPunct_steady _) fun _ => .bind (nodeFrom_ends start) fun _ => .pure fun _ => id
    refine .bind (bump_consumes nofun) fun _ => .bind (peek_ends _) fun bare => .branch ?_ ?_
    · exact .bind (.pure fun _ => id) rest
    · exact .bind (.bind nestedExpression_steady fun _ => .pure fun _ => id) rest
  · exact jump_ends _ _
  · exact jump_ends _ _
  · exact .seen (.bind (nestedBlock_consuming _ h m lt) fun _ =>
      .bind (nodeFrom_ends start) fun _ => .pure fun _ => id)
  · exact .seen (.branch (declaration_consuming h m lt) plain)
  · exact .seen (.bind (.look fun _ => id) fun declares =>
      .branch (declaration_consuming h m lt) plain)
  · exact .fail _
  · exact .seen plain

end Statements

theorem statement_consuming : Consuming n statement statement :=
  .recursive (fun _ _ _ _ => statementWith_consuming) fun _ _ _ _ => statementWith_consuming

theorem block_consuming : Consuming n block block :=
  (blockOf_consuming statement_consuming).mono (Nat.le_succ n)

theorem program_steady : Ends program program (Left n) fun _ => Left n := by
  refine .bind (.within _ (.repeatFrom fun read k below => ?_)) fun statements =>
    .bind (.shelve fun classes functions => ((classes, functions), [], [])) fun _ =>
    .bind nodeCount_ends fun _ => .pure fun _ => id
  refine .bind atEnd_ends fun ended => .branch (.pure fun _ => id) ?_
  refine .bind (statement_consuming k (Nat.lt_succ_self k)) fun
    | some s => .pure fun _ => id
    | none => .pure fun _ => id

theorem toEnd_steady {p : Parser α} (h : Ends p p (Left n) fun _ => Left n) :
    Ends p.toEnd p.toEnd (Left n) fun _ => Left n :=
  .bind h fun _ => .bind atEnd_ends fun _ => .branch (.pure fun _ => id) (.fail _)

end Parser

end ClassLang
