import ClassLang.Proofs.Parsing.Reports
import ClassLang.Proofs.Parsing.Results
import ClassLang.Proofs.Parsing.Yields
import ClassLang.Proofs.Syntax.Grammar
import ClassLang.Proofs.Syntax.Sameness

/-!
What is parsed is grammatical. `Settles c owners good p` says that `p`, read in the context `c`, gives
something good and puts only such declarations aside as are grammatical; the operator functions among
them belong to classes put aside, or to `owners`, the classes that are being read.

* `expression_careful`: where an expression assigns.
* `Source.program_grammatical`: parsed programs are grammatical.
-/

namespace ClassLang

theorem Expr.assignFree_compositional : Compositional fun e => e.assignFree = true :=
  .all (fun e next => by cases e <;> rfl) fun e other => by rw [other]; rfl

/-- The state in a context inside some classes, with only grammatical declarations put aside. -/
structure ParserState.Orderly (c : Context) (owners : List Ident) (s : ParserState) : Prop where
  lexical : s.Lexical
  context : s.context = c
  classes : ∀ k ∈ s.classes, k.Grammatical
  functions : ∀ f ∈ s.functions, f.Grammatical
  owned : ∀ f ∈ s.functions, ∀ owner, f.owner = some owner →
    owner ∈ owners ∨ owner ∈ s.classes.map Class.name

namespace Parser

variable {α β σ : Type} {c : Context} {owners : List Ident}

/-! ## Expressions -/

/-- What a parser of expressions must do about assignments: where the context does not allow them,
there are none. -/
structure Careful (expr : Parser Expr) : Prop where
  composed : Composed false expr
  anywhere : Makes Expr.AssignsInTurn expr
  nested : Ensures expr (·.context.inExpression = true) fun e _ => e.assignFree = true

theorem Careful.inside {expr : Parser Expr} (h : Careful expr) :
    Makes (Expr.assignFree · = true) (inside expr) := by
  refine .skip fun context s e t run _ => ?_
  obtain ⟨inner, run, -⟩ := within_eq_ok.1 run
  exact h.nested _ e inner run rfl

theorem storedValue_makes (mark : Punct) {target value : Expr} (ht : target.assignFree = true)
    (hv : value.AssignsInTurn) :
    Makes (fun stored => ∀ n, (Expr.assign n stored.1 target stored.2).AssignsInTurn)
      (storedValue mark target value) := by
  unfold storedValue
  split
  · rename_i op stores
    have copied : Makes (Expr.same · target = true) (freshCopy target) := by
      intro s copy t run _
      cases run
      rw [Expr.same_comm, Expr.same_renumber]
      exact target.same_refl
    have joined (copy : Expr) : Makes (fun e => ∃ n, e = .binary n op copy value)
        (binaryNode op copy value) := .skip fun n => .pure ⟨n, rfl⟩
    refine .bind copied fun copy same => .bind (joined copy) fun stored made => .pure fun n => ?_
    obtain ⟨n', rfl⟩ := made
    exact .compound n n' ht stores same hv
  · exact .pure fun n => .assign n _ ht hv

theorem Careful.target {expr : Parser Expr} (h : Careful expr) :
    Makes (Expr.assignFree · = true) (operation (Parser.inside expr)) :=
  operation_makes Expr.assignFree_compositional h.inside

theorem assignment_careful {expr : Parser Expr} (h : Careful expr) : Careful (assignment expr) where
  composed := assignment_composed h.composed
  anywhere := by
    refine .bind h.target fun target ht => .skip fun mark => ?_
    split
    · exact .pure (.operation ht)
    · refine .skip fun c => ?_
      split
      · exact .failAt
      split
      · exact .failAt
      · exact .bind h.anywhere fun value hv => .bind (storedValue_makes _ ht hv)
          fun stored hs => .skip fun n => .pure (hs n)
  nested := by
    intro s e t run inExpression
    unfold assignment at run
    obtain ⟨target, between, first, run⟩ := bind_eq_ok.1 run
    obtain ⟨mark, behind, second, run⟩ := bind_eq_ok.1 run
    have context : behind.context = s.context :=
      (@Composed.keeps_context _ false _ (takePunctOf?_composed _) _ _ _ second).trans
        ((operation_composed (inside_composed h.composed)).keeps_context first)
    cases mark with
    | none =>
      cases run
      exact h.target s _ _ first trivial
    | some mark =>
      obtain ⟨_, _, here, run⟩ := bind_eq_ok.1 run
      cases here
      rw [if_pos (by rw [context, inExpression])] at run
      cases run

theorem iterate_careful (n : Nat) : Careful (iterate assignment n) :=
  @iterate_induction _ Careful _ ⟨.fail _, .fail, .fail⟩ (fun _ => assignment_careful) n

theorem expression_careful : Careful expression where
  composed := expression_composed
  anywhere := by
    intro s e t run
    rw [expression, recursive_run] at run
    exact (iterate_careful _).anywhere s e t run
  nested := by
    intro s e t run
    rw [expression, recursive_run] at run
    exact (iterate_careful _).nested s e t run

theorem nestedExpression_makes : Makes (Expr.assignFree · = true) nestedExpression :=
  expression_careful.inside

/-! ## Runs -/

theorem Composed.yields {aside : Bool} {p : Parser α} (h : Composed aside p) :
    Yields (fun _ => True) p := by
  induction h with
  | pure _ => exact .pure trivial
  | bind _ _ ihp ihf => exact .bind ihp fun a _ => ihf a
  | look _ _ | number _ | shelve _ _ => exact .still fun _ => rfl
  | bump => exact bump_yields
  | fail _ => exact .fail
  | failAt _ _ => exact .failAt
  | within _ _ ih => exact .within ih

def Settles (c : Context) (owners : List Ident) (good : α → Prop) (p : Parser α) : Prop :=
  Ensures p (·.Orderly c owners) fun a s => good a ∧ s.Orderly c owners

namespace Settles

variable {good : α → Prop} {final : β → Prop}

theorem pure {a : α} (h : good a) : Settles c owners good (Pure.pure a : Parser α) :=
  Ensures.weaken .pure (fun _ before => ⟨h, before⟩) fun _ _ => id

theorem bind {p : Parser α} {f : α → Parser β} (hp : Settles c owners good p)
    (hf : ∀ a, good a → Settles c owners final (f a)) : Settles c owners final (p >>= f) :=
  Ensures.bind hp fun a s b t run before => hf a before.1 s b t run before.2

theorem mono {p : Parser α} {better : α → Prop} (hp : Settles c owners better p)
    (h : ∀ a, better a → good a) : Settles c owners good p :=
  Ensures.weaken hp (fun _ => id) fun a _ after => ⟨h a after.1, after.2⟩

theorem fail {cause : SyntaxCause} : Settles c owners good (Parser.fail cause : Parser α) :=
  Ensures.fail

theorem failAt {span : Span} {cause : SyntaxCause} :
    Settles c owners good (Parser.failAt span cause : Parser α) := Ensures.failAt

theorem within {p : Parser α} {inner : Context} (h : Settles inner owners good p) :
    Settles c owners good (Parser.within inner p) := by
  intro s a t run before
  obtain ⟨u, inside, rfl⟩ := within_eq_ok.1 run
  obtain ⟨holds, after⟩ := h _ a u inside ⟨before.lexical, rfl, before.classes, before.functions,
    before.owned⟩
  exact ⟨holds, after.lexical, before.context, after.classes, after.functions, after.owned⟩

theorem context {f : Context → Parser β} (h : Settles c owners final (f c)) :
    Settles c owners final (Parser.context >>= f) := by
  intro s b t run before
  obtain ⟨a, middle, first, second⟩ := bind_eq_ok.1 run
  cases first
  rw [before.context] at second
  exact h s b t second before

/-- A parser that puts nothing aside settles what it yields. -/
theorem of_yields {p : Parser α} (h : Yields good p) (made : Composed false p) :
    Settles c owners good p := by
  intro s a t run before
  obtain ⟨holds, lexical⟩ := h s a t run before.lexical
  have shelf := made.shelf_eq s
  rw [run] at shelf
  refine ⟨holds, lexical, (made.keeps_context run).trans before.context, ?_, ?_, ?_⟩
  · exact fun k listed => before.classes k (shelf.1 ▸ listed)
  · exact fun f listed => before.functions f (shelf.2 ▸ listed)
  · rw [shelf.1, shelf.2]
    exact before.owned

theorem and {p : Parser α} {good' : α → Prop} (h : Settles c owners good p) (h' : Makes good' p) :
    Settles c owners (fun a => good a ∧ good' a) p := by
  intro s a t run before
  obtain ⟨holds, after⟩ := h s a t run before
  exact ⟨⟨holds, h' s a t run trivial⟩, after⟩

theorem any {p : Parser α} (made : Composed false p) : Settles c owners (fun _ => True) p :=
  .of_yields made.yields made

/-- A part whose result does not matter. -/
theorem skip {p : Parser α} {f : α → Parser β} (made : Composed false p)
    (hf : ∀ a, Settles c owners final (f a)) : Settles c owners final (p >>= f) :=
  .bind (.any made) fun a _ => hf a

theorem repeatFrom {step : σ → Parser (σ ⊕ β)} (invariant : σ → Prop)
    (hstep : ∀ x, invariant x → Settles c owners (Sum.elim invariant final) (step x)) {start : σ}
    (h : invariant start) : Settles c owners final (Parser.repeatFrom start step) := by
  have keeps (x : σ) : Ensures (step x) (fun s => invariant x ∧ s.Orderly c owners)
      (Sum.elim (fun y s => invariant y ∧ s.Orderly c owners)
        fun b s => final b ∧ s.Orderly c owners) := by
    intro s result t run before
    have after := hstep x before.1 s result t run before.2
    cases result <;> exact after
  exact (Ensures.repeatFrom (fun x s => invariant x ∧ s.Orderly c owners) keeps start).weaken
    (fun _ before => ⟨h, before⟩) fun _ _ => id

end Settles

/-- A recursive rule may change what holds in front before it recurs. -/
theorem Ensures.recursiveAll {ι : Type} {before : ι → ParserState → Prop}
    {after : ι → α → ParserState → Prop} {rule : Parser α → Parser α}
    (hrule : ∀ p, (∀ i, Ensures p (before i) (after i)) → ∀ i, Ensures (rule p) (before i) (after i))
    (i : ι) : Ensures (Parser.recursive rule) (before i) (after i) := by
  intro s a t run
  rw [recursive_run] at run
  exact @iterate_induction _ (fun p => ∀ i, Ensures p (before i) (after i)) rule (fun _ => fail) hrule
    _ i s a t run

/-! ## Parts of statements -/

theorem typeRef_settles : Settles c owners (TypeRef.isSound · = true) typeRef :=
  .of_yields typeRef_yields typeRef_composed

theorem returnType_settles : Settles c owners TypeRef.Returnable returnType :=
  .of_yields returnType_yields returnType_composed

theorem expectIdent_settles : Settles c owners (isName ·.name = true) expectIdent :=
  .of_yields expectIdent_yields expectIdent_composed

theorem nestedExpression_settles : Settles c owners Expr.Nested nestedExpression :=
  ((Settles.of_yields (inside_yields expression_yields) nestedExpression_composed).and
    nestedExpression_makes).mono fun _ ⟨sound, free⟩ => ⟨sound, free⟩

theorem condition_settles : Settles c owners Expr.Nested condition :=
  .skip (expectPunct_composed _) fun _ => .bind nestedExpression_settles fun _ nested =>
    .skip (expectPunct_composed _) fun _ => .pure nested

theorem expressionStatement_settles : Settles c owners Expr.Standalone expressionStatement :=
  .context <| .bind (.within ((Settles.of_yields expression_yields expression_composed).and
    expression_careful.anywhere)) fun _ ⟨sound, turns⟩ => .skip (expectPunct_composed _) fun _ =>
    .pure ⟨sound, turns⟩

theorem initializer?_settles :
    Settles c owners (fun init => ∀ i, init = some i → i.value.Nested) initializer? := by
  have init (kind : AssignKind) : Settles c owners (fun init => ∀ i, init = some i → i.value.Nested)
      (do return some ⟨kind, ← nestedExpression⟩ : Parser (Option Initializer)) := by
    refine .bind nestedExpression_settles fun value nested => .pure fun i same => ?_
    cases same
    exact nested
  refine .skip (accept_composed _) fun value => ?_
  split
  · exact init .value
  refine .skip (accept_composed _) fun reference => ?_
  split
  · exact init .reference
  · exact .pure fun _ => nofun

theorem params_settles : Settles c owners (fun ps => ∀ p ∈ ps, p.Grammatical) params := by
  have param : Yields Param.Grammatical param :=
    .bind here_yields fun start _ => .bind typeRef_yields fun type sound =>
      .bind expectIdent_yields fun name named => .bind (nodeFrom_yields start) fun n _ =>
        .pure ⟨sound, named⟩
  exact .of_yields (commaList_yields param) params_composed

/-! ## Blocks -/

section Statements

variable {statement : Parser (Option Statement)} {block : Parser Block} {class_ : Parser Class}
  {inner : Context}

def Gives (c : Context) (s? : Option Statement) : Prop := ∀ s, s? = some s → s.Grammatical c

/-- What a parser of statements must do, wherever it is used. -/
def StatementsSettle (statement : Parser (Option Statement)) : Prop :=
  ∀ at_ : Context × List Ident, Settles at_.1 at_.2 (Gives at_.1) statement

/-- One more statement is read in front of those read so far, or none. -/
theorem grow_settles {final : List Statement → Prop} (h : Settles c owners (Gives c) statement)
    {read : List Statement} (all : ∀ s ∈ read, s.Grammatical c) :
    Settles c owners (Sum.elim (fun read => ∀ s ∈ read, s.Grammatical c) final) (do
      match ← statement with
      | some s => return .inl (s :: read)
      | none => return .inl read) := by
  refine .bind h fun s? gives => ?_
  split
  · exact .pure (List.forall_mem_cons.2 ⟨gives _ rfl, all⟩)
  · exact .pure all

theorem blockOf_settles (h : StatementsSettle statement) :
    Settles c owners (Block.Grammatical c) (blockOf statement) := by
  refine .skip (expectPunct_composed _) fun start => .bind ?_ fun ss all =>
    .skip (nodeFrom_composed start) fun n => .pure (grammaticalStatements_iff.2 all)
  refine .repeatFrom (fun read => ∀ s ∈ read, s.Grammatical c) (fun read all => ?_) fun _ => nofun
  refine .skip (accept_composed _) fun closed => ?_
  split
  · exact .pure fun s listed => all s (List.mem_reverse.1 listed)
  refine .skip atEnd_composed fun ended => ?_
  split
  · exact .fail
  · exact grow_settles (h (c, owners)) all

theorem nestedBlock_settles (extra : Context) (h : StatementsSettle statement) :
    Settles c owners (Block.Grammatical (c.nested extra)) (nestedBlock statement extra) :=
  .context (.within (blockOf_settles h))

theorem body_settles (h : StatementsSettle statement) :
    Settles c owners (Block.Grammatical .functionBody) (body statement) :=
  .within (blockOf_settles h)

theorem elseIfs_grammatical {branches : List (Expr × Block)} {last : Alternative}
    (final : last.Grammatical inner)
    (all : ∀ branch ∈ branches, branch.1.Nested ∧ branch.2.Grammatical inner) :
    (branches.foldl (fun rest (condition, b) => Alternative.elseIf condition b rest)
      last).Grammatical inner := by
  induction branches generalizing last with
  | nil => exact final
  | cons branch rest ih =>
    obtain ⟨⟨nested, body⟩, others⟩ := List.forall_mem_cons.1 all
    exact ih ⟨nested, body, final⟩ others

theorem alternative_settles (h : Settles c owners (Block.Grammatical inner) block) :
    Settles c owners (Alternative.Grammatical inner) (alternative block) := by
  have branches : Settles c owners (fun read : List (Expr × Block) × Alternative =>
        (∀ branch ∈ read.1, branch.1.Nested ∧ branch.2.Grammatical inner) ∧
          read.2.Grammatical inner)
      (repeatFrom ([] : List (Expr × Block)) fun read => do
        if ← acceptKeyword .kwElse then
          if ← acceptKeyword .kwIf then
            let c ← condition
            let b ← block
            return .inl ((c, b) :: read)
          else return .inr (read, .block (← block))
        else return .inr (read, .none)) := by
    refine .repeatFrom (fun read => ∀ branch ∈ read, branch.1.Nested ∧ branch.2.Grammatical inner)
      (fun read all => ?_) fun _ => nofun
    refine .skip (acceptKeyword_composed _) fun another => ?_
    split
    · refine .skip (acceptKeyword_composed _) fun conditional => ?_
      split
      · exact .bind condition_settles fun condition nested => .bind h fun b body =>
          .pure (List.forall_mem_cons.2 ⟨⟨nested, body⟩, all⟩)
      · exact .bind h fun b body => .pure ⟨all, body⟩
    · exact .pure ⟨all, trivial⟩
  exact .bind branches fun read all => .pure (elseIfs_grammatical all.2 all.1)

/-! ## Functions -/

theorem addFunction_settles {f : Function} (grammatical : f.Grammatical)
    (owned : ∀ owner, f.owner = some owner → owner ∈ owners) :
    Settles c owners (fun _ => True) (addFunction f) := by
  intro s a t run before
  cases run
  refine ⟨trivial, before.lexical, before.context, before.classes, ?_, ?_⟩
  · exact List.forall_mem_append.2 ⟨before.functions, List.forall_mem_singleton.2 grammatical⟩
  · exact List.forall_mem_append.2 ⟨before.owned,
      List.forall_mem_singleton.2 fun owner some_ => .inl (owned owner some_)⟩

theorem functionFrom_settles (h : StatementsSettle statement) (start : Span) {type : TypeRef}
    (returned : type.Returnable) {name : Ident} (named : isName name.name = true) :
    Settles c owners (fun f => f.Grammatical ∧ f.owner = none)
      (functionFrom statement start type name) :=
  .skip (expectPunct_composed _) fun _ => .bind params_settles fun _ written =>
    .bind (body_settles h) fun _ body => .skip (nodeFrom_composed start) fun _ =>
      .pure ⟨⟨⟨returned, written, body⟩, .free .., fun _ => named, fun _ => nofun⟩, rfl⟩

/-- The last step of a statement: its node. -/
theorem closed_settles (start : Span) {make : Node → Statement}
    (made : ∀ n, (make n).Grammatical c) :
    Settles c owners (Gives c) (do return some (make (← nodeFrom start))) := by
  refine .skip (nodeFrom_composed start) fun n => .pure fun s same => ?_
  cases same
  exact made n

theorem declaration_settles (h : StatementsSettle statement) :
    Settles c owners (Gives c) (declaration statement) := by
  refine .skip here_composed fun start => .bind returnType_settles fun type returned =>
    .bind expectIdent_settles fun name named => .skip (peek_composed _) fun function => ?_
  split
  · refine .context ?_
    split
    · exact .failAt
    · refine .bind (functionFrom_settles h start returned named) fun f ⟨grammatical, free⟩ =>
        .bind (addFunction_settles grammatical fun owner some_ => ?_) fun _ _ => .pure fun _ => nofun
      rw [free] at some_
      cases some_
  split
  · exact .failAt
  · rename_i notVoid
    have sound := returned.resolve_right fun ⟨n, same⟩ => notVoid (by rw [same]; rfl)
    exact .bind initializer?_settles fun init nested => .skip (expectPunct_composed _) fun _ =>
      closed_settles start fun n => ⟨sound, named, nested⟩

/-- The meanings of a symbol are operators that may be overloaded, with the counts of operands that
they are listed under. -/
structure OperatorSymbol.Sound (symbol : OperatorSymbol) : Prop where
  unary : ∀ op, symbol.unary = some op → op.isOverloadable = true ∧ op.arity = 1
  binary : ∀ op, symbol.binary = some op → op.isOverloadable = true ∧ op.arity = 2

theorem OperatorSymbol.Sound.meaning {symbol : OperatorSymbol} (sound : symbol.Sound) {count : Nat}
    {op : Operator} (means : symbol.meaning? count = some op) :
    op.isOverloadable = true ∧ count = op.arity := by
  unfold meaning? at means
  split at means
  · exact (sound.unary op means).imp_right Eq.symm
  · exact (sound.binary op means).imp_right Eq.symm
  · cases means

theorem OperatorSymbol.ofOperator_sound {operator : Operator}
    (overloadable : operator.isOverloadable = true) : (ofOperator operator).Sound := by
  unfold ofOperator
  split
  · rename_i unary
    refine ⟨fun op same => ?_, fun _ => nofun⟩
    cases same
    exact ⟨overloadable, unary⟩
  · rename_i notUnary
    refine ⟨fun _ => nofun, fun op same => ?_⟩
    cases same
    cases operator with
    | unary _ => exact absurd rfl notUnary
    | binary _ | index => exact ⟨rfl, rfl⟩

theorem operatorSymbol?_sound {kind : TokenKind} {symbol : OperatorSymbol}
    (known : operatorSymbol? kind = some symbol) : symbol.Sound := by
  have signed (unary : UnaryOp) (binary : BinaryOp)
      (overloadable : (Operator.unary unary).isOverloadable = true) :
      (OperatorSymbol.signed unary binary).Sound := by
    constructor
    · rintro op ⟨⟩
      exact ⟨overloadable, rfl⟩
    · rintro op ⟨⟩
      exact ⟨rfl, rfl⟩
  unfold operatorSymbol? at known
  split at known
  · cases known
    exact signed _ _ rfl
  · cases known
    exact signed _ _ rfl
  · cases known
    exact OperatorSymbol.ofOperator_sound rfl
  · cases known
    exact OperatorSymbol.ofOperator_sound rfl
  · obtain ⟨op, _, rfl⟩ := Option.map_eq_some_iff.1 known
    exact OperatorSymbol.ofOperator_sound rfl

theorem operatorSymbol_settles : Settles c owners OperatorSymbol.Sound operatorSymbol := by
  refine .skip kind_composed fun kind => ?_
  split
  · exact .skip .bump fun _ => .skip (expectPunct_composed _) fun _ =>
      .pure (OperatorSymbol.ofOperator_sound rfl)
  · split
    · rename_i known
      exact .skip .bump fun _ => .pure (operatorSymbol?_sound known)
    · exact .fail

theorem operatorFunction_settles (h : StatementsSettle statement) (start : Span) {type : TypeRef}
    (returned : type.Returnable) (owner : Ident) :
    Settles c owners (fun f => f.Grammatical ∧ f.owner = some owner)
      (operatorFunction statement start type owner) := by
  refine .skip (expectKeyword_composed _) fun _ => .skip here_composed fun place =>
    .bind operatorSymbol_settles fun symbol sound => .skip (expectPunct_composed _) fun _ =>
    .bind params_settles fun ps written => ?_
  split
  · exact .failAt
  · rename_i operator means
    refine .bind (body_settles h) fun b body => .skip (nodeFrom_composed start) fun n => .pure ?_
    refine ⟨⟨⟨returned, written, body⟩, .operator .., nofun, fun op same => ?_⟩, rfl⟩
    cases same
    exact sound.meaning means

/-! ## Classes -/

/-- A class has been read, but is not put aside yet. -/
def ClassesSettle (class_ : Parser Class) : Prop :=
  ∀ at_ : Context × List Ident, Ensures class_ (·.Orderly at_.1 at_.2)
    fun k s => k.Grammatical ∧ s.Orderly at_.1 (k.name :: at_.2)

/-- A class that is put aside owns its operator functions. -/
theorem shelve_settles {final : β → Prop} {rest : Parser β} (hc : ClassesSettle class_)
    (h : Settles c owners final rest) :
    Settles c owners final (do
      addClass (← class_)
      rest) := by
  intro s b t run before
  obtain ⟨k, middle, first, run⟩ := bind_eq_ok.1 run
  obtain ⟨_, u, shelved, run⟩ := bind_eq_ok.1 run
  obtain ⟨grammatical, between⟩ := hc (c, owners) s k middle first before
  cases shelved
  refine h _ b t run ⟨between.lexical, between.context, ?_, between.functions, ?_⟩
  · exact List.forall_mem_append.2 ⟨between.classes, List.forall_mem_singleton.2 grammatical⟩
  · intro f listed owner some_
    rw [List.map_append]
    rcases between.owned f listed owner some_ with open_ | closed
    · rcases List.mem_cons.1 open_ with rfl | around
      · exact .inr (List.mem_append_right _ (List.mem_singleton.2 rfl))
      · exact .inl around
    · exact .inr (List.mem_append_left _ closed)

structure Members.Grammatical (read : Members) : Prop where
  fields : ∀ f ∈ read.fields, GrammaticalVariable f.type f.name f.init
  methods : ∀ m ∈ read.methods, m.Grammatical

theorem methodFrom_settles (h : StatementsSettle statement) (start : Span) (ms : MemberModifiers)
    {type : TypeRef} (returned : type.Returnable) {name : Ident} (named : isName name.name = true) :
    Settles c owners Method.Grammatical (methodFrom statement start ms type name) :=
  .bind params_settles fun _ written => .bind (body_settles h) fun _ body =>
    .skip (nodeFrom_composed start) fun _ => .pure ⟨⟨returned, written, body⟩, named⟩

theorem fieldFrom_settles (start : Span) (ms : MemberModifiers) {type : TypeRef}
    (returned : type.Returnable) {name : Ident} (named : isName name.name = true) :
    Settles c owners (fun f => GrammaticalVariable f.type f.name f.init)
      (fieldFrom start ms type name) := by
  unfold fieldFrom
  split
  · exact .failAt
  split
  · exact .failAt
  · rename_i notVoid _ _
    have sound := returned.resolve_right fun ⟨n, same⟩ => notVoid (by rw [same]; rfl)
    exact .bind initializer?_settles fun init nested => .skip (expectPunct_composed _) fun _ =>
      .skip (nodeFrom_composed start) fun n => .pure ⟨sound, named, nested⟩

theorem member_settles (h : StatementsSettle statement) {owner : Ident} (inside : owner ∈ owners)
    {read : Members} (grammatical : read.Grammatical) :
    Settles c owners Members.Grammatical (member statement owner read) := by
  refine .skip here_composed fun start => .skip memberModifiers_composed fun ms =>
    .skip expectMemberType_composed fun _ => .bind returnType_settles fun type returned =>
    .skip (peek_composed _) fun operator => ?_
  split
  · split
    · exact .failAt
    · refine .bind (operatorFunction_settles h start returned owner) fun f ⟨fine, owned⟩ =>
        .bind (addFunction_settles fine fun owner' some_ => ?_) fun _ _ => .pure grammatical
      cases owned.symm.trans some_
      exact inside
  · refine .bind expectIdent_settles fun name named => .skip (accept_composed _) fun method => ?_
    split
    · exact .bind (methodFrom_settles h start ms returned named) fun m fine =>
        .pure ⟨grammatical.fields, List.forall_mem_cons.2 ⟨fine, grammatical.methods⟩⟩
    · exact .bind (fieldFrom_settles start ms returned named) fun f fine =>
        .pure ⟨List.forall_mem_cons.2 ⟨fine, grammatical.fields⟩, grammatical.methods⟩

theorem memberStep_settles (h : StatementsSettle statement) (hc : ClassesSettle class_)
    {owner : Ident} (inside : owner ∈ owners) {read : Members} (grammatical : read.Grammatical) :
    Settles c owners (Sum.elim Members.Grammatical Members.Grammatical)
      (memberStep statement class_ owner read) := by
  refine .skip (accept_composed _) fun closed => ?_
  split
  · exact .pure ⟨fun f listed => grammatical.fields f (List.mem_reverse.1 listed),
      fun m listed => grammatical.methods m (List.mem_reverse.1 listed)⟩
  refine .skip kind_composed fun kind => ?_
  split
  · exact shelve_settles hc (.pure grammatical)
  · exact .fail
  · exact .fail
  · exact .fail
  · exact .bind (member_settles h inside grammatical) fun read fine => .pure fine
  · exact .bind (member_settles h inside grammatical) fun read fine => .pure fine
  · exact .fail

theorem genericParams_yields :
    Yields (fun names => ∀ name ∈ names, isName name.name = true) genericParams := by
  refine .bind (accept_yields _) fun bracket _ => ?_
  split
  · refine .repeatFrom (fun read => ∀ name ∈ read, isName name.name = true) (fun read all => ?_)
      fun _ => nofun
    refine .bind expectIdent_yields fun name named => .bind (accept_yields _) fun comma _ => ?_
    have grown : ∀ other ∈ name :: read, isName other.name = true :=
      List.forall_mem_cons.2 ⟨named, all⟩
    split
    · exact .pure grown
    refine .bind (accept_yields _) fun closed _ => ?_
    split
    · exact .pure fun name listed => grown name (List.mem_reverse.1 listed)
    · exact .fail
  · exact .pure fun _ => nofun

/-- A part in front of the name of a class. -/
theorem Settles.enter {good : α → Prop} {after : β → ParserState → Prop} {p : Parser α}
    {f : α → Parser β} (hp : Settles c owners good p)
    (hf : ∀ a, good a → Ensures (f a) (·.Orderly c owners) after) :
    Ensures (p >>= f) (·.Orderly c owners) after :=
  Ensures.bind hp fun a s b t run before => hf a before.1 s b t run before.2

/-- Behind its name the class is among those that are being read. -/
theorem Settles.opened (name : Ident) {p : Parser Class}
    (h : Settles c (name :: owners) (fun k => k.Grammatical ∧ k.name = name) p) :
    Ensures p (·.Orderly c owners) fun k s => k.Grammatical ∧ s.Orderly c (k.name :: owners) := by
  intro s k t run before
  obtain ⟨⟨grammatical, rfl⟩, after⟩ := h s k t run ⟨before.lexical, before.context, before.classes,
    before.functions, fun f listed owner some_ =>
      (before.owned f listed owner some_).imp_left (List.mem_cons_of_mem name)⟩
  exact ⟨grammatical, after⟩

theorem classWith_settles (h : StatementsSettle statement) (hc : ClassesSettle class_) :
    ClassesSettle (classWith statement class_) := by
  rintro ⟨c, owners⟩
  refine Settles.enter (.any (expectKeyword_composed _)) fun start _ =>
    Settles.enter expectIdent_settles fun name named => Settles.opened name ?_
  refine .bind (.of_yields genericParams_yields genericParams_composed) fun generics all =>
    .skip (acceptKeyword_composed _) fun extended => ?_
  have rest (superclass : Option TypeRef) (sound : ∀ t, superclass = some t → t.isSound = true) :
      Settles c (name :: owners) (fun k : Class => k.Grammatical ∧ k.name = name) (do
        let _ ← expectPunct .openBrace
        let members ← within .classBody <|
          repeatFrom (⟨[], []⟩ : Members) (memberStep statement class_ name)
        return ⟨← nodeFrom start, name, generics, superclass, members.fields, members.methods⟩) := by
    have members : Settles .classBody (name :: owners) Members.Grammatical
        (repeatFrom (⟨[], []⟩ : Members) (memberStep statement class_ name)) :=
      .repeatFrom Members.Grammatical
        (fun _ grammatical => memberStep_settles h hc (List.mem_cons_self ..) grammatical)
        ⟨fun _ => nofun, fun _ => nofun⟩
    exact .skip (expectPunct_composed _) fun _ => .bind (.within members) fun read written =>
      .skip (nodeFrom_composed start) fun n =>
        .pure ⟨⟨named, all, sound, written.fields, written.methods⟩, rfl⟩
  dsimp only
  split
  · refine .bind (.bind typeRef_settles fun t fine => .pure (fun t' same => ?_)) rest
    cases same
    exact fine
  · exact .bind (.pure fun _ => nofun) rest

theorem classDecl_settles (h : StatementsSettle statement) : ClassesSettle (classDecl statement) :=
  Ensures.recursiveAll fun _ => classWith_settles h

/-! ## Statements -/

/-- A jump is only read in a loop. -/
theorem jump_settles (word : Keyword) {make : Node → Statement}
    (made : c.inLoop = true → ∀ n, (make n).Grammatical c) :
    Settles c owners (Gives c) (jump word make) := by
  refine .skip here_composed fun start => .context ?_
  split
  · exact .fail
  · rename_i inside
    exact .skip .bump fun _ => .skip (expectPunct_composed _) fun _ =>
      closed_settles start (made (by simpa using inside))

/-- A return is only read in a function. -/
theorem returned_settles (start : Span) (inside : c.inFunction = true) {value : Option Expr}
    (nested : ∀ e, value = some e → e.Nested) :
    Settles c owners (Gives c) (do
      let _ ← expectPunct .semicolon
      return some (.return (← nodeFrom start) value)) :=
  .skip (expectPunct_composed _) fun _ => closed_settles start fun _ => ⟨inside, nested⟩

theorem plain_settles (start : Span) :
    Settles c owners (Gives c) (do
      let value ← expressionStatement
      return some (.expr (← nodeFrom start) value)) :=
  .bind expressionStatement_settles fun _ standalone => closed_settles start fun _ => standalone

theorem statementWith_settles (h : StatementsSettle statement) :
    StatementsSettle (statementWith statement) := by
  rintro ⟨c, owners⟩
  have block (extra : Context) : Settles c owners (Block.Grammatical (c.nested extra))
      (nestedBlock statement extra) := nestedBlock_settles extra h
  refine .skip here_composed fun start => .skip kind_composed fun kind => ?_
  dsimp only
  split
  · refine .context ?_
    split
    · exact shelve_settles (classDecl_settles h) (.pure fun _ => nofun)
    · exact .fail
  · exact .skip .bump fun _ => .bind condition_settles fun condition nested =>
      .bind (block _) fun first body => .bind (alternative_settles (block _)) fun second others =>
      closed_settles start fun n => ⟨nested, body, others⟩
  · exact .skip .bump fun _ => .bind condition_settles fun condition nested =>
      .bind (block _) fun loop body => closed_settles start fun n => ⟨nested, body⟩
  · exact .skip .bump fun _ => .bind (block _) fun tried body =>
      .skip (expectKeyword_composed _) fun _ => .bind (block _) fun caught handler =>
      closed_settles start fun n => ⟨body, handler⟩
  · refine .context ?_
    split
    · exact .fail
    rename_i outside
    have inside : c.inFunction = true := by simpa using outside
    refine .skip .bump fun _ => .skip (peek_composed _) fun bare => ?_
    split
    · exact .bind (.pure fun _ => nofun) fun value => returned_settles start inside
    · refine .bind (.bind nestedExpression_settles fun e nested => .pure fun e' same => ?_)
        fun value => returned_settles start inside
      cases same
      exact nested
  · exact jump_settles _ fun inside _ => inside
  · exact jump_settles _ fun inside _ => inside
  · exact .bind (block _) fun inner body => closed_settles start fun n => body
  · split
    · exact declaration_settles h
    · exact plain_settles start
  · refine .skip startsDeclaration_composed fun declares => ?_
    split
    · exact declaration_settles h
    · exact plain_settles start
  · exact .fail
  · exact plain_settles start

end Statements

theorem statement_settles : StatementsSettle statement :=
  Ensures.recursiveAll fun _ => statementWith_settles

/-! ## Whole programs -/

theorem program_settles : Settles c [] Program.Grammatical program := by
  have statements : Settles .global [] (fun ss => ∀ s ∈ ss, s.Grammatical .global)
      (repeatFrom [] fun read => do
        if ← atEnd then return .inr read.reverse
        else match ← statement with
          | some s => return .inl (s :: read)
          | none => return .inl read) := by
    refine .repeatFrom (fun read => ∀ s ∈ read, s.Grammatical .global) (fun read all => ?_)
      fun _ => nofun
    refine .skip atEnd_composed fun ended => ?_
    split
    · exact .pure fun s listed => all s (List.mem_reverse.1 listed)
    · exact grow_settles (statement_settles (.global, [])) all
  have taken : Settles c [] (fun shelf : List Class × List Function =>
      (∀ k ∈ shelf.1, k.Grammatical) ∧ (∀ f ∈ shelf.2, f.Grammatical) ∧
        ∀ f ∈ shelf.2, ∀ owner, f.owner = some owner → owner ∈ shelf.1.map Class.name)
      takeDeclarations := by
    intro s a t run before
    cases run
    refine ⟨⟨before.classes, before.functions, fun f listed owner some_ => ?_⟩, before.lexical,
      before.context, fun _ => nofun, fun _ => nofun, fun _ => nofun⟩
    exact (before.owned f listed owner some_).resolve_left List.not_mem_nil
  exact .bind (.within statements) fun ss all => .bind taken fun shelf ⟨classes, functions, owned⟩ =>
    .skip nodeCount_composed fun n =>
      .pure ⟨classes, functions, owned, grammaticalStatements_iff.2 all⟩

end Parser

namespace Source

variable {source : Source}

theorem start_orderly {tokens : List Token} (lexed : source.tokens = .ok tokens) :
    (ParserState.start tokens source.whole).Orderly .global [] :=
  ⟨ParserState.start_lexical lexed, rfl, fun _ => nofun, fun _ => nofun, fun _ => nofun⟩

theorem block_grammatical {b : Block} (parsed : source.parse Parser.block = .ok b) :
    b.Grammatical .global := by
  obtain ⟨tokens, s, lexed, run, -⟩ := Source.parse_eq_ok.1 parsed
  exact (Parser.blockOf_settles Parser.statement_settles _ b s run (start_orderly lexed)).1

theorem program_grammatical {p : Program} (parsed : source.parse Parser.program = .ok p) :
    p.Grammatical := by
  obtain ⟨tokens, s, lexed, run, -⟩ := Source.parse_eq_ok.1 parsed
  exact (Parser.program_settles _ p s run (start_orderly lexed)).1

theorem program_placed {p : Program} (parsed : source.parse Parser.program = .ok p) : p.Placed :=
  (program_grammatical parsed).placed

theorem functions_written {p : Program} (parsed : source.parse Parser.program = .ok p) :
    ∀ f ∈ p.functions, f.Written :=
  fun f listed => ((program_grammatical parsed).functions f listed).written

end Source

end ClassLang
