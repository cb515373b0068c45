import ClassLang.Proofs.Parsing.Runs
import ClassLang.Proofs.Syntax.Relocation
import Mathlib.Data.List.Forall2
import Mathlib.Order.MinMax

/-!
Two parsers side by side, on the same tokens laid out in two ways. They come to the same result, up to
the places in it, or fail with the same error at the same tokens: one rule for each combinator, and then
one lemma for each rule of the grammar. Here are tokens, types and expressions.

* `expression_tracks`: an expression is read in the same way, however it is laid out.
-/

namespace ClassLang

/-! ## Layouts -/

/-- Where the tokens of a text start and stop, by their numbers. -/
structure Layout where
  start : Nat → Nat
  stop : Nat → Nat
  start_mono : Monotone start
  stop_mono : Monotone stop

namespace Layout

/-- The place of a stretch of tokens. -/
def place (l : Layout) (s : Span) : Span := ⟨l.start s.start, l.stop s.stop⟩

theorem place_join (l : Layout) (a b : Span) : l.place (a.join b) = (l.place a).join (l.place b) := by
  simp only [place, Span.join, l.start_mono.map_min, l.stop_mono.map_max]

end Layout

/-- The cause without the piece of source that it quotes. -/
def SyntaxCause.unquoted : SyntaxCause → SyntaxCause
  | expectedToken expected _ => expectedToken expected ""
  | cause => cause

variable {α β σ : Type} {l : Layout}

structure Token.Laid (l : Layout) (t u : Token) : Prop where
  kind : u.kind = t.kind
  span : u.span = l.place t.span

structure Cursor.Laid (l : Layout) (c d : Cursor) : Prop where
  current : c.current.Laid l d.current
  later : List.Forall₂ (Token.Laid l) c.later d.later

namespace Cursor.Laid

variable {c d : Cursor} (laid : c.Laid l d)
include laid

theorem remaining : d.remaining = c.remaining := laid.later.length_eq.symm

theorem isAtEnd : d.isAtEnd = c.isAtEnd := by rw [Cursor.isAtEnd, laid.current.kind, Cursor.isAtEnd]

theorem advance : c.advance.Laid l d.advance := by
  unfold Cursor.advance
  rw [laid.isAtEnd]
  split
  · exact laid
  · obtain ⟨current, later⟩ := c
    obtain ⟨current', later'⟩ := d
    obtain ⟨here, onward⟩ := laid
    cases onward with
    | nil => exact ⟨here, .nil⟩
    | cons first rest => exact ⟨first, rest⟩

end Cursor.Laid

/-- The same state of reading, with the tokens laid out in another way. -/
structure ParserState.Laid (l : Layout) (s t : ParserState) : Prop where
  cursor : s.cursor.Laid l t.cursor
  prev : t.prev = l.place s.prev
  nextId : t.nextId = s.nextId
  context : t.context = s.context
  classes : t.classes = s.classes.map (.relocate l.place)
  functions : t.functions = s.functions.map (.relocate l.place)

namespace Parser

/-- What two runs come to. -/
inductive Alike (l : Layout) (ren : α → α) :
    Except SyntaxError α × ParserState → Except SyntaxError α × ParserState → Prop where
  | ok {a b : α} {s t : ParserState} : b = ren a → s.Laid l t → Alike l ren (.ok a, s) (.ok b, t)
  | error {e e' : SyntaxError} {s t : ParserState} : e'.span = l.place e.span →
      e'.cause.unquoted = e.cause.unquoted → Alike l ren (.error e, s) (.error e', t)

theorem Alike.leave {ren : α → α} {outcome outcome' : Except SyntaxError α × ParserState}
    {c c' : Context} (h : Alike l ren outcome outcome') (same : c' = c) :
    Alike l ren (outcome.1, { outcome.2 with context := c })
      (outcome'.1, { outcome'.2 with context := c' }) := by
  cases h with
  | ok result laid => exact .ok result { laid with context := same }
  | error here cause => exact .error here cause

/-- Two parsers come to the same on tokens that are laid out in two ways, up to a view of the
results. -/
def Tracks (l : Layout) (ren : α → α) (p q : Parser α) : Prop :=
  ∀ s t, s.Laid l t → Alike l ren (p.run s) (q.run t)

/-! ## Combinators -/

namespace Tracks

variable {r : α → α} {r' : β → β} {p q : Parser α} {k k' : α → Parser β}

theorem pure {a b : α} (same : b = r a) : Tracks l r (Pure.pure a) (Pure.pure b) :=
  fun _ _ laid => .ok same laid

theorem bind (first : Tracks l r p q) (rest : ∀ a, Tracks l r' (k a) (k' (r a))) :
    Tracks l r' (p >>= k) (q >>= k') := by
  intro s t laid
  have before := first s t laid
  change Alike l r' ((Parser.bind p k).run s) ((Parser.bind q k').run t)
  unfold Parser.bind
  dsimp only
  generalize p.run s = outcome at before
  generalize q.run t = outcome' at before
  cases before with
  | ok same laid => exact same ▸ rest _ _ _ laid
  | error here same => exact .error here same

theorem bind_same (first : Tracks l id p q) (rest : ∀ a, Tracks l r' (k a) (k' a)) :
    Tracks l r' (p >>= k) (q >>= k') := bind first rest

theorem map {v w : α → β} (h : Tracks l r p q) (same : ∀ a, w (r a) = r' (v a)) :
    Tracks l r' (v <$> p) (w <$> q) := bind h fun a => .pure (same a)

theorem look {v w : ParserState → α} (same : ∀ s t, s.Laid l t → w t = r (v s)) :
    Tracks l r ⟨fun s => (.ok (v s), s)⟩ ⟨fun s => (.ok (w s), s)⟩ :=
  fun s t laid => .ok (same s t laid) laid

theorem failAt (span : Span) (cause : SyntaxCause) :
    Tracks l r (Parser.failAt span cause) (Parser.failAt (l.place span) cause) :=
  fun _ _ _ => .error rfl rfl

theorem fail (cause : SyntaxCause) : Tracks l r (Parser.fail cause) (Parser.fail cause) :=
  fun _ _ laid => .error laid.cursor.current.span rfl

theorem within (c : Context) (h : Tracks l r p q) :
    Tracks l r (Parser.within c p) (Parser.within c q) :=
  fun s t laid => (h { s with context := c } { t with context := c }
    { laid with context := rfl }).leave laid.context

theorem loop {step step' : σ → Parser (σ ⊕ β)} (carry : σ → σ)
    (each : ∀ x, Tracks l (Sum.map carry r') (step x) (step' (carry x))) (n : Nat) :
    ∀ x, Tracks l r' (Parser.loop step n x) (Parser.loop step' n (carry x)) := by
  induction n with
  | zero => exact fun _ => .fail _
  | succ n ih =>
    intro x
    refine .bind (each x) fun result => ?_
    cases result with
    | inl y => exact ih y
    | inr b => exact .pure rfl

theorem repeatFrom {step step' : σ → Parser (σ ⊕ β)} (carry : σ → σ)
    (each : ∀ x, Tracks l (Sum.map carry r') (step x) (step' (carry x))) (start : σ) :
    Tracks l r' (Parser.repeatFrom start step) (Parser.repeatFrom (carry start) step') := by
  intro s t laid
  rw [repeatFrom_run, repeatFrom_run, laid.cursor.remaining]
  exact loop carry each _ start s t laid

theorem recursive {rule : Parser α → Parser α}
    (each : ∀ p, Tracks l r p p → Tracks l r (rule p) (rule p)) :
    Tracks l r (Parser.recursive rule) (Parser.recursive rule) := by
  intro s t laid
  rw [recursive_run, recursive_run, laid.cursor.remaining]
  exact @iterate_induction _ (fun p => Tracks l r p p) rule (.fail _) each _ s t laid

end Tracks

/-! ## Tokens -/

theorem context_tracks : Tracks l id context context := .look fun _ _ laid => laid.context

theorem kind_tracks : Tracks l id kind kind := .look fun _ _ laid => laid.cursor.current.kind

theorem here_tracks : Tracks l l.place here here := .look fun _ _ laid => laid.cursor.current.span

theorem atEnd_tracks : Tracks l id atEnd atEnd := .look fun _ _ laid => laid.cursor.isAtEnd

theorem peek_tracks (wanted : TokenKind) : Tracks l id (peek wanted) (peek wanted) :=
  .look fun _ _ laid => congrArg (· == wanted) laid.cursor.current.kind

theorem nodeCount_tracks : Tracks l id nodeCount nodeCount := .look fun _ _ laid => laid.nextId

theorem spanFrom_tracks (start : Span) :
    Tracks l l.place (spanFrom start) (spanFrom (l.place start)) := by
  refine .look fun s t laid => ?_
  rw [laid.prev, l.place_join]

/-- Reading the current token, of which only the place is used. -/
theorem bump_tracks {ren : α → α} {k k' : Token → Parser α}
    (rest : ∀ t u : Token, t.Laid l u → Tracks l ren (k t) (k' u)) :
    Tracks l ren (bump >>= k) (bump >>= k') := by
  intro s t laid
  refine rest _ _ laid.cursor.current _ _ ?_
  rw [laid.cursor.isAtEnd]
  split
  · exact laid
  · exact { laid with cursor := laid.cursor.advance, prev := laid.cursor.current.span }

theorem newNode_tracks (span : Span) :
    Tracks l (.relocate l.place) (newNode span) (newNode (l.place span)) := by
  intro s t laid
  unfold newNode
  dsimp only
  rw [laid.nextId]
  exact .ok rfl { laid with nextId := rfl }

theorem nodeFrom_tracks (start : Span) :
    Tracks l (.relocate l.place) (nodeFrom start) (nodeFrom (l.place start)) :=
  .bind (spanFrom_tracks start) newNode_tracks

theorem freshCopy_tracks (e : Expr) :
    Tracks l (.relocate l.place) (freshCopy e) (freshCopy (e.relocate l.place)) := by
  intro s t laid
  unfold freshCopy
  dsimp only
  rw [laid.nextId, e.renumber_relocate]
  exact .ok rfl { laid with nextId := rfl }

theorem addClass_tracks (c : Class) : Tracks l id (addClass c) (addClass (c.relocate l.place)) := by
  intro s t laid
  refine .ok rfl { laid with classes := ?_ }
  rw [laid.classes, List.map_append]
  rfl

theorem addFunction_tracks (f : Function) :
    Tracks l id (addFunction f) (addFunction (f.relocate l.place)) := by
  intro s t laid
  refine .ok rfl { laid with functions := ?_ }
  rw [laid.functions, List.map_append]
  rfl

theorem takeDeclarations_tracks :
    Tracks l (Prod.map (List.map (.relocate l.place)) (List.map (.relocate l.place)))
      takeDeclarations takeDeclarations := by
  intro s t laid
  unfold takeDeclarations
  dsimp only
  rw [laid.classes, laid.functions]
  exact .ok rfl { laid with classes := rfl, functions := rfl }

theorem take?_tracks (wanted : TokenKind) :
    Tracks l (Option.map l.place) (take? wanted) (take? wanted) := by
  refine .bind_same (peek_tracks wanted) fun present => ?_
  split
  · exact bump_tracks fun t u laid => .pure (congrArg some laid.span)
  · exact .pure rfl

theorem takePunctOf?_tracks (marks : List Punct) :
    Tracks l (Option.map (Prod.map id l.place)) (takePunctOf? marks) (takePunctOf? marks) := by
  refine .bind_same kind_tracks fun kind => ?_
  split
  · split
    · exact bump_tracks fun t u laid => .pure (congrArg (fun span => some (_, span)) laid.span)
    · exact .pure rfl
  · exact .pure rfl

theorem takeIdent?_tracks : Tracks l (Option.map (.relocate l.place)) takeIdent? takeIdent? := by
  refine .bind_same kind_tracks fun kind => ?_
  split
  · refine bump_tracks fun t u laid => .pure ?_
    rw [laid.span]
    rfl
  · exact .pure rfl

theorem accept_tracks (p : Punct) : Tracks l id (accept p) (accept p) :=
  .bind (take?_tracks _) fun _ => .pure Option.isSome_map

theorem acceptKeyword_tracks (k : Keyword) : Tracks l id (acceptKeyword k) (acceptKeyword k) :=
  .bind (take?_tracks _) fun _ => .pure Option.isSome_map

/-- What is found in place of a token is quoted. -/
theorem expected_tracks {ren : α → α} (text : String) :
    Tracks l ren (expected text) (expected text) :=
  fun _ _ laid => .error laid.cursor.current.span rfl

theorem expectPunct_tracks (p : Punct) : Tracks l l.place (expectPunct p) (expectPunct p) := by
  refine .bind (take?_tracks _) fun span => ?_
  cases span with
  | some span => exact .pure rfl
  | none => exact expected_tracks _

theorem expectKeyword_tracks (k : Keyword) :
    Tracks l l.place (expectKeyword k) (expectKeyword k) := by
  refine .bind (take?_tracks _) fun span => ?_
  cases span with
  | some span => exact .pure rfl
  | none => exact expected_tracks _

theorem expectIdent_tracks : Tracks l (.relocate l.place) expectIdent expectIdent := by
  refine .bind takeIdent?_tracks fun name => ?_
  cases name with
  | some name => exact .pure rfl
  | none =>
    refine .bind_same atEnd_tracks fun ended => ?_
    split <;> exact .fail _

theorem commaList_tracks {item : Parser α} {ren : α → α} (closing : Punct) (cause : SyntaxCause)
    (h : Tracks l ren item item) :
    Tracks l (List.map ren) (commaList closing cause item) (commaList closing cause item) := by
  refine .bind_same (accept_tracks _) fun closed => ?_
  split
  · exact .pure rfl
  refine .repeatFrom (List.map ren) (fun items => ?_) []
  refine .bind h fun a => .bind_same (accept_tracks _) fun comma => ?_
  split
  · exact .pure rfl
  refine .bind_same (accept_tracks _) fun closed => ?_
  split
  · refine .pure (congrArg Sum.inr ?_)
    rw [← List.map_cons, List.map_reverse]
  · exact .fail _

/-! ## Types -/

theorem modifiers_tracks : Tracks l id modifiers modifiers := by
  refine .repeatFrom id (fun m => ?_) Modifiers.none
  have another (present : Bool) (word : Keyword) (added : Modifiers) :
      Tracks l (Sum.map id id) (if present then Parser.fail (.duplicateModifier word)
          else do let _ ← bump; return .inl added : Parser (Modifiers ⊕ Modifiers))
        (if present then Parser.fail (.duplicateModifier word)
          else do let _ ← bump; return .inl added) := by
    split
    · exact .fail _
    · exact bump_tracks fun _ _ _ => .pure rfl
  refine .bind_same kind_tracks fun kind => ?_
  dsimp only [id_eq]
  split
  · exact another _ _ _
  · exact another _ _ _
  · exact another _ _ _
  · exact .pure rfl

section Types

variable {type : Parser TypeRef} (h : Tracks l (.relocate l.place) type type)
include h

theorem typeArgs?_tracks :
    Tracks l (Option.map (List.map (.relocate l.place))) (typeArgs? type) (typeArgs? type) := by
  refine .bind_same (accept_tracks _) fun bracket => ?_
  split
  · exact .bind (commaList_tracks _ _ h) fun _ => .pure rfl
  · exact .pure rfl

theorem typeWith_tracks (allowVoid : Bool) :
    Tracks l (.relocate l.place) (typeWith type allowVoid) (typeWith type allowVoid) := by
  refine .bind here_tracks fun start => .bind_same modifiers_tracks fun mods =>
    .bind_same kind_tracks fun kind => ?_
  -- The arguments of an array or keymap are none if there is no bracket.
  have given (args : Option (List TypeRef)) : (args.map (List.map (.relocate l.place))).getD [] =
      TypeRef.relocateAll l.place (args.getD []) := by
    cases args with
    | none => rfl
    | some args => exact (TypeRef.relocateAll_eq _ _).symm
  split
  · split
    · exact .fail _
    · exact bump_tracks fun _ _ _ => .bind (nodeFrom_tracks start) fun _ => .pure rfl
  · exact bump_tracks fun _ _ _ => .bind (typeArgs?_tracks h) fun args =>
      .bind (nodeFrom_tracks start) fun _ => .pure (congrArg _ (given args))
  · exact bump_tracks fun _ _ _ => .bind (typeArgs?_tracks h) fun args =>
      .bind (nodeFrom_tracks start) fun _ => .pure (congrArg _ (given args))
  · exact bump_tracks fun _ _ _ => .bind (nodeFrom_tracks start) fun _ => .pure rfl
  · refine .bind expectIdent_tracks fun name => .bind (typeArgs?_tracks h) fun args => ?_
    cases args with
    | some args =>
      refine .bind (nodeFrom_tracks start) fun _ => .pure ?_
      rw [TypeRef.relocate, TypeRef.relocateAll_eq]
    | none => exact .bind (nodeFrom_tracks start) fun _ => .pure rfl
  · exact .fail _
  · exact .fail _

end Types

theorem typeRef_tracks : Tracks l (.relocate l.place) typeRef typeRef :=
  .recursive fun _ h => typeWith_tracks h false

theorem returnType_tracks : Tracks l (.relocate l.place) returnType returnType :=
  typeWith_tracks typeRef_tracks true

/-- The look ahead reads what the tokens are, not where they stand. -/
theorem nameAfterBrackets_laid {ts us : List Token} (laid : List.Forall₂ (Token.Laid l) ts us)
    (depth : Nat) : nameAfterBrackets depth us = nameAfterBrackets depth ts := by
  induction laid generalizing depth with
  | nil => rfl
  | @cons t u ts us first rest ih =>
    have next : us.head?.map Token.kind = ts.head?.map Token.kind := by
      cases rest with
      | nil => rfl
      | cons second _ => exact congrArg some second.kind
    unfold nameAfterBrackets
    rw [first.kind, next]
    simp only [ih]

theorem startsDeclaration_tracks : Tracks l id startsDeclaration startsDeclaration := by
  refine .look fun s t laid => ?_
  have later := laid.cursor.later
  generalize s.cursor.later = ts at later
  generalize t.cursor.later = us at later
  cases later with
  | nil => rfl
  | cons first rest =>
    dsimp only [id_eq]
    rw [first.kind]
    simp only [nameAfterBrackets_laid rest]

/-! ## Expressions -/

section Expressions

variable {next operand nested expr : Parser Expr}

theorem binaryNode_tracks (op : BinaryOp) (lhs rhs : Expr) :
    Tracks l (.relocate l.place) (binaryNode op lhs rhs)
      (binaryNode op (lhs.relocate l.place) (rhs.relocate l.place)) := by
  have whole := newNode_tracks (l := l) (lhs.span.join rhs.span)
  rw [l.place_join, ← lhs.span_relocate l.place, ← rhs.span_relocate l.place] at whole
  exact .bind whole fun _ => .pure rfl

theorem unaryNode_tracks (op : UnaryOp) (start : Span) (operand : Expr) :
    Tracks l (.relocate l.place) (unaryNode op start operand)
      (unaryNode op (l.place start) (operand.relocate l.place)) :=
  .bind (nodeFrom_tracks start) fun _ => .pure rfl

theorem operatorOf?_tracks (ops : List BinaryOp) :
    Tracks l id (operatorOf? ops) (operatorOf? ops) := by
  refine .bind_same kind_tracks fun kind => ?_
  split
  · exact bump_tracks fun _ _ _ => .pure rfl
  · exact .pure rfl

theorem leftAssoc_tracks (ops : List BinaryOp) (h : Tracks l (.relocate l.place) next next) :
    Tracks l (.relocate l.place) (leftAssoc ops next) (leftAssoc ops next) := by
  refine .bind h fun first => .repeatFrom (.relocate l.place) (fun lhs => ?_) first
  refine .bind_same (operatorOf?_tracks ops) fun op => ?_
  split
  · exact .bind h fun rhs => .bind (binaryNode_tracks _ _ _) fun _ => .pure rfl
  · exact .pure rfl

theorem operations_tracks (ops : List BinaryOp) (h : Tracks l (.relocate l.place) next next) :
    Tracks l (List.map (Prod.map id (.relocate l.place))) (operations ops next)
      (operations ops next) := by
  refine .repeatFrom (List.map (Prod.map id (.relocate l.place))) (fun read => ?_) []
  refine .bind_same (operatorOf?_tracks ops) fun op => ?_
  split
  · exact .bind h fun rhs => .pure rfl
  · exact .pure (congrArg Sum.inr List.map_reverse.symm)

theorem comparisons_tracks (lhs : Expr) (rest : List (BinaryOp × Expr)) :
    Tracks l (List.map (.relocate l.place)) (comparisons lhs rest)
      (comparisons (lhs.relocate l.place) (rest.map (Prod.map id (.relocate l.place)))) := by
  induction rest generalizing lhs with
  | nil => exact .pure rfl
  | cons first rest ih =>
    exact .bind (freshCopy_tracks _) fun shared => .bind (binaryNode_tracks _ _ _) fun _ =>
      .bind (ih shared) fun _ => .pure rfl

theorem conjunction_tracks (first : Expr) (rest : List Expr) :
    Tracks l (.relocate l.place) (conjunction first rest)
      (conjunction (first.relocate l.place) (rest.map (.relocate l.place))) := by
  induction rest generalizing first with
  | nil => exact .pure rfl
  | cons second rest ih => exact .bind (ih second) fun _ => binaryNode_tracks _ _ _

theorem chain_tracks (ops : List BinaryOp) (h : Tracks l (.relocate l.place) next next) :
    Tracks l (.relocate l.place) (chain ops next) (chain ops next) := by
  refine .bind h fun first => .bind (operations_tracks ops h) fun others =>
    .bind (comparisons_tracks first others) fun compared => ?_
  cases compared with
  | nil => exact .pure rfl
  | cons comparison rest => exact conjunction_tracks comparison rest

theorem binary_tracks (ls : List Level) (h : Tracks l (.relocate l.place) operand operand) :
    Tracks l (.relocate l.place) (binary ls operand) (binary ls operand) := by
  induction ls with
  | nil => exact h
  | cons level tighter ih =>
    cases level with
    | leftAssoc ops => exact leftAssoc_tracks ops ih
    | chain ops => exact chain_tracks ops ih

theorem applyUnary_tracks (operand : Expr) (ops : List (UnaryOp × Span)) :
    Tracks l (.relocate l.place) (applyUnary operand ops)
      (applyUnary (operand.relocate l.place) (ops.map (Prod.map id l.place))) := by
  induction ops with
  | nil => exact .pure rfl
  | cons op inner ih => exact .bind ih fun _ => unaryNode_tracks _ _ _

theorem unary_tracks (op? : TokenKind → Option UnaryOp)
    (h : Tracks l (.relocate l.place) operand operand) :
    Tracks l (.relocate l.place) (unary op? operand) (unary op? operand) := by
  have ops : Tracks l (List.map (Prod.map id l.place)) (unaryOps op?) (unaryOps op?) := by
    refine .repeatFrom (List.map (Prod.map id l.place)) (fun read => ?_) []
    refine .bind here_tracks fun start => .bind_same kind_tracks fun kind => ?_
    split
    · exact bump_tracks fun _ _ _ => .pure rfl
    · exact .pure (congrArg Sum.inr List.map_reverse.symm)
  exact .bind ops fun _ => .bind h fun _ => applyUnary_tracks _ _

theorem powerOf_tracks (base : Expr) (others : List Expr) :
    Tracks l (.relocate l.place) (powerOf base others)
      (powerOf (base.relocate l.place) (others.map (.relocate l.place))) := by
  induction others generalizing base with
  | nil => exact .pure rfl
  | cons second rest ih => exact .bind (ih second) fun _ => binaryNode_tracks _ _ _

theorem power_tracks (h : Tracks l (.relocate l.place) operand operand) :
    Tracks l (.relocate l.place) (power operand) (power operand) := by
  refine .bind h fun base => .bind (operations_tracks _ h) fun exponents => ?_
  have moved := powerOf_tracks (l := l) base (exponents.map Prod.snd)
  rw [List.map_map] at moved
  rw [List.map_map]
  exact moved

theorem keymapPair_tracks (h : Tracks l (.relocate l.place) nested nested) :
    Tracks l (.relocate l.place) (keymapPair nested) (keymapPair nested) :=
  .bind here_tracks fun start => .bind h fun _ => .bind (expectPunct_tracks _) fun _ =>
    .bind h fun _ => .bind (nodeFrom_tracks start) fun _ => .pure rfl

theorem primary_tracks (h : Tracks l (.relocate l.place) nested nested) :
    Tracks l (.relocate l.place) (primary nested) (primary nested) := by
  refine .bind here_tracks fun start => ?_
  have word (make : Node → Expr)
      (same : ∀ n : Node, make (n.relocate l.place) = (make n).relocate l.place) :
      Tracks l (.relocate l.place) (do let _ ← bump; return make (← nodeFrom start) : Parser Expr)
        (do let _ ← bump; return make (← nodeFrom (l.place start))) :=
    bump_tracks fun _ _ _ => .bind (nodeFrom_tracks start) fun n => .pure (same n)
  refine .bind_same kind_tracks fun kind => ?_
  split
  · exact .bind expectIdent_tracks fun _ => .bind (nodeFrom_tracks start) fun _ => .pure rfl
  · exact word _ fun _ => rfl
  · exact word _ fun _ => rfl
  · exact word _ fun _ => rfl
  · exact word _ fun _ => rfl
  · exact word _ fun _ => rfl
  · exact word _ fun _ => rfl
  · exact bump_tracks fun _ _ _ => .bind h fun _ => .bind (expectPunct_tracks _) fun _ => .pure rfl
  · refine bump_tracks fun _ _ _ => .bind (commaList_tracks _ _ h) fun elems =>
      .bind (nodeFrom_tracks start) fun _ => .pure ?_
    rw [Expr.relocate, Expr.relocateAll_eq]
  · refine bump_tracks fun _ _ _ => .bind (commaList_tracks _ _ (keymapPair_tracks h)) fun pairs =>
      .bind (nodeFrom_tracks start) fun _ => .pure ?_
    rw [Expr.relocate, Expr.relocatePairs_eq]
  · exact .fail _
  · exact .fail _

theorem postfixStep_tracks (start : Span) (target : Expr)
    (h : Tracks l (.relocate l.place) nested nested) :
    Tracks l (Sum.map (.relocate l.place) (.relocate l.place)) (postfixStep nested start target)
      (postfixStep nested (l.place start) (target.relocate l.place)) := by
  refine .bind_same (accept_tracks _) fun dot => ?_
  split
  · exact .bind expectIdent_tracks fun _ => .bind (nodeFrom_tracks start) fun _ => .pure rfl
  refine .bind_same (accept_tracks _) fun arrow => ?_
  split
  · exact .bind expectIdent_tracks fun _ => .bind (nodeFrom_tracks start) fun _ => .pure rfl
  refine .bind_same (accept_tracks _) fun bracket => ?_
  split
  · exact .bind h fun _ => .bind (expectPunct_tracks _) fun _ =>
      .bind (nodeFrom_tracks start) fun _ => .pure rfl
  refine .bind_same (accept_tracks _) fun paren => ?_
  split
  · refine .bind (commaList_tracks _ _ h) fun args => .bind (nodeFrom_tracks start) fun _ =>
      .pure (congrArg Sum.inl ?_)
    rw [Expr.relocate, Expr.relocateAll_eq]
  · exact .pure rfl

theorem postfixed_tracks (h : Tracks l (.relocate l.place) nested nested) :
    Tracks l (.relocate l.place) (postfixed nested) (postfixed nested) :=
  .bind here_tracks fun start => .bind (primary_tracks h) fun first =>
    .repeatFrom (.relocate l.place) (fun target => postfixStep_tracks start target h) first

theorem allocation_tracks (h : Tracks l (.relocate l.place) nested nested) :
    Tracks l (.relocate l.place) (allocation nested) (allocation nested) := by
  refine .bind here_tracks fun start => .bind_same (acceptKeyword_tracks _) fun new => ?_
  split
  · exact .bind typeRef_tracks fun _ => .bind (nodeFrom_tracks start) fun _ => .pure rfl
  refine .bind_same (acceptKeyword_tracks _) fun delete => ?_
  split
  · refine .bind_same (peek_tracks _) fun new => .bind_same (peek_tracks _) fun delete => ?_
    split
    · exact .fail _
    · exact .bind (postfixed_tracks h) fun _ => unaryNode_tracks _ _ _
  · exact postfixed_tracks h

theorem operation_tracks (h : Tracks l (.relocate l.place) nested nested) :
    Tracks l (.relocate l.place) (operation nested) (operation nested) :=
  binary_tracks _ (unary_tracks _ (power_tracks (unary_tracks _ (allocation_tracks h))))

theorem inside_tracks (h : Tracks l (.relocate l.place) expr expr) :
    Tracks l (.relocate l.place) (inside expr) (inside expr) :=
  .bind_same context_tracks fun _ => .within _ h

theorem storedValue_tracks (mark : Punct) (target value : Expr) :
    Tracks l (Prod.map id (.relocate l.place)) (storedValue mark target value)
      (storedValue mark (target.relocate l.place) (value.relocate l.place)) := by
  unfold storedValue
  split
  · exact .bind (freshCopy_tracks _) fun _ => .bind (binaryNode_tracks _ _ _) fun _ => .pure rfl
  · exact .pure rfl

theorem assignment_tracks (h : Tracks l (.relocate l.place) expr expr) :
    Tracks l (.relocate l.place) (assignment expr) (assignment expr) := by
  refine .bind (operation_tracks (inside_tracks h)) fun target =>
    .bind (takePunctOf?_tracks _) fun mark => ?_
  cases mark with
  | none => exact .pure rfl
  | some mark =>
    refine .bind_same context_tracks fun context => ?_
    dsimp only [Option.map_some, Prod.map]
    rw [target.isAssignable_relocate, target.span_relocate]
    split
    · exact .failAt _ _
    split
    · exact .failAt _ _
    · refine .bind h fun value => .bind (storedValue_tracks mark.1 target value) fun stored => ?_
      have whole := newNode_tracks (l := l) (target.span.join stored.2.span)
      rw [l.place_join, ← stored.2.span_relocate l.place] at whole
      exact .bind whole fun _ => .pure rfl

end Expressions

/-- An expression is read in the same way, however it is laid out. -/
theorem expression_tracks : Tracks l (.relocate l.place) expression expression :=
  .recursive fun _ h => assignment_tracks h

theorem nestedExpression_tracks : Tracks l (.relocate l.place) nestedExpression nestedExpression :=
  inside_tracks expression_tracks

end Parser

end ClassLang
