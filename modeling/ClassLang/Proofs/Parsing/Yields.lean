import ClassLang.Proofs.Lexing.Printed
import ClassLang.Proofs.Parsing.Runs
import ClassLang.Proofs.Syntax.Forms

/-!
What a parser makes of tokens that come from the lexer. `Yields good p` says that each result of `p`
is good; here are the rules for tokens, types and expressions.

* `expression_yields`: each expression that is read is sound.
-/

namespace ClassLang

/-- All tokens that are left come from the lexer. -/
def ParserState.Lexical (s : ParserState) : Prop :=
  ∀ token ∈ s.cursor.tokens, token.kind.isLexical = true ∨ token.kind = .eof

namespace Parser

variable {α β σ : Type}

def Yields (good : α → Prop) (p : Parser α) : Prop :=
  Ensures p ParserState.Lexical (fun a s => good a ∧ s.Lexical)

namespace Yields

variable {good : α → Prop} {final : β → Prop}

theorem pure {a : α} (h : good a) : Yields good (Pure.pure a : Parser α) := by
  intro s b t run before
  cases run
  exact ⟨h, before⟩

theorem bind {p : Parser α} {f : α → Parser β} (hp : Yields good p)
    (hf : ∀ a, good a → Yields final (f a)) : Yields final (p >>= f) := by
  intro s b t run before
  obtain ⟨a, middle, first, second⟩ := bind_eq_ok.1 run
  obtain ⟨holds, between⟩ := hp s a middle first before
  exact hf a holds middle b t second between

theorem mono {p : Parser α} {better : α → Prop} (hp : Yields better p)
    (h : ∀ a, better a → good a) : Yields good p :=
  Ensures.weaken hp (fun _ before => before) fun a _ after => ⟨h a after.1, after.2⟩

theorem fail {cause : SyntaxCause} : Yields good (Parser.fail cause : Parser α) := Ensures.fail

theorem failAt {span : Span} {cause : SyntaxCause} :
    Yields good (Parser.failAt span cause : Parser α) :=
  Ensures.failAt

theorem within {p : Parser α} {c : Context} (h : Yields good p) :
    Yields good (Parser.within c p) :=
  Ensures.within h (fun _ before => before) fun _ _ _ after => after

/-- A parser that does not move. -/
theorem still {p : Parser α} (h : ∀ s, (p.run s).2.cursor = s.cursor) :
    Yields (fun _ => True) p := by
  intro s a t run before
  have same := h s
  rw [run] at same
  refine ⟨trivial, fun token ht => before token ?_⟩
  rwa [← same]

theorem repeatFrom {step : σ → Parser (σ ⊕ β)} (invariant : σ → Prop)
    (hstep : ∀ x, invariant x → Yields (Sum.elim invariant final) (step x)) {start : σ}
    (h : invariant start) : Yields final (Parser.repeatFrom start step) := by
  have keeps (x : σ) : Ensures (step x) (fun s => invariant x ∧ s.Lexical)
      (Sum.elim (fun y s => invariant y ∧ s.Lexical) fun b s => final b ∧ s.Lexical) := by
    intro s result t run before
    obtain ⟨holds, lexical⟩ := hstep x before.1 s result t run before.2
    cases result <;> exact ⟨holds, lexical⟩
  exact (Ensures.repeatFrom (fun x s => invariant x ∧ s.Lexical) keeps start).weaken
    (fun _ before => ⟨h, before⟩) fun _ _ after => after

theorem recursive {rule : Parser α → Parser α}
    (hrule : ∀ p, Yields good p → Yields good (rule p)) : Yields good (Parser.recursive rule) :=
  Ensures.recursive hrule

end Yields

/-! ## Tokens -/

theorem here_yields : Yields (fun _ => True) here := .still fun _ => rfl
theorem current_yields : Yields (fun _ => True) current := .still fun _ => rfl
theorem context_yields : Yields (fun _ => True) context := .still fun _ => rfl
theorem atEnd_yields : Yields (fun _ => True) atEnd := .still fun _ => rfl
theorem peek_yields (wanted : TokenKind) : Yields (fun _ => True) (peek wanted) :=
  .still fun _ => rfl

theorem nodeFrom_yields (start : Span) : Yields (fun _ => True) (nodeFrom start) :=
  .still fun _ => rfl

theorem newNode_yields (span : Span) : Yields (fun _ => True) (newNode span) :=
  .still fun _ => rfl

theorem kind_yields : Yields (fun k => k.isLexical = true ∨ k = .eof) kind := by
  intro s a t run before
  cases run
  exact ⟨before _ (List.mem_cons_self ..), before⟩

theorem bump_yields : Yields (fun _ => True) bump := by
  intro s a t run before
  refine ⟨trivial, fun token ht => before token ?_⟩
  cases run
  split at ht
  · exact ht
  · exact s.cursor.advance_tokens.subset ht

theorem take?_yields (wanted : TokenKind) : Yields (fun _ => True) (take? wanted) := by
  refine .bind (peek_yields wanted) fun present _ => ?_
  split
  · exact .bind bump_yields fun _ _ => .pure trivial
  · exact .pure trivial

theorem accept_yields (p : Punct) : Yields (fun _ => True) (accept p) :=
  .bind (take?_yields _) fun _ _ => .pure trivial

theorem acceptKeyword_yields (k : Keyword) : Yields (fun _ => True) (acceptKeyword k) :=
  .bind (take?_yields _) fun _ _ => .pure trivial

theorem takePunctOf?_yields (marks : List Punct) : Yields (fun _ => True) (takePunctOf? marks) := by
  refine .bind kind_yields fun kind _ => ?_
  split
  · split
    · exact .bind bump_yields fun _ _ => .pure trivial
    · exact .pure trivial
  · exact .pure trivial

theorem expectPunct_yields (p : Punct) : Yields (fun _ => True) (expectPunct p) := by
  refine .bind (take?_yields _) fun span _ => ?_
  split
  · exact .pure trivial
  · exact .bind current_yields fun _ _ => .fail

theorem takeIdent?_yields :
    Yields (fun name => ∀ n, name = some n → isName n.name = true) takeIdent? := by
  refine .bind kind_yields fun kind lexical => ?_
  split
  · next name =>
    refine .bind bump_yields fun _ _ => .pure fun n eq => ?_
    cases eq
    exact lexical.resolve_right (by simp)
  · exact .pure (by simp)

theorem expectIdent_yields : Yields (fun name => isName name.name = true) expectIdent := by
  refine .bind takeIdent?_yields fun name lexical => ?_
  split
  · exact .pure (lexical _ rfl)
  · refine .bind atEnd_yields fun ended _ => ?_
    split <;> exact .fail

theorem commaList_yields {good : α → Prop} {closing : Punct} {cause : SyntaxCause}
    {item : Parser α} (h : Yields good item) :
    Yields (fun items => ∀ a ∈ items, good a) (commaList closing cause item) := by
  refine .bind (accept_yields _) fun closed _ => ?_
  split
  · exact .pure (by simp)
  refine .repeatFrom (fun items => ∀ a ∈ items, good a) (fun items all => ?_) (by simp)
  refine .bind h fun a holds => .bind (accept_yields _) fun comma _ => ?_
  have grown : ∀ b ∈ a :: items, good b := List.forall_mem_cons.2 ⟨holds, all⟩
  split
  · exact .pure grown
  refine .bind (accept_yields _) fun closed _ => ?_
  split
  · exact .pure fun b hb => grown b (List.mem_reverse.1 hb)
  · exact .fail

/-! ## Types -/

theorem modifiers_yields : Yields (fun _ => True) modifiers := by
  refine .repeatFrom (fun _ => True) (fun m _ => ?_) trivial
  have another (present : Bool) (word : Keyword) (added : Modifiers) :
      Yields (Sum.elim (fun _ => True) fun _ => True)
        (if present then Parser.fail (.duplicateModifier word)
        else do let _ ← bump; return .inl added : Parser (Modifiers ⊕ Modifiers)) := by
    split
    · exact .fail
    · exact .bind bump_yields fun _ _ => .pure trivial
  refine .bind kind_yields fun kind _ => ?_
  split
  · exact another _ _ _
  · exact another _ _ _
  · exact another _ _ _
  · exact .pure trivial

theorem typeArgs?_yields {type : Parser TypeRef} (h : Yields (TypeRef.isSound · = true) type) :
    Yields (fun args => TypeRef.soundAll (args.getD []) = true) (typeArgs? type) := by
  refine .bind (accept_yields _) fun bracket _ => ?_
  split
  · refine .bind (commaList_yields h) fun args all => .pure ?_
    rw [Option.getD_some, TypeRef.soundAll_eq, List.all_eq_true]
    exact all
  · exact .pure rfl

/-- A type is `void` only where that is allowed, and then it has no modifiers. -/
theorem typeWith_yields {type : Parser TypeRef} (allowVoid : Bool)
    (h : Yields (TypeRef.isSound · = true) type) :
    Yields (fun t => t.isSound = true ∨ allowVoid = true ∧ ∃ n, t = .void n .none)
      (typeWith type allowVoid) := by
  refine .bind here_yields fun start _ => .bind modifiers_yields fun mods _ =>
    .bind kind_yields fun kind _ => ?_
  split
  · split
    · exact .fail
    · rename_i alone
      have alone : allowVoid = true ∧ mods = .none := by simpa using alone
      refine .bind bump_yields fun _ _ => .bind (nodeFrom_yields start) fun n _ => .pure ?_
      exact .inr ⟨alone.1, n, by rw [alone.2]⟩
  · exact .bind bump_yields fun _ _ => .bind (typeArgs?_yields h) fun args all =>
      .bind (nodeFrom_yields start) fun n _ => .pure (.inl all)
  · exact .bind bump_yields fun _ _ => .bind (typeArgs?_yields h) fun args all =>
      .bind (nodeFrom_yields start) fun n _ => .pure (.inl all)
  · exact .bind bump_yields fun _ _ => .bind (nodeFrom_yields start) fun n _ => .pure (.inl rfl)
  · refine .bind expectIdent_yields fun name isName => .bind (typeArgs?_yields h)
      fun args all => ?_
    split
    · refine .bind (nodeFrom_yields start) fun n _ => .pure (.inl ?_)
      rw [TypeRef.isSound, isName]
      exact all
    · exact .bind (nodeFrom_yields start) fun n _ => .pure (.inl isName)
  · exact .fail
  · exact .fail

theorem typeRef_yields : Yields (TypeRef.isSound · = true) typeRef :=
  .recursive fun _ h => (typeWith_yields false h).mono fun _ sound => sound.resolve_right (by simp)

theorem returnType_yields :
    Yields (fun t => t.isSound = true ∨ ∃ n, t = .void n .none) returnType :=
  (typeWith_yields true typeRef_yields).mono fun _ sound => sound.imp_right (·.2)

/-! ## Expressions -/

theorem freshCopy_yields {e : Expr} (h : e.isSound = true) :
    Yields (Expr.isSound · = true) (freshCopy e) := by
  intro s copy t run before
  cases run
  exact ⟨(e.isSound_renumber s.nextId).trans h, before⟩

theorem binaryNode_yields (op : BinaryOp) {lhs rhs : Expr} (hl : lhs.isSound = true)
    (hr : rhs.isSound = true) : Yields (Expr.isSound · = true) (binaryNode op lhs rhs) := by
  refine .bind (newNode_yields _) fun n _ => .pure ?_
  exact Bool.and_eq_true_iff.2 ⟨hl, hr⟩

theorem unaryNode_yields (op : UnaryOp) (start : Span) {operand : Expr}
    (h : operand.isSound = true) :
    Yields (Expr.isSound · = true) (unaryNode op start operand) :=
  .bind (nodeFrom_yields start) fun _ _ => .pure h

theorem operatorOf?_yields (ops : List BinaryOp) : Yields (fun _ => True) (operatorOf? ops) := by
  refine .bind kind_yields fun kind _ => ?_
  split
  · exact .bind bump_yields fun _ _ => .pure trivial
  · exact .pure trivial

variable {next operand nested : Parser Expr}

theorem leftAssoc_yields (ops : List BinaryOp) (h : Yields (Expr.isSound · = true) next) :
    Yields (Expr.isSound · = true) (leftAssoc ops next) := by
  refine .bind h fun first sound => ?_
  refine .repeatFrom (Expr.isSound · = true) (fun lhs hl => ?_) sound
  refine .bind (operatorOf?_yields ops) fun op _ => ?_
  split
  · exact .bind h fun rhs hr => .bind (binaryNode_yields _ hl hr) fun e he => .pure he
  · exact .pure hl

def OperandsSound (operations : List (BinaryOp × Expr)) : Prop :=
  ∀ operation ∈ operations, operation.2.isSound = true

theorem operations_yields (ops : List BinaryOp) (h : Yields (Expr.isSound · = true) next) :
    Yields OperandsSound (operations ops next) := by
  refine .repeatFrom OperandsSound (fun read all => ?_) (by simp [OperandsSound])
  refine .bind (operatorOf?_yields ops) fun op _ => ?_
  split
  · exact .bind h fun rhs hr => .pure (List.forall_mem_cons.2 ⟨hr, all⟩)
  · exact .pure fun operation ho => all operation (List.mem_reverse.1 ho)

theorem comparisons_yields : ∀ (operations : List (BinaryOp × Expr)) {lhs : Expr},
    lhs.isSound = true → OperandsSound operations →
      Yields (fun all => ∀ e ∈ all, e.isSound = true) (comparisons lhs operations)
  | [], _, _, _ => .pure (by simp)
  | (op, rhs) :: rest, _, hl, all => by
    obtain ⟨hr, others⟩ := List.forall_mem_cons.1 all
    refine .bind (freshCopy_yields hr) fun shared hs => .bind (binaryNode_yields op hl hr)
      fun comparison hc => .bind (comparisons_yields rest hs others) fun more hm => .pure ?_
    exact List.forall_mem_cons.2 ⟨hc, hm⟩

theorem conjunction_yields : ∀ (others : List Expr) {first : Expr}, first.isSound = true →
    (∀ e ∈ others, e.isSound = true) → Yields (Expr.isSound · = true) (conjunction first others)
  | [], _, hf, _ => .pure hf
  | second :: rest, _, hf, all => by
    obtain ⟨hs, more⟩ := List.forall_mem_cons.1 all
    exact .bind (conjunction_yields rest hs more) fun others ho => binaryNode_yields .and hf ho

theorem chain_yields (ops : List BinaryOp) (h : Yields (Expr.isSound · = true) next) :
    Yields (Expr.isSound · = true) (chain ops next) := by
  refine .bind h fun first hf => .bind (operations_yields ops h) fun others ho =>
    .bind (comparisons_yields others hf ho) fun all ha => ?_
  split
  · exact .pure hf
  · obtain ⟨hc, more⟩ := List.forall_mem_cons.1 ha
    exact conjunction_yields _ hc more

theorem binary_yields (h : Yields (Expr.isSound · = true) operand) :
    ∀ ls : List Level, Yields (Expr.isSound · = true) (binary ls operand)
  | [] => h
  | .leftAssoc ops :: tighter => leftAssoc_yields ops (binary_yields h tighter)
  | .chain ops :: tighter => chain_yields ops (binary_yields h tighter)

theorem unaryOps_yields (op? : TokenKind → Option UnaryOp) :
    Yields (fun _ => True) (unaryOps op?) := by
  refine .repeatFrom (fun _ => True) (fun read _ => ?_) trivial
  refine .bind here_yields fun start _ => .bind kind_yields fun kind _ => ?_
  split
  · exact .bind bump_yields fun _ _ => .pure trivial
  · exact .pure trivial

theorem applyUnary_yields {operand : Expr} (h : operand.isSound = true) :
    ∀ ops : List (UnaryOp × Span), Yields (Expr.isSound · = true) (applyUnary operand ops)
  | [] => .pure h
  | (op, start) :: inner =>
    .bind (applyUnary_yields h inner) fun _ applied => unaryNode_yields op start applied

theorem unary_yields (op? : TokenKind → Option UnaryOp)
    (h : Yields (Expr.isSound · = true) operand) :
    Yields (Expr.isSound · = true) (unary op? operand) :=
  .bind (unaryOps_yields op?) fun ops _ => .bind h fun _ sound => applyUnary_yields sound ops

theorem powerOf_yields : ∀ (others : List Expr) {base : Expr}, base.isSound = true →
    (∀ e ∈ others, e.isSound = true) → Yields (Expr.isSound · = true) (powerOf base others)
  | [], _, hb, _ => .pure hb
  | second :: rest, _, hb, all => by
    obtain ⟨hs, more⟩ := List.forall_mem_cons.1 all
    exact .bind (powerOf_yields rest hs more) fun exponent he => binaryNode_yields .pow hb he

theorem power_yields (h : Yields (Expr.isSound · = true) operand) :
    Yields (Expr.isSound · = true) (power operand) := by
  refine .bind h fun base hb => .bind (operations_yields _ h) fun exponents he =>
    powerOf_yields _ hb fun e mem => ?_
  obtain ⟨operation, ho, rfl⟩ := List.mem_map.1 mem
  exact he operation ho

theorem keymapPair_yields (h : Yields (Expr.isSound · = true) nested) :
    Yields (fun pair => pair.key.isSound = true ∧ pair.value.isSound = true)
      (keymapPair nested) :=
  .bind here_yields fun start _ => .bind h fun _ hk => .bind (expectPunct_yields _) fun _ _ =>
    .bind h fun _ hv => .bind (nodeFrom_yields start) fun _ _ => .pure ⟨hk, hv⟩

theorem allOf_sound {es : List Expr} (h : ∀ e ∈ es, e.isSound = true) :
    Expr.allOf Expr.soundHere es = true := by
  rw [Expr.allOf_eq, List.all_eq_true]
  exact h

theorem primary_yields (h : Yields (Expr.isSound · = true) nested) :
    Yields (Expr.isSound · = true) (primary nested) := by
  have word (start : Span) (make : Node → Expr) (alone : ∀ n, (make n).isSound = true) :
      Yields (Expr.isSound · = true)
        (do let _ ← bump; return make (← nodeFrom start) : Parser Expr) :=
    .bind bump_yields fun _ _ => .bind (nodeFrom_yields start) fun n _ => .pure (alone n)
  refine .bind here_yields fun start _ => .bind kind_yields fun kind lexical => ?_
  split
  · exact .bind expectIdent_yields fun name isName => .bind (nodeFrom_yields start)
      fun n _ => .pure isName
  · next value =>
    refine word start _ fun n => ?_
    have made : value.isLexical = true := lexical.resolve_right (by simp)
    cases value <;> first | exact made | cases made
  · exact word start _ fun _ => rfl
  · exact word start _ fun _ => rfl
  · exact word start _ fun _ => rfl
  · exact word start _ fun _ => rfl
  · exact word start _ fun _ => rfl
  · exact .bind bump_yields fun _ _ => .bind h fun inner hi => .bind (expectPunct_yields _)
      fun _ _ => .pure hi
  · exact .bind bump_yields fun _ _ => .bind (commaList_yields h) fun elems all =>
      .bind (nodeFrom_yields start) fun n _ => .pure (allOf_sound all)
  · refine .bind bump_yields fun _ _ => .bind (commaList_yields (keymapPair_yields h))
      fun pairs all => .bind (nodeFrom_yields start) fun n _ => .pure ?_
    change Expr.allPairs Expr.soundHere pairs = true
    rw [Expr.allPairs_eq, List.all_eq_true]
    exact fun pair hp => Bool.and_eq_true_iff.2 (all pair hp)
  · exact .fail
  · exact .fail

theorem postfixStep_yields (start : Span) (h : Yields (Expr.isSound · = true) nested)
    {target : Expr} (ht : target.isSound = true) :
    Yields (Sum.elim (Expr.isSound · = true) (Expr.isSound · = true))
      (postfixStep nested start target) := by
  have memberOf (access : MemberAccess) :
      Yields (Sum.elim (Expr.isSound · = true) (Expr.isSound · = true))
        (do
          let name ← expectIdent
          return .inl (.member (← nodeFrom start) target access name) : Parser (Expr ⊕ Expr)) :=
    .bind expectIdent_yields fun name isName => .bind (nodeFrom_yields start) fun n _ =>
      .pure (Bool.and_eq_true_iff.2 ⟨isName, ht⟩)
  refine .bind (accept_yields _) fun dot _ => ?_
  split
  · exact memberOf .dot
  refine .bind (accept_yields _) fun arrow _ => ?_
  split
  · exact memberOf .arrow
  refine .bind (accept_yields _) fun bracket _ => ?_
  split
  · exact .bind h fun i hi => .bind (expectPunct_yields _) fun _ _ =>
      .bind (nodeFrom_yields start) fun n _ => .pure (Bool.and_eq_true_iff.2 ⟨ht, hi⟩)
  refine .bind (accept_yields _) fun paren _ => ?_
  split
  · exact .bind (commaList_yields h) fun args all => .bind (nodeFrom_yields start) fun n _ =>
      .pure (Bool.and_eq_true_iff.2 ⟨ht, allOf_sound all⟩)
  · exact .pure ht

theorem postfixed_yields (h : Yields (Expr.isSound · = true) nested) :
    Yields (Expr.isSound · = true) (postfixed nested) :=
  .bind here_yields fun start _ => .bind (primary_yields h) fun _ sound =>
    .repeatFrom (Expr.isSound · = true) (fun _ ht => postfixStep_yields start h ht) sound

theorem allocation_yields (h : Yields (Expr.isSound · = true) nested) :
    Yields (Expr.isSound · = true) (allocation nested) := by
  refine .bind here_yields fun start _ => .bind (acceptKeyword_yields _) fun new _ => ?_
  split
  · exact .bind typeRef_yields fun type sound => .bind (nodeFrom_yields start) fun n _ =>
      .pure sound
  refine .bind (acceptKeyword_yields _) fun delete _ => ?_
  split
  · refine .bind (peek_yields _) fun new' _ => .bind (peek_yields _) fun delete' _ => ?_
    split
    · exact .fail
    · exact .bind (postfixed_yields h) fun operand sound => unaryNode_yields .delete start sound
  · exact postfixed_yields h

theorem operation_yields (h : Yields (Expr.isSound · = true) nested) :
    Yields (Expr.isSound · = true) (operation nested) :=
  binary_yields (unary_yields _ (power_yields (unary_yields _ (allocation_yields h)))) levels

theorem inside_yields (h : Yields (Expr.isSound · = true) nested) :
    Yields (Expr.isSound · = true) (inside nested) :=
  .bind context_yields fun _ _ => .within h

theorem storedValue_yields (mark : Punct) {target value : Expr} (ht : target.isSound = true)
    (hv : value.isSound = true) :
    Yields (fun stored => stored.2.isSound = true) (storedValue mark target value) := by
  unfold storedValue
  split
  · exact .bind (freshCopy_yields ht) fun lhs hl => .bind (binaryNode_yields _ hl hv)
      fun e he => .pure he
  · exact .pure hv

theorem assignment_yields (h : Yields (Expr.isSound · = true) nested) :
    Yields (Expr.isSound · = true) (assignment nested) := by
  refine .bind (operation_yields (inside_yields h)) fun target ht =>
    .bind (takePunctOf?_yields _) fun mark _ => ?_
  split
  · exact .pure ht
  · refine .bind context_yields fun c _ => ?_
    split
    · exact .failAt
    split
    · exact .failAt
    next assignable =>
    refine .bind h fun value hv => .bind (storedValue_yields _ ht hv) fun stored hs =>
      .bind (newNode_yields _) fun n _ => .pure ?_
    have place : target.isAssignable = true := by simpa using assignable
    exact Bool.and_eq_true_iff.2 ⟨Bool.and_eq_true_iff.2 ⟨place, ht⟩, hs⟩

theorem expression_yields : Yields (Expr.isSound · = true) expression :=
  .recursive fun _ h => assignment_yields h

end Parser

theorem Cursor.ofTokens_tokens (tokens : List Token) (source : Span) :
    (Cursor.ofTokens tokens source).tokens = endTokens tokens source := by
  unfold ofTokens
  split
  · next eq => rw [eq]; rfl
  · next eq => exact absurd eq (endTokens_ne_nil tokens source)

theorem ParserState.start_lexical {source : Source} {tokens : List Token}
    (h : source.tokens = .ok tokens) : (ParserState.start tokens source.whole).Lexical := by
  have made := Source.tokens_lexical h
  intro token ht
  rw [ParserState.start, Cursor.ofTokens_tokens] at ht
  unfold endTokens at ht
  split at ht
  · split at ht
    · exact made token ht
    · rcases List.mem_append.1 ht with early | last
      · exact made token early
      · rw [List.mem_singleton.1 last]
        exact .inr rfl
  · rw [List.mem_singleton.1 ht]
    exact .inr rfl

theorem Source.expression_sound {source : Source} {e : Expr}
    (h : source.parse Parser.expression = .ok e) : e.isSound = true := by
  obtain ⟨tokens, s, lexed, run, -⟩ := Source.parse_eq_ok.1 h
  exact (Parser.expression_yields _ e s run (ParserState.start_lexical lexed)).1

end ClassLang
