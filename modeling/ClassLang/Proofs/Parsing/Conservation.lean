import ClassLang.Parsing.Programs
import ClassLang.Proofs.Parsing.Runs
import ClassLang.Proofs.Syntax.Nodes

/-!
A parser cannot multiply a number: the copies of it in the result and in what has been put aside,
together with the one copy that is still to be handed out, are never more than before. The law is
`Conserves`; each rule of the grammar keeps it, and here are the rules for tokens and types.
-/

namespace ClassLang

def ParserState.claims (i : Nat) (s : ParserState) : Nat :=
  copies i (s.classes.flatMap Class.nodes) + copies i (s.functions.flatMap Function.nodes) +
    stillFree i s.nextId

def ParserState.stock (s : ParserState) : Nat × List Class × List Function :=
  (s.nextId, s.classes, s.functions)

theorem ParserState.claims_eq_of_stock {s t : ParserState} (h : t.stock = s.stock) (i : Nat) :
    t.claims i = s.claims i := by
  simp only [stock, Prod.mk.injEq] at h
  simp only [claims, h]

namespace Parser

variable {α β σ : Type}

/-! ## Parsers that take no number -/

def Silent (p : Parser α) : Prop :=
  ∀ stock, Ensures p (fun s => s.stock = stock) (fun _ s => s.stock = stock)

namespace Silent

theorem of_run {p : Parser α} (h : ∀ s, (p.run s).2.stock = s.stock) : Silent p := by
  intro stock s a t run before
  have same := h s
  rw [run] at same
  exact same.trans before

theorem pure (a : α) : Silent (Pure.pure a : Parser α) := of_run fun _ => rfl

theorem bind {p : Parser α} {f : α → Parser β} (hp : Silent p) (hf : ∀ a, Silent (f a)) :
    Silent (p >>= f) :=
  fun stock => Ensures.bind (hp stock) fun a => hf a stock

theorem fail (cause : SyntaxCause) : Silent (Parser.fail cause : Parser α) :=
  of_run fun _ => rfl

theorem repeatFrom {step : σ → Parser (σ ⊕ β)} (hstep : ∀ x, Silent (step x)) (start : σ) :
    Silent (Parser.repeatFrom start step) := by
  intro stock
  refine Ensures.repeatFrom (fun _ s => s.stock = stock) (fun x => ?_) start
  refine (hstep x stock).weaken (fun _ h => h) fun result s h => ?_
  cases result <;> exact h

end Silent

theorem context_silent : Silent context := .of_run fun _ => rfl
theorem current_silent : Silent current := .of_run fun _ => rfl
theorem kind_silent : Silent kind := .of_run fun _ => rfl
theorem here_silent : Silent here := .of_run fun _ => rfl
theorem atEnd_silent : Silent atEnd := .of_run fun _ => rfl
theorem peek_silent (wanted : TokenKind) : Silent (peek wanted) := .of_run fun _ => rfl
theorem spanFrom_silent (start : Span) : Silent (spanFrom start) := .of_run fun _ => rfl
theorem startsDeclaration_silent : Silent startsDeclaration := .of_run fun _ => rfl

theorem bump_silent : Silent bump := by
  refine .of_run fun s => ?_
  dsimp only [bump]
  split <;> rfl

theorem take?_silent (wanted : TokenKind) : Silent (take? wanted) := by
  refine .bind (peek_silent wanted) fun present => ?_
  split
  · exact .bind bump_silent fun _ => .pure _
  · exact .pure _

theorem takeIdent?_silent : Silent takeIdent? := by
  refine .bind kind_silent fun kind => ?_
  split
  · exact .bind bump_silent fun _ => .pure _
  · exact .pure _

theorem takePunctOf?_silent (marks : List Punct) : Silent (takePunctOf? marks) := by
  refine .bind kind_silent fun kind => ?_
  split
  · split
    · exact .bind bump_silent fun _ => .pure _
    · exact .pure _
  · exact .pure _

theorem accept_silent (p : Punct) : Silent (accept p) :=
  .bind (take?_silent _) fun _ => .pure _

theorem acceptKeyword_silent (k : Keyword) : Silent (acceptKeyword k) :=
  .bind (take?_silent _) fun _ => .pure _

theorem expected_silent (text : String) : Silent (expected text : Parser α) :=
  .bind current_silent fun _ => .fail _

theorem expectPunct_silent (p : Punct) : Silent (expectPunct p) := by
  refine .bind (take?_silent _) fun span => ?_
  split
  · exact .pure _
  · exact expected_silent _

theorem expectKeyword_silent (k : Keyword) : Silent (expectKeyword k) := by
  refine .bind (take?_silent _) fun span => ?_
  split
  · exact .pure _
  · exact expected_silent _

theorem expectIdent_silent : Silent expectIdent := by
  refine .bind takeIdent?_silent fun name => ?_
  split
  · exact .pure _
  · refine .bind atEnd_silent fun ended => ?_
    split <;> exact .fail _

theorem operatorOf?_silent (ops : List BinaryOp) : Silent (operatorOf? ops) := by
  refine .bind kind_silent fun kind => ?_
  split
  · exact .bind bump_silent fun _ => .pure _
  · exact .pure _

theorem unaryOps_silent (op? : TokenKind → Option UnaryOp) : Silent (unaryOps op?) := by
  refine .repeatFrom (fun read => ?_) _
  refine .bind here_silent fun start => .bind kind_silent fun kind => ?_
  split
  · exact .bind bump_silent fun _ => .pure _
  · exact .pure _

theorem modifiers_silent : Silent modifiers := by
  refine .repeatFrom (fun m => ?_) _
  have another (present : Bool) (word : Keyword) (added : Modifiers) :
      Silent (if present then Parser.fail (.duplicateModifier word)
        else do let _ ← bump; return .inl added : Parser (Modifiers ⊕ Modifiers)) := by
    split
    · exact .fail _
    · exact .bind bump_silent fun _ => .pure _
  refine .bind kind_silent fun kind => ?_
  split
  · exact another _ _ _
  · exact another _ _ _
  · exact another _ _ _
  · exact .pure _

theorem memberModifiers_silent : Silent memberModifiers := by
  refine .repeatFrom (fun ms => ?_) _
  refine .bind kind_silent fun kind => ?_
  split
  · split
    · exact .pure _
    · split
      · exact .fail _
      · exact .bind bump_silent fun _ => .pure _
  · exact .pure _

theorem expectMemberType_silent : Silent expectMemberType := by
  refine .bind kind_silent fun kind => ?_
  split
  · exact .pure _
  · split
    · exact .pure _
    · exact .fail _
  · exact .fail _

theorem genericParams_silent : Silent genericParams := by
  refine .bind (accept_silent _) fun bracket => ?_
  split
  · refine .repeatFrom (fun read => ?_) _
    refine .bind expectIdent_silent fun name => .bind (accept_silent _) fun comma => ?_
    split
    · exact .pure _
    · refine .bind (accept_silent _) fun closed => ?_
      split
      · exact .pure _
      · exact .fail _
  · exact .pure _

theorem operatorSymbol_silent : Silent operatorSymbol := by
  refine .bind kind_silent fun kind => ?_
  split
  · exact .bind bump_silent fun _ => .bind (expectPunct_silent _) fun _ => .pure _
  · split
    · exact .bind bump_silent fun _ => .pure _
    · exact .fail _

/-! ## Conservation -/

def Conserves (i held : Nat) (v : α → List Node) (p : Parser α) : Prop :=
  ∀ bound, Ensures p (fun s => held + s.claims i ≤ bound)
    (fun a s => copies i (v a) + s.claims i ≤ bound)

namespace Conserves

variable {i held : Nat} {v : α → List Node} {final : β → List Node}

theorem pure {a : α} (h : copies i (v a) ≤ held) :
    Conserves i held v (Pure.pure a : Parser α) := by
  intro bound s b t run before
  cases run
  omega

theorem fail {cause : SyntaxCause} : Conserves i held v (Parser.fail cause : Parser α) :=
  fun _ => Ensures.fail

theorem failAt {span : Span} {cause : SyntaxCause} :
    Conserves i held v (Parser.failAt span cause : Parser α) :=
  fun _ => Ensures.failAt

theorem within {p : Parser α} {c : Context} (h : Conserves i held v p) :
    Conserves i held v (Parser.within c p) :=
  fun bound => Ensures.within (h bound) (fun _ before => before) fun _ _ _ after => after

theorem weaken {p : Parser α} {less : Nat} (h : Conserves i less v p) (le : less ≤ held) :
    Conserves i held v p := by
  intro bound
  refine (h bound).weaken (fun s before => ?_) (fun _ _ after => after)
  omega

theorem silent {p : Parser α} {f : α → Parser β} (hp : Silent p)
    (hf : ∀ a, Conserves i held final (f a)) : Conserves i held final (p >>= f) := by
  intro bound s b t run before
  obtain ⟨a, middle, first, second⟩ := bind_eq_ok.1 run
  have same := ParserState.claims_eq_of_stock (hp _ s a middle first rfl) i
  exact hf a bound middle b t second (by omega)

theorem spend {p : Parser α} {f : α → Parser β} {used : Nat} (kept : Nat)
    (hp : Conserves i used v p) (le : used + kept ≤ held)
    (hf : ∀ a, Conserves i (kept + copies i (v a)) final (f a)) :
    Conserves i held final (p >>= f) := by
  intro bound s b t run before
  obtain ⟨a, middle, first, second⟩ := bind_eq_ok.1 run
  have after := hp (used + s.claims i) s a middle first (Nat.le_refl _)
  exact hf a bound middle b t second (by omega)

theorem issue {p : Parser α} {f : α → Parser β} (hp : Conserves i 0 v p)
    (hf : ∀ a, Conserves i (held + copies i (v a)) final (f a)) :
    Conserves i held final (p >>= f) :=
  spend held hp (by omega) hf

theorem repeatFrom {step : σ → Parser (σ ⊕ β)} (read : σ → List Node)
    (hstep : ∀ x, Conserves i (copies i (read x)) (Sum.elim read final) (step x)) (start : σ) :
    Conserves i (copies i (read start)) final (Parser.repeatFrom start step) := by
  intro bound
  refine Ensures.repeatFrom (fun x s => copies i (read x) + s.claims i ≤ bound)
    (fun x => ?_) start
  refine (hstep x bound).weaken (fun _ h => h) fun result s h => ?_
  cases result <;> exact h

theorem recursive {rule : Parser α → Parser α}
    (hrule : ∀ p, Conserves i 0 v p → Conserves i 0 v (rule p)) :
    Conserves i 0 v (Parser.recursive rule) := by
  intro bound s a t run before
  rw [recursive_run] at run
  have keeps := @iterate_induction _ (Conserves i 0 v) rule fail hrule
  exact keeps _ bound s a t run before

theorem commaList {closing : Punct} {cause : SyntaxCause} {item : Parser α}
    (hitem : Conserves i 0 v item) :
    Conserves i 0 (·.flatMap v) (Parser.commaList closing cause item) := by
  refine silent (accept_silent _) fun closed => ?_
  split
  · exact pure (by simp)
  refine repeatFrom (·.flatMap v) (fun items => ?_) []
  refine issue hitem fun a => silent (accept_silent _) fun comma => ?_
  have grown : copies i ((a :: items).flatMap v) =
      copies i (items.flatMap v) + copies i (v a) := by
    rw [List.flatMap_cons, copies_append, Nat.add_comm]
  split
  · exact pure (Nat.le_of_eq grown)
  refine silent (accept_silent _) fun closed => ?_
  split
  · refine pure ?_
    exact Nat.le_of_eq ((copies_flatMap_reverse i _ v).trans grown)
  · exact fail

end Conserves

theorem newNode_conserves (i : Nat) (span : Span) : Conserves i 0 (fun n => [n]) (newNode span) := by
  intro bound s n t run before
  cases run
  have given := copies_singleton_add i s.nextId span
  simp only [ParserState.claims] at before ⊢
  omega

theorem nodeFrom_conserves (i : Nat) (start : Span) :
    Conserves i 0 (fun n => [n]) (nodeFrom start) :=
  .silent (spanFrom_silent start) fun span => newNode_conserves i span

theorem freshCopy_conserves (i : Nat) (e : Expr) : Conserves i 0 Expr.nodes (freshCopy e) := by
  intro bound s copy t run before
  cases run
  have given := Expr.copies_renumber i e s.nextId
  simp only [ParserState.claims] at before ⊢
  omega

/-! ## Types -/

theorem typeArgs?_conserves {i : Nat} {type : Parser TypeRef}
    (h : Conserves i 0 TypeRef.nodes type) :
    Conserves i 0 (fun args => (args.getD []).flatMap TypeRef.nodes) (typeArgs? type) := by
  refine .silent (accept_silent _) fun bracket => ?_
  split
  · exact .issue (.commaList h) fun args => .pure (by simp)
  · exact .pure (by simp)

theorem typeWith_conserves {i : Nat} {type : Parser TypeRef} (allowVoid : Bool)
    (h : Conserves i 0 TypeRef.nodes type) :
    Conserves i 0 TypeRef.nodes (typeWith type allowVoid) := by
  refine .silent here_silent fun start => .silent modifiers_silent fun mods =>
    .silent kind_silent fun kind => ?_
  have node_le (n : Node) (args : List TypeRef) :
      copies i (n :: TypeRef.nodesAll args) ≤
        0 + copies i (args.flatMap TypeRef.nodes) + copies i [n] := by
    rw [copies_cons, TypeRef.nodesAll_eq]
    omega
  split
  · split
    · exact .fail
    · refine .silent bump_silent fun _ => .issue (nodeFrom_conserves i start) fun n => .pure ?_
      simp [TypeRef.nodes]
  · refine .silent bump_silent fun _ => .issue (typeArgs?_conserves h) fun args =>
      .issue (nodeFrom_conserves i start) fun n => .pure ?_
    exact node_le n (args.getD [])
  · refine .silent bump_silent fun _ => .issue (typeArgs?_conserves h) fun args =>
      .issue (nodeFrom_conserves i start) fun n => .pure ?_
    exact node_le n (args.getD [])
  · refine .silent bump_silent fun _ => .issue (nodeFrom_conserves i start) fun n => .pure ?_
    simp [TypeRef.nodes]
  · refine .silent expectIdent_silent fun name => .issue (typeArgs?_conserves h) fun args => ?_
    split
    · rename_i args
      refine .issue (nodeFrom_conserves i start) fun n => .pure ?_
      exact node_le n args
    · refine .issue (nodeFrom_conserves i start) fun n => .pure ?_
      simp [TypeRef.nodes]
  · exact .fail
  · exact .fail

theorem typeRef_conserves (i : Nat) : Conserves i 0 TypeRef.nodes typeRef :=
  .recursive fun _ h => typeWith_conserves false h

theorem returnType_conserves (i : Nat) : Conserves i 0 TypeRef.nodes returnType :=
  typeWith_conserves true (typeRef_conserves i)

end Parser

end ClassLang
