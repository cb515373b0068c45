import ClassLang.Proofs.Parsing.Progress

/-!
The search for a name behind brackets, followed along a run. `Leads p before after` says where a run
of `p` leads, if it succeeds. `Keeps b p` says that `p` does not change what the search finds, if it
finds `b` and has come to a place inside the brackets.

* `typeRef_keeps`: this is so for types, whatever the search finds.
* `assignment_keeps`: it is so for expressions if the search finds a name; a brace would have ended
  it.
-/

namespace ClassLang

/-- Whether the search for a closing bracket passes over a token. -/
def TokenKind.isPassed : TokenKind → Bool
  | .punct .openBracket | .punct .closeBracket | .punct .semicolon | .punct .openBrace
  | .punct .closeBrace | .eof => false
  | _ => true

theorem BinaryOp.token_isPassed (op : BinaryOp) : op.token.isPassed = true := by
  cases op <;> rfl

namespace Cursor

/-- What the search finds that has come to a place with so many brackets open. With none open it is
over, and has found what is there. -/
def leadsToName (c : Cursor) : Nat → Bool
  | 0 => match c.current.kind with
    | .ident _ => true
    | _ => false
  | depth + 1 => Parser.nameAfterBrackets (depth + 1) c.tokens

variable {c : Cursor} {depth : Nat}

theorem advance_cons {current next : Token} {rest : List Token} (going : current.kind ≠ .eof) :
    advance ⟨current, next :: rest⟩ = ⟨next, rest⟩ := by
  simp [advance, isAtEnd, going]

theorem advance_alone {current : Token} : advance ⟨current, []⟩ = ⟨current, []⟩ := by
  simp [advance]

theorem leadsToName_opens (bracket : c.current.kind = .punct .openBracket) :
    c.advance.leadsToName (depth + 1) = Parser.nameAfterBrackets depth c.tokens := by
  obtain ⟨⟨kind, text, span⟩, later⟩ := c
  cases bracket
  cases later with
  | nil => rfl
  | cons next rest =>
    rw [advance_cons]
    · rfl
    · nofun

theorem leadsToName_closes (bracket : c.current.kind = .punct .closeBracket) :
    c.advance.leadsToName depth = c.leadsToName (depth + 1) := by
  obtain ⟨⟨kind, text, span⟩, later⟩ := c
  cases bracket
  cases later with
  | nil => cases depth <;> simp [advance_alone, leadsToName, tokens, Parser.nameAfterBrackets]
  | cons next rest =>
    have passed : advance ⟨⟨.punct .closeBracket, text, span⟩, next :: rest⟩ = ⟨next, rest⟩ :=
      advance_cons fun ends => by cases ends
    rw [passed]
    cases depth with
    | zero =>
      simp only [leadsToName, tokens, Parser.nameAfterBrackets, Nat.zero_add, Nat.le_refl, if_true,
        List.head?_cons, Option.map_some]
      cases next.kind <;> rfl
    | succ depth => simp [leadsToName, tokens, Parser.nameAfterBrackets]

theorem leadsToName_passes (passed : c.current.kind.isPassed = true) :
    c.advance.leadsToName (depth + 1) = c.leadsToName (depth + 1) := by
  have going : c.current.kind ≠ .eof := fun ends => by rw [ends] at passed; cases passed
  obtain ⟨current, later⟩ := c
  cases later with
  | nil => rw [advance_alone]
  | cons next rest =>
    rw [advance_cons going]
    simp only [leadsToName, tokens]
    conv => rhs; unfold Parser.nameAfterBrackets
    split
    -- The tokens that are not passed.
    iterate 6
      next kind =>
        rw [kind] at passed
        cases passed
    rfl

end Cursor

namespace Parser

variable {α β σ : Type}

/-! ## Where runs lead -/

def Leads (p : Parser α) (before : Cursor → Prop) (after : α → Cursor → Prop) : Prop :=
  Ensures p (fun s => before s.cursor) fun a s => after a s.cursor

theorem Ends.leads {p q : Parser α} {before : Cursor → Prop} {after : α → Cursor → Prop}
    (h : Ends p q before after) : Leads p before after :=
  fun s a t run here => (h s here).2.2 a t run

namespace Leads

variable {before : Cursor → Prop} {middle : α → Cursor → Prop} {after : β → Cursor → Prop}

theorem pure {a : β} (h : ∀ c, before c → after a c) :
    Leads (Pure.pure a : Parser β) before after :=
  Ensures.weaken .pure (fun s => h s.cursor) fun _ _ => id

theorem bind {p : Parser α} {f : α → Parser β} (hp : Leads p before middle)
    (hf : ∀ a, Leads (f a) (middle a) after) : Leads (p >>= f) before after :=
  Ensures.bind hp hf

/-- A part that does not move. -/
theorem still {p : Parser α} {f : α → Parser β} (hp : Ends p p before fun _ => before)
    (hf : ∀ a, Leads (f a) before after) : Leads (p >>= f) before after :=
  .bind hp.leads hf

theorem weaken {p : Parser β} {before' : Cursor → Prop} {after' : β → Cursor → Prop}
    (hp : Leads p before after) (pre : ∀ c, before' c → before c)
    (post : ∀ b c, after b c → after' b c) : Leads p before' after' :=
  Ensures.weaken hp (fun s => pre s.cursor) fun b s => post b s.cursor

theorem absurd {p : Parser β} (h : ∀ c, ¬ before c) : Leads p before after :=
  fun s _ _ _ here => (h s.cursor here).elim

theorem fail {cause : SyntaxCause} : Leads (Parser.fail cause : Parser β) before after :=
  Ensures.fail

theorem failAt {span : Span} {cause : SyntaxCause} :
    Leads (Parser.failAt span cause : Parser β) before after := Ensures.failAt

theorem within {p : Parser β} {context : Context} (h : Leads p before after) :
    Leads (Parser.within context p) before after :=
  Ensures.within h (fun _ => id) fun _ _ _ => id

theorem repeatFrom {step : σ → Parser (σ ⊕ β)} (invariant : Cursor → Prop)
    (hstep : ∀ x, Leads (step x) invariant (Sum.elim (fun _ => invariant) after)) (start : σ) :
    Leads (Parser.repeatFrom start step) invariant after := by
  refine Ensures.repeatFrom (fun _ s => invariant s.cursor) (fun x => ?_) start
  refine Ensures.weaken (hstep x) (fun _ => id) fun result s holds => ?_
  cases result <;> exact holds

/-- Of two parsers one is chosen by whether a token has been read. -/
theorem ite {read : Bool} {p q : Parser β} {before' : Cursor → Prop} (yes : Leads p before after)
    (no : Leads q before' after) :
    Leads (if read then p else q) (fun c => bif read then before c else before' c) after := by
  cases read with
  | true => exact yes
  | false => exact no

end Leads

/-! ## Tokens -/

section Tokens

variable {P Q : Cursor → Prop}

theorem bump_leads : Leads bump (fun c => Q c.advance) fun _ => Q := by
  intro s token t run advanced
  cases run
  cases ended : s.cursor.isAtEnd with
  | true => simpa [Cursor.advance, ended] using advanced
  | false => simpa using advanced

theorem kind_leads : Leads kind P fun kind c => P c ∧ c.current.kind = kind := by
  intro s k t run here
  cases run
  exact ⟨here, rfl⟩

/-- A token that is read leads on, and one that is not is not there. -/
theorem take?_leads {wanted : TokenKind} (h : ∀ c, P c → c.current.kind = wanted → Q c.advance) :
    Leads (take? wanted) P
      fun span c => bif span.isSome then Q c else P c ∧ c.current.kind ≠ wanted := by
  have present : Leads (peek wanted) P
      fun present c => bif present then Q c.advance else P c ∧ c.current.kind ≠ wanted := by
    intro s present t run here
    cases run
    cases there : s.cursor.current.kind == wanted with
    | true => exact h _ here (eq_of_beq there)
    | false => exact ⟨here, ne_of_beq_false there⟩
  refine .bind present fun present => ?_
  cases present with
  | true => exact .bind bump_leads fun _ => .pure fun _ => id
  | false => exact .pure fun _ => id

theorem accept_leads {p : Punct} (h : ∀ c, P c → c.current.kind = .punct p → Q c.advance) :
    Leads (accept p) P fun read c => bif read then Q c else P c ∧ c.current.kind ≠ .punct p :=
  .bind (take?_leads h) fun _ => .pure fun _ => id

theorem acceptKeyword_leads {k : Keyword}
    (h : ∀ c, P c → c.current.kind = .keyword k → Q c.advance) :
    Leads (acceptKeyword k) P
      fun read c => bif read then Q c else P c ∧ c.current.kind ≠ .keyword k :=
  .bind (take?_leads h) fun _ => .pure fun _ => id

theorem expectPunct_leads {p : Punct} (h : ∀ c, P c → c.current.kind = .punct p → Q c.advance) :
    Leads (expectPunct p) P fun _ => Q := by
  refine .bind (take?_leads h) fun span => ?_
  cases span with
  | some span => exact .pure fun _ => id
  | none => exact .bind current_ends.leads fun _ => .fail

theorem expectIdent_leads (h : ∀ c name, P c → c.current.kind = .ident name → Q c.advance) :
    Leads expectIdent P fun _ => Q := by
  have name : Leads takeIdent? P fun name c => name.isSome = true → Q c := by
    refine .bind kind_leads fun kind => ?_
    cases kind with
    | ident name =>
      exact .bind (bump_leads.weaken (fun c here => h c name here.1 here.2) fun _ _ => id)
        fun _ => .pure fun _ next _ => next
    | _ => exact .pure fun _ _ => nofun
  refine .bind name fun name => ?_
  cases name with
  | some name => exact .pure fun _ next => next rfl
  | none =>
    refine .still atEnd_ends fun ended => ?_
    split <;> exact .fail

end Tokens

/-! ## Inside brackets -/

/-- The search has come here with so many brackets open, and finds a name or not. -/
def Seeks (found : Bool) (depth : Nat) (c : Cursor) : Prop := c.leadsToName depth = found

def Keeps (found : Bool) (p : Parser α) : Prop :=
  ∀ depth, Leads p (Seeks found (depth + 1)) fun _ => Seeks found (depth + 1)

variable {found : Bool} {depth : Nat}

theorem Seeks.advance {c : Cursor} {kind : TokenKind} (passed : kind.isPassed = true)
    (here : Seeks found (depth + 1) c) (seen : c.current.kind = kind) :
    Seeks found (depth + 1) c.advance :=
  (Cursor.leadsToName_passes (by rw [seen, passed])).trans here

namespace Keeps

theorem pure {a : α} : Keeps found (Pure.pure a : Parser α) := fun _ => .pure fun _ => id

theorem bind {p : Parser α} {f : α → Parser β} (hp : Keeps found p) (hf : ∀ a, Keeps found (f a)) :
    Keeps found (p >>= f) :=
  fun depth => .bind (hp depth) fun a => hf a depth

/-- A parser that does not move. -/
theorem still {p : Parser α} (hp : ∀ {before}, Ends p p before fun _ => before) : Keeps found p :=
  fun _ => hp.leads

theorem fail {cause : SyntaxCause} : Keeps found (Parser.fail cause : Parser α) := fun _ => .fail

theorem failAt {span : Span} {cause : SyntaxCause} :
    Keeps found (Parser.failAt span cause : Parser α) := fun _ => .failAt

theorem within {p : Parser α} {context : Context} (h : Keeps found p) :
    Keeps found (Parser.within context p) :=
  fun depth => .within (h depth)

theorem ite {c : Prop} [Decidable c] {p q : Parser α} (yes : Keeps found p) (no : Keeps found q) :
    Keeps found (if c then p else q) := by
  split
  · exact yes
  · exact no

theorem repeatFrom {step : σ → Parser (σ ⊕ β)} (hstep : ∀ x, Keeps found (step x)) (start : σ) :
    Keeps found (Parser.repeatFrom start step) :=
  fun depth => .repeatFrom _ (fun x => (hstep x depth).weaken (fun _ => id) fun result _ here => by
    cases result <;> exact here) start

theorem recursive {rule : Parser α → Parser α} (hrule : ∀ p, Keeps found p → Keeps found (rule p)) :
    Keeps found (Parser.recursive rule) := by
  intro depth s a t run here
  rw [recursive_run] at run
  exact @iterate_induction _ (Keeps found) rule fail hrule _ depth s a t run here

/-- The current token decides what is done. -/
theorem byKind {f : TokenKind → Parser β} (hf : ∀ kind depth, Leads (f kind)
      (fun c => Seeks found (depth + 1) c ∧ c.current.kind = kind)
      fun _ => Seeks found (depth + 1)) : Keeps found (kind >>= f) :=
  fun depth => .bind kind_leads fun kind => hf kind depth

end Keeps

theorem bump_passes {kind : TokenKind} (passed : kind.isPassed = true) :
    Leads bump (fun c => Seeks found (depth + 1) c ∧ c.current.kind = kind)
      fun _ => Seeks found (depth + 1) :=
  bump_leads.weaken (fun _ here => here.1.advance passed here.2) fun _ _ => id

theorem take?_keeps {wanted : TokenKind} (passed : wanted.isPassed = true) :
    Keeps found (take? wanted) :=
  fun depth => (take?_leads fun _ here seen => here.advance passed seen).weaken (fun _ => id)
    fun span c => by cases span with
      | some span => exact id
      | none => exact And.left

theorem accept_keeps {p : Punct} (passed : (TokenKind.punct p).isPassed = true) :
    Keeps found (accept p) :=
  .bind (take?_keeps passed) fun _ => .pure

theorem acceptKeyword_keeps (k : Keyword) : Keeps found (acceptKeyword k) :=
  .bind (take?_keeps rfl) fun _ => .pure

theorem expectPunct_keeps {p : Punct} (passed : (TokenKind.punct p).isPassed = true) :
    Keeps found (expectPunct p) :=
  fun _ => expectPunct_leads fun _ here seen => here.advance passed seen

theorem expectIdent_keeps : Keeps found expectIdent :=
  fun _ => expectIdent_leads fun _ _ here seen => here.advance rfl seen

theorem takePunctOf?_keeps {marks : List Punct}
    (passed : ∀ p ∈ marks, (TokenKind.punct p).isPassed = true) :
    Keeps found (takePunctOf? marks) := by
  refine .byKind fun kind depth => ?_
  have stays : ∀ c, Seeks found (depth + 1) c ∧ c.current.kind = kind → Seeks found (depth + 1) c :=
    fun _ => And.left
  cases kind with
  | punct p =>
    dsimp only
    split
    · next listed =>
      exact .bind (bump_passes (passed p (List.contains_iff_mem.1 listed))) fun _ =>
        .pure fun _ => id
    · exact .pure stays
  | _ => exact .pure stays

/-- An opening bracket leads one bracket further in, and a closing one back. -/
theorem accept_opens : Leads (accept .openBracket) (Seeks found (depth + 1)) fun read c =>
    bif read then Seeks found (depth + 2) c
    else Seeks found (depth + 1) c ∧ c.current.kind ≠ .punct .openBracket :=
  accept_leads fun _ here bracket => (Cursor.leadsToName_opens bracket).trans here

theorem expectPunct_closes :
    Leads (expectPunct .closeBracket) (Seeks found (depth + 1)) fun _ => Seeks found depth :=
  expectPunct_leads fun _ here bracket => (Cursor.leadsToName_closes bracket).trans here

/-- A list leads to where its closing mark leads. -/
theorem commaList_leads {closing : Punct} {cause : SyntaxCause} {item : Parser α}
    {after : Cursor → Prop} (hi : Keeps found item)
    (closes : ∀ c, Seeks found (depth + 1) c → c.current.kind = .punct closing → after c.advance) :
    Leads (commaList closing cause item) (Seeks found (depth + 1)) fun _ => after := by
  refine .bind (accept_leads closes) fun closed => .ite (.pure fun _ => id) ?_
  refine (Leads.repeatFrom (Seeks found (depth + 1)) (fun items => ?_) []).weaken
    (fun _ => And.left) fun _ _ => id
  refine .bind (hi depth) fun a => .bind (accept_keeps rfl depth) fun comma => ?_
  have closed (items : List α) : Leads
      (do if ← accept closing then return .inr items.reverse else Parser.fail cause)
      (Seeks found (depth + 1))
      (Sum.elim (fun _ => Seeks found (depth + 1)) fun _ => after : List α ⊕ List α → _) :=
    .bind (accept_leads closes) fun closed => .ite (.pure fun _ => id) .fail
  cases comma with
  | true => exact .pure fun _ => id
  | false => exact closed (a :: items)

theorem commaList_keeps {closing : Punct} {cause : SyntaxCause} {item : Parser α}
    (passed : (TokenKind.punct closing).isPassed = true) (hi : Keeps found item) :
    Keeps found (commaList closing cause item) :=
  fun _ => commaList_leads hi fun _ here seen => here.advance passed seen

theorem bracketList_leads {cause : SyntaxCause} {item : Parser α} (hi : Keeps found item) :
    Leads (commaList .closeBracket cause item) (Seeks found (depth + 1))
      fun _ => Seeks found depth :=
  commaList_leads hi fun _ here bracket => (Cursor.leadsToName_closes bracket).trans here

/-! ## Types -/

theorem modifiers_keeps : Keeps found modifiers := by
  refine .repeatFrom (fun m => .byKind fun kind depth => ?_) _
  have another (present : Bool) (word : Keyword) (added : Modifiers) : Leads
      (if present then Parser.fail (.duplicateModifier word)
        else do let _ ← bump; return .inl added : Parser (Modifiers ⊕ Modifiers))
      (fun c => Seeks found (depth + 1) c ∧ c.current.kind = .keyword word)
      fun _ => Seeks found (depth + 1) := by
    split
    · exact .fail
    · exact .bind (bump_passes rfl) fun _ => .pure fun _ => id
  split
  · exact another _ _ _
  · exact another _ _ _
  · exact another _ _ _
  · exact .pure fun _ => And.left

theorem typeArgs?_keeps {type : Parser TypeRef} (h : Keeps found type) :
    Keeps found (typeArgs? type) :=
  fun _ => .bind accept_opens fun _ => .ite
    (.bind (bracketList_leads h) fun _ => .pure fun _ => id) (.pure fun _ => And.left)

theorem typeWith_keeps {type : Parser TypeRef} (allowVoid : Bool) (h : Keeps found type) :
    Keeps found (typeWith type allowVoid) := by
  refine .bind (.still here_ends) fun start => .bind modifiers_keeps fun mods =>
    .byKind fun kind depth => ?_
  have args (make : Node → List TypeRef → TypeRef) : Keeps found
      (do
        let args ← typeArgs? type
        return make (← nodeFrom start) (args.getD [])) :=
    .bind (typeArgs?_keeps h) fun _ => .bind (.still (nodeFrom_ends start)) fun _ => .pure
  have alone (make : Node → TypeRef) : Keeps found (do return make (← nodeFrom start)) :=
    .bind (.still (nodeFrom_ends start)) fun _ => .pure
  split
  · split
    · exact .fail
    · exact .bind (bump_passes rfl) fun _ => alone _ depth
  · exact .bind (bump_passes rfl) fun _ => args (fun n => .array n mods) depth
  · exact .bind (bump_passes rfl) fun _ => args (fun n => .keymap n mods) depth
  · exact .bind (bump_passes rfl) fun _ => alone _ depth
  · refine .bind ((expectIdent_keeps depth).weaken (fun _ => And.left) fun _ _ => id) fun name =>
      .bind (typeArgs?_keeps h depth) fun args => ?_
    split
    · exact alone _ depth
    · exact alone _ depth
  · exact .fail
  · exact .fail

theorem typeRef_keeps : Keeps found typeRef := .recursive fun _ => typeWith_keeps false

/-! ## Expressions -/

/-- The search does not pass a brace. -/
theorem not_seeks_brace {c : Cursor} : ¬ (Seeks true (depth + 1) c ∧
    c.current.kind = .punct .openBrace) := by
  rintro ⟨here, brace⟩
  rw [Seeks, Cursor.leadsToName, Cursor.tokens, nameAfterBrackets, brace] at here
  cases here

section Expressions

variable {next operand nested : Parser Expr}

theorem operatorOf?_keeps (ops : List BinaryOp) : Keeps found (operatorOf? ops) := by
  refine .byKind fun kind depth => ?_
  split
  · next op listed =>
    have there := List.find?_some listed
    have passed : kind.isPassed = true := eq_of_beq there ▸ op.token_isPassed
    exact .bind (bump_passes passed) fun _ => .pure fun _ => id
  · exact .pure fun _ => And.left

theorem leftAssoc_keeps (ops : List BinaryOp) (h : Keeps found next) :
    Keeps found (leftAssoc ops next) := by
  refine .bind h fun first => .repeatFrom (fun lhs => .bind (operatorOf?_keeps ops) fun op => ?_) _
  split
  · exact .bind h fun _ => .bind (.still (binaryNode_ends _ _ _)) fun _ => .pure
  · exact .pure

theorem operations_keeps (ops : List BinaryOp) (h : Keeps found next) :
    Keeps found (operations ops next) := by
  refine .repeatFrom (fun read => .bind (operatorOf?_keeps ops) fun op => ?_) _
  split
  · exact .bind h fun _ => .pure
  · exact .pure

theorem chain_keeps (ops : List BinaryOp) (h : Keeps found next) :
    Keeps found (chain ops next) := by
  refine .bind h fun first => .bind (operations_keeps ops h) fun others =>
    .bind (.still (comparisons_ends first others)) fun all => ?_
  split
  · exact .pure
  · exact .still (conjunction_ends _ _)

theorem binary_keeps (h : Keeps found operand) : ∀ ls : List Level, Keeps found (binary ls operand)
  | [] => h
  | .leftAssoc ops :: tighter => leftAssoc_keeps ops (binary_keeps h tighter)
  | .chain ops :: tighter => chain_keeps ops (binary_keeps h tighter)

theorem unary_keeps {op? : TokenKind → Option UnaryOp}
    (passed : ∀ kind op, op? kind = some op → kind.isPassed = true) (h : Keeps found operand) :
    Keeps found (unary op? operand) := by
  have ops : Keeps found (unaryOps op?) := by
    refine .repeatFrom (fun read => .bind (.still here_ends) fun start =>
      .byKind fun kind depth => ?_) _
    split
    · next op reads => exact .bind (bump_passes (passed kind op reads)) fun _ => .pure fun _ => id
    · exact .pure fun _ => And.left
  exact .bind ops fun ops => .bind h fun e => .still (applyUnary_ends e ops)

theorem power_keeps (h : Keeps found operand) : Keeps found (power operand) :=
  .bind h fun _ => .bind (operations_keeps _ h) fun _ => .still (powerOf_ends _ _)

theorem primary_keeps (h : Keeps true nested) : Keeps true (primary nested) := by
  have word (start : Span) (make : Node → Expr) {kind : TokenKind} {depth : Nat}
      (passed : kind.isPassed = true) : Leads
      (do let _ ← bump; return make (← nodeFrom start) : Parser Expr)
      (fun c => Seeks true (depth + 1) c ∧ c.current.kind = kind) fun _ => Seeks true (depth + 1) :=
    .bind (bump_passes passed) fun _ => .still (nodeFrom_ends start) fun _ => .pure fun _ => id
  refine .bind (.still here_ends) fun start => .byKind fun kind depth => ?_
  split
  · exact .bind ((expectIdent_keeps depth).weaken (fun _ => And.left) fun _ _ => id) fun _ =>
      .still (nodeFrom_ends start) fun _ => .pure fun _ => id
  · exact word start _ rfl
  · exact word start _ rfl
  · exact word start _ rfl
  · exact word start _ rfl
  · exact word start _ rfl
  · exact word start _ rfl
  · exact .bind (bump_passes rfl) fun _ => .bind (h depth) fun _ =>
      .bind (expectPunct_keeps rfl depth) fun _ => .pure fun _ => id
  · have opens : Leads bump
        (fun c => Seeks true (depth + 1) c ∧ c.current.kind = .punct .openBracket)
        fun _ => Seeks true (depth + 2) :=
      bump_leads.weaken (fun _ here => (Cursor.leadsToName_opens here.2).trans here.1)
        fun _ _ => id
    exact .bind opens fun _ => .bind (bracketList_leads h) fun _ =>
      .still (nodeFrom_ends start) fun _ => .pure fun _ => id
  · exact .absurd fun _ => not_seeks_brace
  · exact .fail
  · exact .fail

theorem postfixStep_keeps (start : Span) (target : Expr) (h : Keeps true nested) :
    Keeps true (postfixStep nested start target) := by
  have memberOf (access : MemberAccess) : Keeps true
      (do
        let name ← expectIdent
        return .inl (.member (← nodeFrom start) target access name) : Parser (Expr ⊕ Expr)) :=
    .bind expectIdent_keeps fun _ => .bind (.still (nodeFrom_ends start)) fun _ => .pure
  refine .bind (accept_keeps rfl) fun dot => .ite (memberOf .dot) ?_
  refine .bind (accept_keeps rfl) fun arrow => .ite (memberOf .arrow) ?_
  intro depth
  refine .bind accept_opens fun bracket => .ite ?_
    (Leads.weaken ?_ (fun _ => And.left) fun _ _ => id)
  · exact .bind (h (depth + 1)) fun _ => .bind expectPunct_closes fun _ =>
      .still (nodeFrom_ends start) fun _ => .pure fun _ => id
  · have call : Keeps true
        (do
          let args ← commaList .closeParen .expectedCommaOrCloseParen nested
          return .inl (.call (← nodeFrom start) target args) : Parser (Expr ⊕ Expr)) :=
      .bind (commaList_keeps rfl h) fun _ => .bind (.still (nodeFrom_ends start)) fun _ => .pure
    exact .bind (accept_keeps rfl depth) fun paren => (Keeps.ite call .pure) depth

theorem postfixed_keeps (h : Keeps true nested) : Keeps true (postfixed nested) :=
  .bind (.still here_ends) fun start => .bind (primary_keeps h) fun _ =>
    .repeatFrom (fun target => postfixStep_keeps start target h) _

theorem allocation_keeps (h : Keeps true nested) : Keeps true (allocation nested) := by
  refine .bind (.still here_ends) fun start => .bind (acceptKeyword_keeps _) fun new => .ite ?_ ?_
  · exact .bind typeRef_keeps fun _ => .bind (.still (nodeFrom_ends start)) fun _ => .pure
  refine .bind (acceptKeyword_keeps _) fun delete => .ite ?_ (postfixed_keeps h)
  refine .bind (.still (peek_ends _)) fun new' => .bind (.still (peek_ends _)) fun delete' =>
    .ite .fail ?_
  exact .bind (postfixed_keeps h) fun _ => .still (unaryNode_ends _ _ _)

theorem sign?_isPassed {kind : TokenKind} {op : UnaryOp} (reads : sign? kind = some op) :
    kind.isPassed = true := by
  unfold sign? at reads
  split at reads <;> first | rfl | cases reads

theorem negation?_isPassed {kind : TokenKind} {op : UnaryOp} (reads : negation? kind = some op) :
    kind.isPassed = true := by
  unfold negation? at reads
  split at reads <;> first | rfl | cases reads

theorem operation_keeps (h : Keeps true nested) : Keeps true (operation nested) :=
  binary_keeps (unary_keeps (fun _ _ => sign?_isPassed) (power_keeps
    (unary_keeps (fun _ _ => negation?_isPassed) (allocation_keeps h)))) levels

theorem inside_keeps (h : Keeps found nested) : Keeps found (inside nested) :=
  .bind (.still context_ends) fun _ => .within h

theorem assignment_keeps (h : Keeps true nested) : Keeps true (assignment nested) := by
  have marks : ∀ p ∈ assignmentPuncts, (TokenKind.punct p).isPassed = true := by decide
  refine .bind (operation_keeps (inside_keeps h)) fun target =>
    .bind (takePunctOf?_keeps marks) fun mark => ?_
  split
  · exact .pure
  refine .bind (.still context_ends) fun context => .ite .failAt (.ite .failAt ?_)
  exact .bind h fun _ => .bind (.still (storedValue_ends _ _ _)) fun _ =>
    .bind (.still (newNode_ends _)) fun _ => .pure

theorem iterate_keeps (n : Nat) : Keeps true (iterate assignment n) :=
  @iterate_induction _ (Keeps true) _ .fail (fun _ => assignment_keeps) n

end Expressions

end Parser

end ClassLang
