import ClassLang.Proofs.Parsing.Runs
import ClassLang.Proofs.Syntax.Forms

/-!
What parsers give, whatever is read and in whatever state. `Makes good p` says that each result of
`p` is good.

* `operation_makes`: what passes from the parts of an operation to the whole holds of every
  operation that is read, if it holds of the expressions inside.
-/

namespace ClassLang

/-- What holds of operations if it holds of their parts, and passes to copies. -/
structure Expr.Compositional (good : Expr → Prop) : Prop where
  ident (n : Node) (name : Ident) : good (.ident n name)
  this (n : Node) : good (.this n)
  literal (n : Node) (value : Literal) : good (.literal n value)
  list (n : Node) {elems : List Expr} : (∀ e ∈ elems, good e) → good (.list n elems)
  keymap (n : Node) {pairs : List KeymapPair} :
    (∀ pair ∈ pairs, good pair.key ∧ good pair.value) → good (.keymap n pairs)
  binary (n : Node) (op : BinaryOp) {lhs rhs : Expr} : good lhs → good rhs →
    good (.binary n op lhs rhs)
  unary (n : Node) (op : UnaryOp) {operand : Expr} : good operand → good (.unary n op operand)
  new (n : Node) (type : TypeRef) : good (.new n type)
  member (n : Node) {target : Expr} (access : MemberAccess) (name : Ident) : good target →
    good (.member n target access name)
  index (n : Node) {target i : Expr} : good target → good i → good (.index n target i)
  call (n : Node) {callee : Expr} {args : List Expr} : good callee → (∀ e ∈ args, good e) →
    good (.call n callee args)
  copy {e : Expr} (next : Nat) : good e → good (e.renumber next).1

/-- A test that only assignments can fail. -/
theorem Expr.Compositional.all {test : Expr → Bool} (numberless : Numberless test)
    (passes : ∀ e, e.isAssignment = false → test e = true) :
    Compositional fun e => e.all test = true where
  ident _ _ := passes _ rfl
  this _ := passes _ rfl
  literal _ _ := passes _ rfl
  new _ _ := passes _ rfl
  list _ _ elems := by
    rw [Expr.all, passes _ rfl, allOf_eq, Bool.true_and, List.all_eq_true]
    exact elems
  keymap _ _ pairs := by
    rw [Expr.all, passes _ rfl, allPairs_eq, Bool.true_and, List.all_eq_true]
    exact fun pair listed => Bool.and_eq_true_iff.2 (pairs pair listed)
  binary _ _ _ _ lhs rhs := by rw [Expr.all, passes _ rfl, lhs, rhs]; rfl
  unary _ _ _ operand := by rw [Expr.all, passes _ rfl, operand]; rfl
  member _ _ _ _ target := by rw [Expr.all, passes _ rfl, target]; rfl
  index _ _ _ target i := by rw [Expr.all, passes _ rfl, target, i]; rfl
  call _ _ _ callee args := by
    rw [Expr.all, passes _ rfl, callee, allOf_eq, Bool.true_and, Bool.true_and, List.all_eq_true]
    exact args
  copy next e := (all_renumber numberless _ next).trans e

namespace Parser

variable {α β σ : Type}

def Makes (good : α → Prop) (p : Parser α) : Prop :=
  Ensures p (fun _ => True) fun a _ => good a

namespace Makes

variable {good : α → Prop} {final : β → Prop}

theorem any {p : Parser α} : Makes (fun _ => True) p := fun _ _ _ _ _ => trivial

theorem pure {a : α} (h : good a) : Makes good (Pure.pure a : Parser α) := by
  intro s b t run _
  cases run
  exact h

theorem bind {p : Parser α} {f : α → Parser β} (hp : Makes good p)
    (hf : ∀ a, good a → Makes final (f a)) : Makes final (p >>= f) :=
  Ensures.bind hp fun a s b t run holds => hf a holds s b t run trivial

/-- A part whose result does not matter. -/
theorem skip {p : Parser α} {f : α → Parser β} (hf : ∀ a, Makes final (f a)) :
    Makes final (p >>= f) :=
  .bind .any fun a _ => hf a

theorem fail {cause : SyntaxCause} : Makes good (Parser.fail cause : Parser α) := Ensures.fail

theorem failAt {span : Span} {cause : SyntaxCause} :
    Makes good (Parser.failAt span cause : Parser α) := Ensures.failAt

theorem repeatFrom {step : σ → Parser (σ ⊕ β)} (invariant : σ → Prop)
    (hstep : ∀ x, invariant x → Makes (Sum.elim invariant final) (step x)) {start : σ}
    (h : invariant start) : Makes final (Parser.repeatFrom start step) := by
  have keeps (x : σ) : Ensures (step x) (fun _ => invariant x)
      (Sum.elim (fun y _ => invariant y) fun b _ => final b) := by
    intro s result t run holds
    have made := hstep x holds s result t run trivial
    cases result <;> exact made
  exact (Ensures.repeatFrom (fun x _ => invariant x) keeps start).weaken (fun _ _ => h)
    fun _ _ => id

end Makes

theorem commaList_makes {good : α → Prop} {closing : Punct} {cause : SyntaxCause}
    {item : Parser α} (h : Makes good item) :
    Makes (fun items => ∀ a ∈ items, good a) (commaList closing cause item) := by
  refine .skip fun closed => ?_
  split
  · exact .pure fun _ => nofun
  refine .repeatFrom (fun items => ∀ a ∈ items, good a) (fun items all => ?_) fun _ => nofun
  refine .bind h fun a holds => .skip fun comma => ?_
  have grown : ∀ b ∈ a :: items, good b := List.forall_mem_cons.2 ⟨holds, all⟩
  split
  · exact .pure grown
  refine .skip fun closed => ?_
  split
  · exact .pure fun b listed => grown b (List.mem_reverse.1 listed)
  · exact .fail

/-! ## Operations -/

section Operations

variable {good : Expr → Prop} {next operand nested : Parser Expr} (h : Expr.Compositional good)
include h

theorem freshCopy_makes {e : Expr} (he : good e) : Makes good (freshCopy e) := by
  intro s copy t run _
  cases run
  exact h.copy s.nextId he

theorem binaryNode_makes (op : BinaryOp) {lhs rhs : Expr} (hl : good lhs) (hr : good rhs) :
    Makes good (binaryNode op lhs rhs) :=
  .skip fun n => .pure (h.binary n op hl hr)

theorem unaryNode_makes (op : UnaryOp) (start : Span) {e : Expr} (he : good e) :
    Makes good (unaryNode op start e) :=
  .skip fun n => .pure (h.unary n op he)

theorem leftAssoc_makes (ops : List BinaryOp) (hn : Makes good next) :
    Makes good (leftAssoc ops next) := by
  refine .bind hn fun first => .repeatFrom good fun lhs hl => .skip fun op => ?_
  split
  · exact .bind hn fun rhs hr => .bind (binaryNode_makes h _ hl hr) fun e he => .pure he
  · exact .pure hl

omit h in
theorem operations_makes (ops : List BinaryOp) (hn : Makes good next) :
    Makes (fun others => ∀ other ∈ others, good other.2) (operations ops next) := by
  refine .repeatFrom (fun others => ∀ other ∈ others, good other.2) (fun read all => ?_)
    fun _ => nofun
  refine .skip fun op => ?_
  split
  · exact .bind hn fun rhs hr => .pure (List.forall_mem_cons.2 ⟨hr, all⟩)
  · exact .pure fun other listed => all other (List.mem_reverse.1 listed)

theorem comparisons_makes : ∀ (others : List (BinaryOp × Expr)) {lhs : Expr}, good lhs →
    (∀ other ∈ others, good other.2) →
      Makes (fun all => ∀ e ∈ all, good e) (comparisons lhs others)
  | [], _, _, _ => .pure fun _ => nofun
  | (op, rhs) :: rest, _, hl, all => by
    obtain ⟨hr, more⟩ := List.forall_mem_cons.1 all
    exact .bind (freshCopy_makes h hr) fun shared hs => .bind (binaryNode_makes h op hl hr)
      fun comparison hc => .bind (comparisons_makes rest hs more) fun _ hm =>
        .pure (List.forall_mem_cons.2 ⟨hc, hm⟩)

theorem conjunction_makes : ∀ (others : List Expr) {first : Expr}, good first →
    (∀ e ∈ others, good e) → Makes good (conjunction first others)
  | [], _, hf, _ => .pure hf
  | second :: rest, _, hf, all => by
    obtain ⟨hs, more⟩ := List.forall_mem_cons.1 all
    exact .bind (conjunction_makes rest hs more) fun others => binaryNode_makes h .and hf

theorem chain_makes (ops : List BinaryOp) (hn : Makes good next) :
    Makes good (chain ops next) := by
  refine .bind hn fun first hf => .bind (operations_makes ops hn) fun others ho =>
    .bind (comparisons_makes h others hf ho) fun all ha => ?_
  split
  · exact .pure hf
  · obtain ⟨hc, more⟩ := List.forall_mem_cons.1 ha
    exact conjunction_makes h _ hc more

theorem binary_makes (ho : Makes good operand) : ∀ ls : List Level, Makes good (binary ls operand)
  | [] => ho
  | .leftAssoc ops :: tighter => leftAssoc_makes h ops (binary_makes ho tighter)
  | .chain ops :: tighter => chain_makes h ops (binary_makes ho tighter)

theorem applyUnary_makes {e : Expr} (he : good e) :
    ∀ ops : List (UnaryOp × Span), Makes good (applyUnary e ops)
  | [] => .pure he
  | (op, start) :: inner => .bind (applyUnary_makes he inner) fun _ => unaryNode_makes h op start

theorem unary_makes (op? : TokenKind → Option UnaryOp) (ho : Makes good operand) :
    Makes good (unary op? operand) :=
  .skip fun ops => .bind ho fun _ he => applyUnary_makes h he ops

theorem powerOf_makes : ∀ (others : List Expr) {base : Expr}, good base →
    (∀ e ∈ others, good e) → Makes good (powerOf base others)
  | [], _, hb, _ => .pure hb
  | second :: rest, _, hb, all => by
    obtain ⟨hs, more⟩ := List.forall_mem_cons.1 all
    exact .bind (powerOf_makes rest hs more) fun exponent => binaryNode_makes h .pow hb

theorem power_makes (ho : Makes good operand) : Makes good (power operand) := by
  refine .bind ho fun base hb => .bind (operations_makes _ ho) fun exponents he =>
    powerOf_makes h _ hb fun e listed => ?_
  obtain ⟨other, there, rfl⟩ := List.mem_map.1 listed
  exact he other there

omit h in
theorem keymapPair_makes (hn : Makes good nested) :
    Makes (fun pair => good pair.key ∧ good pair.value) (keymapPair nested) :=
  .skip fun _ => .bind hn fun _ hk => .skip fun _ => .bind hn fun _ hv =>
    .skip fun _ => .pure ⟨hk, hv⟩

theorem primary_makes (hn : Makes good nested) : Makes good (primary nested) := by
  have word (start : Span) (make : Node → Expr) (alone : ∀ n, good (make n)) :
      Makes good (do let _ ← bump; return make (← nodeFrom start) : Parser Expr) :=
    .skip fun _ => .skip fun n => .pure (alone n)
  refine .skip fun start => .skip fun kind => ?_
  split
  · exact .skip fun name => .skip fun n => .pure (h.ident n name)
  · exact word start _ fun n => h.literal n _
  · exact word start _ h.this
  · exact word start _ fun n => h.literal n _
  · exact word start _ fun n => h.literal n _
  · exact word start _ fun n => h.literal n _
  · exact word start _ fun n => h.literal n _
  · exact .skip fun _ => .bind hn fun inner hi => .skip fun _ => .pure hi
  · exact .skip fun _ => .bind (commaList_makes hn) fun elems all => .skip fun n =>
      .pure (h.list n all)
  · exact .skip fun _ => .bind (commaList_makes (keymapPair_makes hn)) fun pairs all =>
      .skip fun n => .pure (h.keymap n all)
  · exact .fail
  · exact .fail

theorem postfixStep_makes (start : Span) (hn : Makes good nested) {target : Expr}
    (ht : good target) : Makes (Sum.elim good good) (postfixStep nested start target) := by
  have memberOf (access : MemberAccess) : Makes (Sum.elim good good)
      (do
        let name ← expectIdent
        return .inl (.member (← nodeFrom start) target access name) : Parser (Expr ⊕ Expr)) :=
    .skip fun name => .skip fun n => .pure (h.member n access name ht)
  refine .skip fun dot => ?_
  split
  · exact memberOf .dot
  refine .skip fun arrow => ?_
  split
  · exact memberOf .arrow
  refine .skip fun bracket => ?_
  split
  · exact .bind hn fun i hi => .skip fun _ => .skip fun n => .pure (h.index n ht hi)
  refine .skip fun paren => ?_
  split
  · exact .bind (commaList_makes hn) fun args all => .skip fun n => .pure (h.call n ht all)
  · exact .pure ht

theorem postfixed_makes (hn : Makes good nested) : Makes good (postfixed nested) :=
  .skip fun start => .bind (primary_makes h hn) fun _ =>
    .repeatFrom good fun _ => postfixStep_makes h start hn

theorem allocation_makes (hn : Makes good nested) : Makes good (allocation nested) := by
  refine .skip fun start => .skip fun new => ?_
  split
  · exact .skip fun type => .skip fun n => .pure (h.new n type)
  refine .skip fun delete => ?_
  split
  · refine .skip fun new' => .skip fun delete' => ?_
    split
    · exact .fail
    · exact .bind (postfixed_makes h hn) fun operand => unaryNode_makes h .delete start
  · exact postfixed_makes h hn

theorem operation_makes (hn : Makes good nested) : Makes good (operation nested) :=
  binary_makes h (unary_makes h _ (power_makes h (unary_makes h _ (allocation_makes h hn)))) levels

end Operations

end Parser

end ClassLang
