import ClassLang.Proofs.Parsing.OperatorReads
import ClassLang.Proofs.Parsing.TypeReads
import ClassLang.Proofs.Syntax.Sameness

/-!
A printed expression is read back, if it has no assignments in operations. The induction is on the
expression. Behind an operand there may be selectors, which the loop that reads the operand goes on
with, so what is known of an operand is said for all that the loop may come to.

* `Parser.reads_operand`: an expression without assignments is read as an operand.
* `Parser.expression_reads`: a printed expression is read as the same expression.
-/

namespace ClassLang

/-! ## Printed operands -/

/-- A token that an operand starts with. -/
structure TokenKind.StartsOperand (k : TokenKind) : Prop where
  sign : Parser.sign? k = none
  negation : Parser.negation? k = none
  new : k ≠ .keyword .kwNew
  delete : k ≠ .keyword .kwDelete
  closing : ∀ p ∈ [Punct.closeParen, .closeBracket, .closeBrace], k ≠ .punct p

/-- Whether a printed operand may start with the token. -/
def TokenKind.opensOperand : TokenKind → Bool
  | .ident _ | .literal _ => true
  | .keyword k => [Keyword.kwThis, .kwTrue, .kwFalse, .kwNull, .kwUndefined].contains k
  | .punct p => [Punct.openParen, .openBracket, .openBrace].contains p
  | .eof => false

theorem TokenKind.startsOperand {k : TokenKind} (h : k.opensOperand = true) : k.StartsOperand := by
  cases k with
  | ident _ | literal _ => exact ⟨rfl, rfl, by simp, by simp, by simp⟩
  | keyword k =>
    have others : ∀ k ∈ [Keyword.kwThis, .kwTrue, .kwFalse, .kwNull, .kwUndefined],
        Parser.negation? (.keyword k) = none ∧ k ≠ .kwNew ∧ k ≠ .kwDelete := by
      decide
    obtain ⟨negation, new, delete⟩ := others k (List.contains_iff_mem.1 h)
    exact ⟨rfl, negation, by simpa using new, by simpa using delete, by simp⟩
  | punct p =>
    have others : ∀ p ∈ [Punct.openParen, .openBracket, .openBrace],
        Parser.sign? (.punct p) = none ∧ p ∉ [Punct.closeParen, .closeBracket, .closeBrace] := by
      decide
    obtain ⟨sign, closing⟩ := others p (List.contains_iff_mem.1 h)
    refine ⟨sign, rfl, by simp, by simp, fun q mem eq => closing ?_⟩
    cases eq
    exact mem
  | eof => cases h

namespace Expr

theorem opensOperand_literal (value : Literal) : value.token.opensOperand = true := by
  cases value with
  | bool b => cases b <;> rfl
  | _ => rfl

theorem tokens_open : ∀ (e : Expr) (rest : List TokenKind),
    ∃ k ks, Ink.tokensOf e.ink ++ rest = k :: ks ∧ k.opensOperand = true
  | ident .., _ | this _, _ | list .., _ | keymap .., _ | binary .., _ | unary .., _ | new .., _ =>
    ⟨_, _, rfl, rfl⟩
  | literal _ value, _ => ⟨_, _, rfl, opensOperand_literal value⟩
  | member _ target .., rest => by
    rw [ink, Ink.tokensOf_append, List.append_assoc]
    exact target.tokens_open _
  | index _ target i, rest => by
    rw [ink, List.append_assoc, Ink.tokensOf_append, List.append_assoc]
    exact target.tokens_open _
  | call _ callee args, rest => by
    rw [ink, Ink.tokensOf_append, List.append_assoc]
    exact callee.tokens_open _
  | assign _ kind target value, rest => by
    rw [ink, Ink.tokensOf_append, List.append_assoc]
    exact target.tokens_open _

theorem tokens_start (e : Expr) (rest : List TokenKind) :
    ∃ k ks, Ink.tokensOf e.ink ++ rest = k :: ks ∧ k.StartsOperand := by
  obtain ⟨k, ks, front, opens⟩ := e.tokens_open rest
  exact ⟨k, ks, front, k.startsOperand opens⟩

theorem inkAll_eq (es : List Expr) : inkAll es = es.map ink := by
  induction es with
  | nil => rfl
  | cons e rest ih => rw [inkAll, ih, List.map_cons]

theorem sameAll_of_forall₂ {es copies : List Expr}
    (h : List.Forall₂ (fun e e' => e.same e' = true) es copies) : sameAll es copies = true := by
  induction h with
  | nil => rfl
  | cons first _ ih => exact Bool.and_eq_true_iff.2 ⟨first, ih⟩

/-- A printed pair. -/
def pairInk (pair : KeymapPair) : List Ink :=
  pair.key.ink ++ .mark .colon :: .space :: pair.value.ink

/-- Equality of pairs up to numbers and places. -/
def SamePair (pair copy : KeymapPair) : Prop :=
  pair.key.same copy.key = true ∧ pair.value.same copy.value = true

theorem inkPairs_eq (pairs : List KeymapPair) : inkPairs pairs = pairs.map pairInk := by
  induction pairs with
  | nil => rfl
  | cons pair rest ih =>
    obtain ⟨n, key, value⟩ := pair
    rw [inkPairs, ih, List.map_cons]
    rfl

theorem samePairs_of_forall₂ {pairs copies : List KeymapPair}
    (h : List.Forall₂ SamePair pairs copies) : samePairs pairs copies = true := by
  induction h with
  | nil => rfl
  | @cons pair copy _ _ first _ ih =>
    obtain ⟨n, key, value⟩ := pair
    obtain ⟨n', key', value'⟩ := copy
    exact Bool.and_eq_true_iff.2 ⟨Bool.and_eq_true_iff.2 first, ih⟩

theorem tokensOf_pair (pair : KeymapPair) (rest : List TokenKind) :
    Ink.tokensOf (pairInk pair) ++ rest = Ink.tokensOf pair.key.ink ++
      .punct .colon :: (Ink.tokensOf pair.value.ink ++ rest) := by
  rw [pairInk, Ink.tokensOf_append, List.append_assoc]
  rfl

/-- Whether each assignment in the expression is the whole of it, or the value of an assignment for
which this holds. -/
def assignsAtRoot : Expr → Bool
  | assign _ _ target value => target.all (fun e => !e.isAssignment) && value.assignsAtRoot
  | e => e.all fun e => !e.isAssignment

theorem assignsAtRoot_of_operation {e : Expr} (other : e.isAssignment = false) :
    e.assignsAtRoot = e.all fun e => !e.isAssignment := by
  cases e <;> first | rfl | cases other

end Expr

namespace Parser

variable {c : Context} {k : TokenKind} {ks rest before after : List TokenKind}
  {good : Expr → Prop} {e : Expr} {n : Nat}

/-- The marks that select a part of what is in front of them. -/
def selectors : List Punct := [.dot, .arrow, .openBracket, .openParen]

/-- Nothing is selected by the token. -/
def NoSelector (k : TokenKind) : Prop := ∀ p ∈ selectors, k ≠ .punct p

/-- A token that may stand behind an expression without an assignment. -/
structure EndsOperation (k : TokenKind) : Prop where
  operator : ∀ op : BinaryOp, op.token ≠ k
  selector : NoSelector k

/-- A token that may stand behind an expression. -/
structure EndsExpression (k : TokenKind) : Prop extends EndsOperation k where
  mark : ∀ p ∈ assignmentPuncts, k ≠ .punct p

theorem endsExpression_eof : EndsExpression .eof :=
  ⟨⟨fun op => by cases op <;> simp [BinaryOp.token], fun _ _ => by simp⟩, fun _ _ => by simp⟩

theorem endsExpression_closer {p : Punct}
    (h : p ∈ [Punct.comma, .colon, .semicolon, .closeParen, .closeBracket, .closeBrace]) :
    EndsExpression (.punct p) := by
  have others : ∀ p ∈ [Punct.comma, .colon, .semicolon, .closeParen, .closeBracket, .closeBrace],
      p ∉ selectors ∧ p ∉ assignmentPuncts ∧ ∀ op ∈ BinaryOp.all, op.token ≠ .punct p := by
    decide
  obtain ⟨selector, mark, operator⟩ := others p h
  refine ⟨⟨fun op => operator op op.mem_all, fun q mem eq => selector ?_⟩, fun q mem eq => mark ?_⟩
  · cases eq
    exact mem
  · cases eq
    exact mem

theorem noSelector_operator (op : BinaryOp) : NoSelector op.token := by
  have others : ∀ op ∈ BinaryOp.all, ∀ p ∈ selectors, op.token ≠ .punct p := by decide
  exact others op op.mem_all

theorem noneOf_of_endsOperation (h : EndsOperation k) (ops : List BinaryOp) : NoneOf ops k :=
  fun op _ => h.operator op

/-- An expression inside an expression, with fuel. -/
def nestedWith (n : Nat) : Parser Expr := inside (iterate assignment n)

/-- The expression is read as an operand, whatever the loop behind it comes to. -/
def ReadsOperand (e : Expr) : Prop :=
  ∀ n c rest after good, rest ≠ [] → (Ink.tokensOf e.ink ++ rest).length ≤ n + 1 →
    (∀ start e' m, e.same e' = true → rest.length ≤ m →
      Reads c (loop (postfixStep (nestedWith n) start) m e') rest after good) →
    Reads c (postfixed (nestedWith n)) (Ink.tokensOf e.ink ++ rest) after good

theorem postfixStep_ends {nested : Parser Expr} {start : Span} (other : NoSelector k) :
    Reads c (postfixStep nested start e) (k :: ks) (k :: ks) (· = .inr e) := by
  have absent {p : Punct} (mem : p ∈ selectors) :
      Reads c (accept p) (k :: ks) (k :: ks) (· = false) := accept_absent (other p mem)
  refine .bind (absent (by decide)) fun dot eq => ?_
  rw [eq, if_neg (by simp)]
  refine .bind (absent (by decide)) fun arrow eq => ?_
  rw [eq, if_neg (by simp)]
  refine .bind (absent (by decide)) fun bracket eq => ?_
  rw [eq, if_neg (by simp)]
  refine .bind (absent (by decide)) fun paren eq => ?_
  rw [eq, if_neg (by simp)]
  exact .pure rfl

namespace ReadsOperand

theorem postfixed (h : ReadsOperand e) (other : NoSelector k)
    (length : (Ink.tokensOf e.ink ++ k :: ks).length ≤ n + 1) :
    Reads c (Parser.postfixed (nestedWith n)) (Ink.tokensOf e.ink ++ k :: ks) (k :: ks)
      (e.same · = true) := by
  refine h n c (k :: ks) (k :: ks) _ (by simp) length fun start e' m same fuel => ?_
  obtain ⟨m, rfl⟩ : ∃ l, m = l + 1 := ⟨m - 1, by simp at fuel; omega⟩
  exact .loop_ends (Reads.mono (postfixStep_ends other) fun _ eq => ⟨e', eq, same⟩)

/-- An operand of a negation. -/
theorem allocation (h : ReadsOperand e) (other : NoSelector k)
    (length : (Ink.tokensOf e.ink ++ k :: ks).length ≤ n + 1) :
    Reads c (Parser.allocation (nestedWith n)) (Ink.tokensOf e.ink ++ k :: ks) (k :: ks)
      (e.same · = true) := by
  have operand := h.postfixed (c := c) other length
  obtain ⟨first, tail, front, starts⟩ := e.tokens_start (k :: ks)
  rw [front] at operand ⊢
  refine .bind here_reads fun start _ => .bind (acceptKeyword_absent starts.new) fun new eq => ?_
  rw [eq, if_neg (by simp)]
  refine .bind (acceptKeyword_absent starts.delete) fun delete eq => ?_
  rw [eq, if_neg (by simp)]
  exact operand

/-- An operand of a power. -/
theorem factor (h : ReadsOperand e) (other : NoSelector k)
    (length : (Ink.tokensOf e.ink ++ k :: ks).length ≤ n + 1) :
    Reads c (unary negation? (Parser.allocation (nestedWith n))) (Ink.tokensOf e.ink ++ k :: ks)
      (k :: ks) (e.same · = true) := by
  obtain ⟨first, tail, front, starts⟩ := e.tokens_start (k :: ks)
  exact unary_none front starts.negation (h.allocation other length)

/-- An operand of a sign. -/
theorem powers (h : ReadsOperand e) (other : NoSelector k) (alone : k ≠ .punct .starStar)
    (length : (Ink.tokensOf e.ink ++ k :: ks).length ≤ n + 1) :
    Reads c (power (unary negation? (Parser.allocation (nestedWith n))))
      (Ink.tokensOf e.ink ++ k :: ks) (k :: ks) (e.same · = true) :=
  power_one alone (h.factor other length)

/-- An operand of a binary operator. -/
theorem term (h : ReadsOperand e) (other : NoSelector k) (alone : k ≠ .punct .starStar)
    (length : (Ink.tokensOf e.ink ++ k :: ks).length ≤ n + 1) :
    Reads c (unary sign? (power (unary negation? (Parser.allocation (nestedWith n)))))
      (Ink.tokensOf e.ink ++ k :: ks) (k :: ks) (e.same · = true) := by
  obtain ⟨first, tail, front, starts⟩ := e.tokens_start (k :: ks)
  exact unary_none front starts.sign (h.powers other alone length)

theorem operation (h : ReadsOperand e) (ends : EndsOperation k)
    (length : (Ink.tokensOf e.ink ++ k :: ks).length ≤ n + 1) :
    Reads c (Parser.operation (nestedWith n)) (Ink.tokensOf e.ink ++ k :: ks) (k :: ks)
      (e.same · = true) :=
  binary_one levels (noneOf_of_endsOperation ends _)
    (h.term ends.selector (fun eq => ends.operator .pow eq.symm) length)

end ReadsOperand

/-! ## Nested expressions -/

theorem takePunctOf?_absent {marks : List Punct} (other : ∀ p ∈ marks, k ≠ .punct p) :
    Reads c (takePunctOf? marks) (k :: ks) (k :: ks) (· = none) := by
  refine .bind kind_reads fun kind eq => ?_
  subst eq
  split
  · next p =>
    rw [if_neg fun mem => other p (List.contains_iff_mem.1 mem) rfl]
    exact .pure rfl
  · exact .pure rfl

theorem assignment_of_operation {expr : Parser Expr} (ends : EndsExpression k)
    (reads : Reads c (operation (inside expr)) before (k :: ks) good) :
    Reads c (assignment expr) before (k :: ks) good := by
  refine .bind reads fun e he => .bind (takePunctOf?_absent ends.mark) fun mark eq => ?_
  subst eq
  exact .pure he

/-- Reading inside an expression takes an operation with less fuel. -/
theorem nestedWith_reads (ends : EndsExpression k) (nonempty : before ≠ [])
    (length : before.length ≤ n)
    (reads : ∀ m c, before.length ≤ m + 1 →
      Reads c (operation (nestedWith m)) before (k :: ks) good) :
    Reads c (nestedWith n) before (k :: ks) good := by
  refine .bind context_reads fun outer _ => .within (.iterate nonempty length fun m fuel => ?_)
  exact assignment_of_operation ends (reads m _ fuel)

theorem ReadsOperand.nested (h : ReadsOperand e) (ends : EndsExpression k)
    (length : (Ink.tokensOf e.ink ++ k :: ks).length ≤ n) :
    Reads c (nestedWith n) (Ink.tokensOf e.ink ++ k :: ks) (k :: ks) (e.same · = true) :=
  nestedWith_reads ends (by simp) length fun _ _ fuel => h.operation ends.toEndsOperation fuel

theorem elems_reads {closing : Punct} {cause : SyntaxCause} {es : List Expr}
    (reads : ∀ e ∈ es, ReadsOperand e)
    (close : closing ∈ [Punct.closeParen, .closeBracket, .closeBrace]) (more : rest ≠ [])
    (length : (Ink.tokensOf (Ink.commas (Expr.inkAll es)) ++ .punct closing :: rest).length ≤ n) :
    Reads c (commaList closing cause (nestedWith n))
      (Ink.tokensOf (Ink.commas (Expr.inkAll es)) ++ .punct closing :: rest) rest
      (Expr.sameAll es · = true) := by
  have marks : ∀ p ∈ [Punct.closeParen, .closeBracket, .closeBrace], p ≠ .comma ∧
      p ∈ [Punct.comma, .colon, .semicolon, .closeParen, .closeBracket, .closeBrace] := by
    decide
  obtain ⟨separate, closer⟩ := marks closing close
  rw [Expr.inkAll_eq] at length ⊢
  refine Reads.mono (commaList_reads separate more (fun e mem k ks ends bound => ?_)
    (fun e _ => ?_) length) fun _ => Expr.sameAll_of_forall₂
  · refine (reads e mem).nested ?_ bound
    obtain rfl | rfl := ends
    · exact endsExpression_closer (by simp)
    · exact endsExpression_closer closer
  · obtain ⟨k, ks, front, starts⟩ := e.tokens_start []
    rw [List.append_nil] at front
    exact ⟨k, ks, front, starts.closing closing close⟩

theorem keymapPair_reads {pair : KeymapPair} (hk : ReadsOperand pair.key)
    (hv : ReadsOperand pair.value) (ends : EndsExpression k)
    (length : (Ink.tokensOf (Expr.pairInk pair) ++ k :: ks).length ≤ n) :
    Reads c (keymapPair (nestedWith n)) (Ink.tokensOf (Expr.pairInk pair) ++ k :: ks) (k :: ks)
      (Expr.SamePair pair) := by
  rw [Expr.tokensOf_pair] at length ⊢
  have shorter : (Ink.tokensOf pair.value.ink ++ k :: ks).length ≤ n := by
    rw [List.length_append, List.length_cons] at length
    omega
  refine .bind here_reads fun start _ =>
    .bind (hk.nested (endsExpression_closer (by simp)) length) fun key sameKey => ?_
  refine .bind (expectPunct_reads (by simp)) fun _ _ =>
    .bind (hv.nested ends shorter) fun value sameValue => ?_
  exact .bind (nodeFrom_reads start) fun _ _ => .pure ⟨sameKey, sameValue⟩

theorem pairs_reads {cause : SyntaxCause} {pairs : List KeymapPair}
    (reads : ∀ pair ∈ pairs, ReadsOperand pair.key ∧ ReadsOperand pair.value) (more : rest ≠ [])
    (length : (Ink.tokensOf (Ink.commas (Expr.inkPairs pairs)) ++
      .punct .closeBrace :: rest).length ≤ n) :
    Reads c (commaList .closeBrace cause (keymapPair (nestedWith n)))
      (Ink.tokensOf (Ink.commas (Expr.inkPairs pairs)) ++ .punct .closeBrace :: rest) rest
      (Expr.samePairs pairs · = true) := by
  rw [Expr.inkPairs_eq] at length ⊢
  refine Reads.mono (commaList_reads (by simp) more (fun pair mem k ks ends bound => ?_)
    (fun pair _ => ?_) length) fun _ => Expr.samePairs_of_forall₂
  · refine keymapPair_reads (reads pair mem).1 (reads pair mem).2 ?_ bound
    obtain rfl | rfl := ends <;> exact endsExpression_closer (by simp)
  · obtain ⟨k, ks, front, starts⟩ := pair.key.tokens_start (.punct .colon ::
      (Ink.tokensOf pair.value.ink ++ []))
    rw [← Expr.tokensOf_pair, List.append_nil] at front
    exact ⟨k, ks, front, starts.closing _ (by simp)⟩

/-! ## Operands of one form -/

theorem readsOperand_of_primary
    (h : ∀ n c rest, rest ≠ [] → (Ink.tokensOf e.ink ++ rest).length ≤ n + 1 →
      Reads c (primary (nestedWith n)) (Ink.tokensOf e.ink ++ rest) rest (e.same · = true)) :
    ReadsOperand e := by
  intro n c rest after good more length others
  refine .bind here_reads fun start _ => .bind (h n c rest more length) fun e' same => ?_
  exact .repeatFrom fun m fuel => others start e' m same fuel

theorem readsOperand_parens (inner : List TokenKind)
    (tokens : Ink.tokensOf e.ink = .punct .openParen :: (inner ++ [.punct .closeParen]))
    (h : ∀ n c ks, (inner ++ .punct .closeParen :: ks).length ≤ n + 1 →
      Reads c (operation (nestedWith n)) (inner ++ .punct .closeParen :: ks)
        (.punct .closeParen :: ks) (e.same · = true)) : ReadsOperand e := by
  refine readsOperand_of_primary fun n c rest more length => ?_
  have shape : Ink.tokensOf e.ink ++ rest =
      .punct .openParen :: (inner ++ .punct .closeParen :: rest) := by
    rw [tokens, List.cons_append, List.append_assoc]
    rfl
  rw [shape] at length ⊢
  refine .bind here_reads fun start _ => .bind kind_reads fun kind eq => ?_
  subst eq
  refine .bind (bump_reads (by simp) (by simp)) fun _ _ => ?_
  refine .bind (nestedWith_reads (endsExpression_closer (by simp)) (by simp)
    (Nat.le_of_succ_le_succ length) fun m c fuel => h m c rest fuel) fun e' same => ?_
  exact .bind (expectPunct_reads more) fun _ _ => .pure same

theorem readsOperand_literal (node : Node) (value : Literal) :
    ReadsOperand (.literal node value) := by
  have word (start : Span) {kind : TokenKind} {value' : Literal} {rest : List TokenKind}
      {c : Context} (eq : value = value') (ink : kind ≠ .eof) (more : rest ≠ []) :
      Reads c (do let _ ← bump; return .literal (← nodeFrom start) value' : Parser Expr)
        (kind :: rest) rest ((Expr.literal node value).same · = true) := by
    refine .bind (bump_reads ink more) fun _ _ => .bind (nodeFrom_reads start) fun _ _ => .pure ?_
    simp [Expr.same, eq]
  refine readsOperand_of_primary fun n c rest more _ => ?_
  refine .bind here_reads fun start _ => .bind kind_reads fun kind eq => ?_
  subst eq
  cases value with
  | bool b => cases b <;> exact word start rfl (by simp [Literal.token]) more
  | _ => exact word start rfl (by simp [Literal.token]) more

theorem operation_two {lhs rhs : Expr} {op : BinaryOp} (hl : ReadsOperand lhs)
    (hr : ReadsOperand rhs) (ends : EndsOperation k)
    (length : (Ink.tokensOf lhs.ink ++ op.token :: (Ink.tokensOf rhs.ink ++ k :: ks)).length ≤ n + 1) :
    Reads c (operation (nestedWith n))
      (Ink.tokensOf lhs.ink ++ op.token :: (Ink.tokensOf rhs.ink ++ k :: ks)) (k :: ks)
      (BinaryOf op (lhs.same · = true) (rhs.same · = true)) := by
  have alone : k ≠ .punct .starStar := fun eq => ends.operator .pow eq.symm
  have shorter : (Ink.tokensOf rhs.ink ++ k :: ks).length ≤ n + 1 := by
    rw [List.length_append, List.length_cons] at length
    omega
  by_cases power : op = .pow
  · subst power
    obtain ⟨first, tail, front, starts⟩ := lhs.tokens_start
      (BinaryOp.pow.token :: (Ink.tokensOf rhs.ink ++ k :: ks))
    refine binary_one levels (noneOf_of_endsOperation ends _) (unary_none front starts.sign ?_)
    exact power_two alone (by simp) (hl.factor (noSelector_operator .pow) length)
      (hr.factor ends.selector shorter)
  · have other : op.token ≠ .punct .starStar := fun eq =>
      power (BinaryOp.token_injective eq)
    exact binary_reads_two levels levels_nodup (mem_levels power) (noneOf_of_endsOperation ends _)
      (by simp) (hl.term (noSelector_operator op) other length)
      (hr.term ends.selector alone shorter)

theorem readsOperand_binary (node : Node) (op : BinaryOp) {lhs rhs : Expr} (hl : ReadsOperand lhs)
    (hr : ReadsOperand rhs) : ReadsOperand (.binary node op lhs rhs) := by
  refine readsOperand_parens (Ink.tokensOf lhs.ink ++ op.token :: Ink.tokensOf rhs.ink) ?_
    fun n c ks length => ?_
  · rw [Expr.ink, Ink.tokensOf_append, Ink.tokensOf_append]
    rfl
  · rw [List.append_assoc, List.cons_append] at length ⊢
    refine Reads.mono (operation_two hl hr (endsExpression_closer (by simp)).toEndsOperation length) ?_
    rintro _ ⟨_, lhs', rhs', rfl, sameL, sameR⟩
    simp [Expr.same, sameL, sameR]

theorem allocation_delete (h : ReadsOperand e) (other : NoSelector k)
    (length : (Ink.tokensOf e.ink ++ k :: ks).length ≤ n + 1) :
    Reads c (allocation (nestedWith n)) (.keyword .kwDelete :: (Ink.tokensOf e.ink ++ k :: ks))
      (k :: ks) (UnaryOf .delete (e.same · = true)) := by
  have operand := h.postfixed (c := c) other length
  obtain ⟨first, tail, front, starts⟩ := e.tokens_start (k :: ks)
  rw [front] at operand ⊢
  refine .bind here_reads fun start _ => .bind (acceptKeyword_absent (by simp)) fun new eq => ?_
  rw [eq, if_neg (by simp)]
  refine .bind (acceptKeyword_present (by simp)) fun delete eq => ?_
  rw [eq, if_pos rfl]
  refine .bind (peek_reads _) fun new eq => .bind (peek_reads _) fun delete eq' => ?_
  rw [eq, eq', if_neg (by simp [starts.new, starts.delete])]
  exact .bind operand fun e' same => unaryNode_reads start same

theorem operation_unary (op : UnaryOp) (h : ReadsOperand e) (ends : EndsOperation k)
    (length : (Ink.tokensOf e.ink ++ k :: ks).length ≤ n + 1) :
    Reads c (operation (nestedWith n)) (op.token :: (Ink.tokensOf e.ink ++ k :: ks)) (k :: ks)
      (UnaryOf op (e.same · = true)) := by
  have alone : k ≠ .punct .starStar := fun eq => ends.operator .pow eq.symm
  obtain ⟨first, tail, front, starts⟩ := e.tokens_start (k :: ks)
  refine binary_one levels (noneOf_of_endsOperation ends _) ?_
  have signed (some_ : sign? op.token = some op) :
      Reads c (unary sign? (power (unary negation? (allocation (nestedWith n)))))
        (op.token :: (Ink.tokensOf e.ink ++ k :: ks)) (k :: ks) (UnaryOf op (e.same · = true)) :=
    unary_one some_ front starts.sign (h.powers ends.selector alone length)
  cases op with
  | not =>
    refine unary_none rfl rfl (power_one alone ?_)
    exact unary_one rfl front starts.negation (h.allocation ends.selector length)
  | delete =>
    refine unary_none rfl rfl (power_one alone (unary_none rfl rfl ?_))
    exact allocation_delete h ends.selector length
  | neg => exact signed rfl
  | pos => exact signed rfl
  | bitNot => exact signed rfl
  | ref => exact signed rfl

theorem readsOperand_unary (node : Node) (op : UnaryOp) (h : ReadsOperand e) :
    ReadsOperand (.unary node op e) := by
  refine readsOperand_parens (op.token :: Ink.tokensOf e.ink) ?_ fun n c ks length => ?_
  · rw [Expr.ink, Ink.tokensOf_append, Ink.tokensOf_append]
    cases op <;> rfl
  · refine Reads.mono (operation_unary op h (endsExpression_closer (by simp)).toEndsOperation
      (Nat.le_of_succ_le length)) ?_
    rintro _ ⟨_, operand, rfl, same⟩
    simp [Expr.same, same]

theorem readsOperand_new (node : Node) {type : TypeRef} (sound : type.isSound = true) :
    ReadsOperand (.new node type) := by
  refine readsOperand_parens (.keyword .kwNew :: Ink.tokensOf type.ink) ?_ fun n c ks length => ?_
  · rw [Expr.ink, Ink.tokensOf_append]
    rfl
  have ends : EndsExpression (.punct .closeParen) := endsExpression_closer (by simp)
  refine binary_one levels (noneOf_of_endsOperation ends.toEndsOperation _)
    (unary_none rfl rfl (power_one (by simp) (unary_none rfl rfl ?_)))
  refine .bind here_reads fun start _ => .bind (acceptKeyword_present (by simp)) fun new eq => ?_
  rw [eq, if_pos rfl]
  refine .bind (typeRef_reads sound (by simp)) fun type' same => ?_
  exact .bind (nodeFrom_reads start) fun _ _ => .pure same

theorem readsOperand_list (node : Node) {elems : List Expr} (reads : ∀ e ∈ elems, ReadsOperand e) :
    ReadsOperand (.list node elems) := by
  refine readsOperand_of_primary fun n c rest more length => ?_
  rw [Expr.ink, tokensOf_enclosed] at length ⊢
  refine .bind here_reads fun start _ => .bind kind_reads fun kind eq => ?_
  subst eq
  refine .bind (bump_reads (by simp) (by simp)) fun _ _ => ?_
  refine .bind (elems_reads reads (by simp) more (Nat.le_of_succ_le_succ length)) fun elems' all => ?_
  exact .bind (nodeFrom_reads start) fun _ _ => .pure all

theorem readsOperand_keymap (node : Node) {pairs : List KeymapPair}
    (reads : ∀ pair ∈ pairs, ReadsOperand pair.key ∧ ReadsOperand pair.value) :
    ReadsOperand (.keymap node pairs) := by
  refine readsOperand_of_primary fun n c rest more length => ?_
  rw [Expr.ink, tokensOf_enclosed] at length ⊢
  refine .bind here_reads fun start _ => .bind kind_reads fun kind eq => ?_
  subst eq
  refine .bind (bump_reads (by simp) (by simp)) fun _ _ => ?_
  refine .bind (pairs_reads reads more (Nat.le_of_succ_le_succ length)) fun pairs' all => ?_
  exact .bind (nodeFrom_reads start) fun _ _ => .pure all

/-! ## Selections -/

/-- A selection behind an operand. The loop that reads the operand goes on with it. -/
theorem readsOperand_selection (selector : List TokenKind) {target : Expr}
    (ht : ReadsOperand target) (tokens : Ink.tokensOf e.ink = Ink.tokensOf target.ink ++ selector)
    (nonempty : selector ≠ [])
    (step : ∀ n c rest start target', rest ≠ [] → target.same target' = true →
      (selector ++ rest).length ≤ n + 1 →
        Reads c (postfixStep (nestedWith n) start target') (selector ++ rest) rest
          fun result => ∃ e', result = .inl e' ∧ e.same e' = true) : ReadsOperand e := by
  intro n c rest after good more length others
  rw [tokens, List.append_assoc] at length ⊢
  have positive := List.length_pos_of_ne_nil nonempty
  have short : (selector ++ rest).length ≤ n + 1 := by
    rw [List.length_append] at length
    omega
  refine ht n c (selector ++ rest) after good (by simp [more]) length
    fun start target' m same fuel => ?_
  rw [List.length_append] at fuel
  obtain ⟨m, rfl⟩ : ∃ l, m = l + 1 := ⟨m - 1, by omega⟩
  refine .loop_goes rest (e.same · = true) (step n c rest start target' more same short) ?_
  exact fun e' same' => others start e' m same' (by omega)

theorem readsOperand_member (node : Node) {target : Expr} (access : MemberAccess) (name : Ident)
    (ht : ReadsOperand target) : ReadsOperand (.member node target access name) := by
  refine readsOperand_selection [.punct access.punct, .ident name.name] ht ?_ (by simp)
    fun n c rest start target' more same _ => ?_
  · rw [Expr.ink, Ink.tokensOf_append]
    rfl
  have named : Reads c (do
      let name ← expectIdent
      return .inl (.member (← nodeFrom start) target' access name) : Parser (Expr ⊕ Expr))
      (.ident name.name :: rest) rest
      fun result => ∃ e', result = .inl e' ∧ (Expr.member node target access name).same e' = true := by
    refine .bind (expectIdent_reads more) fun name' eq => ?_
    refine .bind (nodeFrom_reads start) fun _ _ => .pure ⟨_, rfl, ?_⟩
    simp [Expr.same, same, Ident.same, eq]
  cases access with
  | dot =>
    refine .bind (accept_present (by simp)) fun dot eq => ?_
    rw [eq, if_pos rfl]
    exact named
  | arrow =>
    refine .bind (accept_absent (by simp [MemberAccess.punct])) fun dot eq => ?_
    rw [eq, if_neg (by simp)]
    refine .bind (accept_present (by simp)) fun arrow eq => ?_
    rw [eq, if_pos rfl]
    exact named

theorem readsOperand_index (node : Node) {target i : Expr} (ht : ReadsOperand target)
    (hi : ReadsOperand i) : ReadsOperand (.index node target i) := by
  refine readsOperand_selection
    (.punct .openBracket :: (Ink.tokensOf i.ink ++ [.punct .closeBracket])) ht ?_ (by simp)
    fun n c rest start target' more same length => ?_
  · rw [Expr.ink, Ink.tokensOf_append, Ink.tokensOf_append, List.append_assoc]
    rfl
  rw [List.cons_append, List.append_assoc] at length ⊢
  refine .bind (accept_absent (by simp)) fun dot eq => ?_
  rw [eq, if_neg (by simp)]
  refine .bind (accept_absent (by simp)) fun arrow eq => ?_
  rw [eq, if_neg (by simp)]
  refine .bind (accept_present (by simp)) fun bracket eq => ?_
  rw [eq, if_pos rfl]
  refine .bind (hi.nested (endsExpression_closer (by simp)) (Nat.le_of_succ_le_succ length))
    fun i' sameI => ?_
  refine .bind (expectPunct_reads more) fun _ _ => ?_
  refine .bind (nodeFrom_reads start) fun _ _ => .pure ⟨_, rfl, ?_⟩
  simp [Expr.same, same, sameI]

theorem readsOperand_call (node : Node) {callee : Expr} {args : List Expr}
    (hc : ReadsOperand callee) (reads : ∀ e ∈ args, ReadsOperand e) :
    ReadsOperand (.call node callee args) := by
  refine readsOperand_selection (.punct .openParen ::
    (Ink.tokensOf (Ink.commas (Expr.inkAll args)) ++ [.punct .closeParen])) hc ?_ (by simp)
    fun n c rest start callee' more same length => ?_
  · rw [Expr.ink, Ink.tokensOf_append, Ink.enclosed, Ink.tokensOf_append]
    rfl
  rw [List.cons_append, List.append_assoc] at length ⊢
  refine .bind (accept_absent (by simp)) fun dot eq => ?_
  rw [eq, if_neg (by simp)]
  refine .bind (accept_absent (by simp)) fun arrow eq => ?_
  rw [eq, if_neg (by simp)]
  refine .bind (accept_absent (by simp)) fun bracket eq => ?_
  rw [eq, if_neg (by simp)]
  refine .bind (accept_present (by simp)) fun paren eq => ?_
  rw [eq, if_pos rfl]
  refine .bind (elems_reads reads (by simp) more (Nat.le_of_succ_le_succ length)) fun args' all => ?_
  refine .bind (nodeFrom_reads start) fun _ _ => .pure ⟨_, rfl, ?_⟩
  simp [Expr.same, same, all]

/-! ## All operands -/

/-- What the parser makes sure of at a node inside an expression. -/
def operandHere (e : Expr) : Bool := e.soundHere && !e.isAssignment

mutual

theorem reads_operand : ∀ e : Expr, e.all operandHere = true → ReadsOperand e
  | .ident _ name, _ => by
    refine readsOperand_of_primary fun n c rest more _ => ?_
    refine .bind here_reads fun start _ => .bind kind_reads fun kind eq => ?_
    subst eq
    refine .bind (expectIdent_reads more) fun name' eq => ?_
    refine .bind (nodeFrom_reads start) fun _ _ => .pure ?_
    simp [Expr.same, Ident.same, eq]
  | .this _, _ => by
    refine readsOperand_of_primary fun n c rest more _ => ?_
    refine .bind here_reads fun start _ => .bind kind_reads fun kind eq => ?_
    subst eq
    refine .bind (bump_reads (by simp) more) fun _ _ => ?_
    exact .bind (nodeFrom_reads start) fun _ _ => .pure rfl
  | .literal n value, _ => readsOperand_literal n value
  | .list n elems, h => by
    simp only [Expr.all, Bool.and_eq_true] at h
    exact readsOperand_list n (reads_operands elems h.2)
  | .keymap n pairs, h => by
    simp only [Expr.all, Bool.and_eq_true] at h
    exact readsOperand_keymap n (reads_pairs pairs h.2)
  | .binary n op lhs rhs, h => by
    simp only [Expr.all, Bool.and_eq_true] at h
    exact readsOperand_binary n op (reads_operand lhs h.1.2) (reads_operand rhs h.2)
  | .unary n op operand, h => by
    simp only [Expr.all, Bool.and_eq_true] at h
    exact readsOperand_unary n op (reads_operand operand h.2)
  | .new n type, h => by
    simp only [Expr.all, operandHere, Bool.and_eq_true] at h
    exact readsOperand_new n h.1
  | .member n target access name, h => by
    simp only [Expr.all, Bool.and_eq_true] at h
    exact readsOperand_member n access name (reads_operand target h.2)
  | .index n target i, h => by
    simp only [Expr.all, Bool.and_eq_true] at h
    exact readsOperand_index n (reads_operand target h.1.2) (reads_operand i h.2)
  | .call n callee args, h => by
    simp only [Expr.all, Bool.and_eq_true] at h
    exact readsOperand_call n (reads_operand callee h.1.2) (reads_operands args h.2)
  | .assign .., h => by simp [Expr.all, operandHere, Expr.isAssignment] at h

theorem reads_operands : ∀ es : List Expr, Expr.allOf operandHere es = true →
    ∀ e ∈ es, ReadsOperand e
  | [], _ => by simp
  | e :: rest, h => by
    rw [Expr.allOf, Bool.and_eq_true] at h
    exact List.forall_mem_cons.2 ⟨reads_operand e h.1, reads_operands rest h.2⟩

theorem reads_pairs : ∀ pairs : List KeymapPair, Expr.allPairs operandHere pairs = true →
    ∀ pair ∈ pairs, ReadsOperand pair.key ∧ ReadsOperand pair.value
  | [], _ => by simp
  | .mk _ key value :: rest, h => by
    rw [Expr.allPairs, Bool.and_eq_true, Bool.and_eq_true] at h
    refine List.forall_mem_cons.2 ⟨⟨?_, ?_⟩, reads_pairs rest h.2⟩
    · exact reads_operand key h.1.1
    · exact reads_operand value h.1.2

end

/-! ## Assignments -/

theorem endsOperation_assign (kind : AssignKind) : EndsOperation (.punct kind.punct) := by
  have operators : ∀ op ∈ BinaryOp.all, op.token ≠ .punct .colonEq ∧ op.token ≠ .punct .eq := by
    decide
  cases kind with
  | value => exact ⟨fun op => (operators op op.mem_all).1, by unfold NoSelector; decide⟩
  | reference => exact ⟨fun op => (operators op op.mem_all).2, by unfold NoSelector; decide⟩

theorem takePunctOf?_assign (kind : AssignKind) (more : ks ≠ []) :
    Reads c (takePunctOf? assignmentPuncts) (.punct kind.punct :: ks) ks
      fun found => ∃ span, found = some (kind.punct, span) := by
  have mem : assignmentPuncts.contains kind.punct = true := by cases kind <;> decide
  refine .bind kind_reads fun k eq => ?_
  subst eq
  dsimp only
  rw [if_pos mem]
  exact .bind (bump_reads (by simp) more) fun _ _ => .pure ⟨_, rfl⟩

theorem storedValue_reads (kind : AssignKind) (target value : Expr) :
    Reads c (storedValue kind.punct target value) ks ks (· = (kind, value)) := by
  cases kind <;> exact .pure rfl

theorem assignment_of_value {expr : Parser Expr} {node : Node} {kind : AssignKind}
    {target value : Expr} {middle : List TokenKind} (outer : c.inExpression = false)
    (place : target.isAssignable = true)
    (ht : Reads c (operation (inside expr)) (Ink.tokensOf target.ink ++ .punct kind.punct :: middle)
      (.punct kind.punct :: middle) (target.same · = true))
    (hv : Reads c expr middle (k :: ks) (value.same · = true)) (more : middle ≠ []) :
    Reads c (assignment expr) (Ink.tokensOf target.ink ++ .punct kind.punct :: middle) (k :: ks)
      ((Expr.assign node kind target value).same · = true) := by
  refine .bind ht fun target' same => .bind (takePunctOf?_assign kind more) fun found some_ => ?_
  obtain ⟨span, rfl⟩ := some_
  refine .bind context_reads fun inner eq => ?_
  subst eq
  rw [if_neg (by simp [outer])]
  have place' : target'.isAssignable = true := (Expr.isAssignable_of_same same).trans place
  rw [if_neg (by simp [place'])]
  refine .bind hv fun value' sameValue => ?_
  refine .bind (storedValue_reads kind target' value') fun stored eq => ?_
  subst eq
  refine .bind (newNode_reads _) fun _ _ => .pure ?_
  simp [Expr.same, same, sameValue]

theorem readsOperand_of_sound {e : Expr} (sound : e.isSound = true)
    (alone : (e.all fun e => !e.isAssignment) = true) : ReadsOperand e := by
  refine reads_operand e ?_
  unfold operandHere
  rw [Expr.all_and, alone, Bool.and_true]
  exact sound

/-- A whole expression is read with as much fuel as there are tokens. -/
theorem assignment_reads {e : Expr} (sound : e.isSound = true) (root : e.assignsAtRoot = true)
    (ends : EndsExpression k) (outer : c.inExpression = false) {n : Nat}
    (length : (Ink.tokensOf e.ink ++ k :: ks).length ≤ n) :
    Reads c (iterate assignment n) (Ink.tokensOf e.ink ++ k :: ks) (k :: ks)
      (e.same · = true) := by
  -- The induction goes through the values of assignments, each of which is a whole expression.
  induction e using Expr.assignsAtRoot.induct generalizing n with
  | case1 node kind target value ih =>
    simp only [Expr.isSound, Expr.all, Expr.soundHere, Bool.and_eq_true] at sound
    simp only [Expr.assignsAtRoot, Bool.and_eq_true] at root
    have operand : ReadsOperand target := readsOperand_of_sound sound.1.2 root.1
    have tokens : Ink.tokensOf (Expr.assign node kind target value).ink ++ k :: ks =
        Ink.tokensOf target.ink ++ .punct kind.punct :: (Ink.tokensOf value.ink ++ k :: ks) := by
      rw [Expr.ink, Ink.tokensOf_append, List.append_assoc]
      rfl
    rw [tokens] at length ⊢
    refine .iterate (by simp) length fun m length => ?_
    have shorter : (Ink.tokensOf value.ink ++ k :: ks).length ≤ m := by
      rw [List.length_append, List.length_cons] at length
      omega
    exact assignment_of_value outer sound.1.1 (operand.operation (endsOperation_assign kind) length)
      (ih sound.2 root.2 shorter) (by simp)
  | case2 e other =>
    have alone : e.isAssignment = false := by
      cases e <;> first | rfl | exact absurd rfl (other _ _ _ _)
    rw [Expr.assignsAtRoot_of_operation alone] at root
    refine .iterate (by simp) length fun m length => assignment_of_operation ends ?_
    exact (readsOperand_of_sound sound root).operation ends.toEndsOperation length

theorem expression_reads {e : Expr} (sound : e.isSound = true) (root : e.assignsAtRoot = true)
    (ends : EndsExpression k) (outer : c.inExpression = false) :
    Reads c expression (Ink.tokensOf e.ink ++ k :: ks) (k :: ks) (e.same · = true) :=
  .recursive (assignment_reads sound root ends outer (Nat.le_refl _))

end Parser

end ClassLang
