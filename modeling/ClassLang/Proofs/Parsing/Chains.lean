import ClassLang.Proofs.Parsing.ExprNumbering
import ClassLang.Proofs.Parsing.ExprProlonging
import ClassLang.Proofs.Parsing.Reports
import ClassLang.Proofs.Parsing.Termination

/-!
Chains of comparisons. The operands are whatever is read on its own at the next tighter level. What
is read is the conjunction of the comparisons of neighbours, grouped to the right; an operand
between two operators stands in the tree twice, with other numbers each time.

* `chain_conjoins`: the tree of a chain, and its value if `and` means conjunction.
-/

namespace ClassLang

namespace Expr

/-- The tree of a chain of comparisons. -/
def chain (lhs : Expr) (op : BinaryOp) (rhs : Expr) : List (BinaryOp × Expr) → Expr
  | [] => binary default op lhs rhs
  | (next, further) :: rest =>
    binary default .and (binary default op lhs rhs) (chain rhs next further rest)

/-- The comparisons of neighbours in a chain. -/
def neighbours : Expr → List (BinaryOp × Expr) → List Expr
  | _, [] => []
  | lhs, (op, rhs) :: rest => binary default op lhs rhs :: neighbours rhs rest

/-- A tree is the chain of some operands. Of an operand between two operators there are a first and
a second occurrence, which are related in some way. -/
inductive Chained (related : Expr → Expr → Prop) : Expr → List (BinaryOp × Expr) → Expr → Prop where
  | last {lhs rhs : Expr} {op : BinaryOp} (n : Node) :
      Chained related lhs [(op, rhs)] (binary n op lhs rhs)
  | more {lhs rhs again tree : Expr} {op : BinaryOp} {rest : List (BinaryOp × Expr)} (n m : Node) :
      related rhs again → Chained related again rest tree →
      Chained related lhs ((op, rhs) :: rest) (binary n .and (binary m op lhs rhs) tree)

/-- A copy with new numbers. -/
def CopyOf (e copy : Expr) : Prop := ∃ n, copy = (e.renumber n).1

/-- Equal, and without a common number. -/
def Twins (a b : Expr) : Prop := a.same b = true ∧ Apart a.nodes b.nodes

namespace Chained

variable {related : Expr → Expr → Prop} {lhs tree : Expr} {read : List (BinaryOp × Expr)}

theorem first_subset (h : Chained related lhs read tree) : lhs.nodes ⊆ tree.nodes := by
  cases h with
  | last n => simp [nodes]
  | more n m =>
    intro node below
    simp [nodes, below]

/-- In a tree without repeated numbers the occurrences of an operand are apart. -/
theorem twins (h : Chained CopyOf lhs read tree) (distinct : Distinct tree.nodes) :
    Chained Twins lhs read tree := by
  induction h with
  | last n => exact .last n
  | @more lhs rhs again tree op rest n m copy chain ih =>
    have parts : Distinct ((m :: (lhs.nodes ++ rhs.nodes)) ++ tree.nodes) := distinct.below
    have apart : Apart rhs.nodes again.nodes :=
      parts.apart.mono (by simp) chain.first_subset
    obtain ⟨next, rfl⟩ := copy
    exact .more n m ⟨by rw [same_renumber, same_refl], apart⟩ (ih parts.right)

/-- The tree of a chain is made of its operands, up to numbers and places. -/
theorem same (h : Chained CopyOf lhs read tree) : ∀ {e second : Expr} {op : BinaryOp}
    {rest : List (BinaryOp × Expr)}, e.same lhs = true →
    List.Forall₂ (Parser.ReadAs fun e r => e.same r = true) ((op, second) :: rest) read →
    (chain e op second rest).same tree = true := by
  induction h with
  | last n =>
    intro e second op rest left others
    cases others with
    | cons first others =>
      cases others
      obtain ⟨rfl, right⟩ := first
      simp [chain, Expr.same, left, right]
  | more n m copy chained ih =>
    intro e second op rest left others
    obtain ⟨next, rfl⟩ := copy
    cases others with
    | cons first others =>
      obtain ⟨rfl, right⟩ := first
      cases rest with
      | nil =>
        cases others
        cases chained
      | cons item rest =>
        have shared := (same_renumber second _ next).trans right
        simp [chain, Expr.same, left, right, ih shared others]

end Chained

/-- If `and` means conjunction, a chain means that all its comparisons hold. -/
theorem value_chain {value : Expr → Bool}
    (conj : ∀ n a b, value (binary n .and a b) = (value a && value b)) (lhs : Expr) (op : BinaryOp)
    (rhs : Expr) (rest : List (BinaryOp × Expr)) :
    value (chain lhs op rhs rest) = (neighbours lhs ((op, rhs) :: rest)).all value := by
  induction rest generalizing lhs op rhs with
  | nil => simp [chain, neighbours]
  | cons item rest ih => rw [chain, conj, ih]; rfl

end Expr

namespace Parser

variable {c : Context} {k : TokenKind} {ks before : List TokenKind} {ops : List BinaryOp}
  {operand : Parser Expr} {tighter looser : List Level}

/-! ## One level -/

inductive Compared : Expr → List (BinaryOp × Expr) → List Expr → Prop where
  | nil {lhs : Expr} : Compared lhs [] []
  | cons {lhs rhs again : Expr} {op : BinaryOp} {rest : List (BinaryOp × Expr)}
      {comparisons : List Expr} (n : Node) : rhs.CopyOf again → Compared again rest comparisons →
      Compared lhs ((op, rhs) :: rest) (.binary n op lhs rhs :: comparisons)

theorem comparisons_reads (rest : List (BinaryOp × Expr)) :
    ∀ lhs, Reads c (comparisons lhs rest) ks ks (Compared lhs rest) := by
  induction rest with
  | nil => exact fun _ => .pure .nil
  | cons item rest ih =>
    intro lhs
    obtain ⟨op, rhs⟩ := item
    have shared : Reads c (freshCopy rhs) ks ks rhs.CopyOf :=
      .still fun s => ⟨_, _, rfl, rfl, ⟨rfl, rfl⟩, s.nextId, rfl⟩
    have compared : Reads c (binaryNode op lhs rhs) ks ks fun e => ∃ n, e = .binary n op lhs rhs :=
      .bind (newNode_reads _) fun n _ => .pure ⟨n, rfl⟩
    refine .bind shared fun again copy => .bind compared fun e eq =>
      .bind (ih again) fun others holds => .pure ?_
    obtain ⟨n, rfl⟩ := eq
    exact .cons n copy holds

theorem conjunction_reads {rest : List (BinaryOp × Expr)} {comparisons : List Expr} :
    ∀ {lhs first : Expr}, Compared lhs rest (first :: comparisons) →
      Reads c (conjunction first comparisons) ks ks (Expr.Chained Expr.CopyOf lhs rest) := by
  induction comparisons generalizing rest with
  | nil =>
    intro lhs first h
    cases h with
    | cons n copy others =>
      cases others
      exact .pure (.last n)
  | cons second comparisons ih =>
    intro lhs first h
    cases h with
    | cons m copy others =>
      exact .bind (ih others) fun tree chained => .bind (newNode_reads _) fun n _ =>
        .pure (.more n m copy chained)

variable {ι : Type} {tokens : ι → List TokenKind} {fits : ι → Expr → Prop} {good : Expr → Prop}
  {items : List (BinaryOp × ι)}

theorem chain_reads (more : items ≠ []) (none_ : NoneOf ops k)
    (first : Reads c operand before (joined tokens items ++ k :: ks) good)
    (each : ∀ item ∈ items, item.1 ∈ ops ∧
      ∀ next rest, (next = k ∨ ∃ op ∈ ops, next = op.token) →
        Reads c operand (tokens item.2 ++ next :: rest) (next :: rest) (fits item.2)) :
    Reads c (chain ops operand) before (k :: ks) fun tree => ∃ lhs read, good lhs ∧
      List.Forall₂ (ReadAs fits) items read ∧ Expr.Chained Expr.CopyOf lhs read tree := by
  refine .bind first fun lhs left => .bind (operations_reads none_ each) fun read others =>
    .bind (comparisons_reads read lhs) fun compared chain => ?_
  cases compared with
  | nil =>
    cases chain
    cases others
    exact (more rfl).elim
  | cons comparison rest =>
    exact Reads.mono (conjunction_reads chain) fun tree chained =>
      ⟨lhs, read, left, others, chained⟩

/-! ## Operands -/

/-- Tokens that are read on their own as an operand, given the levels that it may have operators
of. -/
structure Operand (tighter : List Level) where
  tokens : List Token
  source : Span
  expr : Expr
  inside : ∀ token ∈ tokens, token.kind ≠ .eof
  parses : (operandOf tighter nestedExpression).runToEnd tokens source = .ok expr

/-- What the tokens of an operand are. -/
def Operand.kinds (o : Operand tighter) : List TokenKind := o.tokens.map Token.kind

theorem endTokens_of_inside {tokens : List Token} {source : Span}
    (inside : ∀ token ∈ tokens, token.kind ≠ .eof) :
    endTokens tokens source = tokens ++ [Token.endOf source] := by
  unfold endTokens
  split
  · next last final => rw [if_neg (inside last (List.mem_of_getLast? final))]
  · next none_ => rw [List.getLast?_eq_none_iff.1 none_, List.nil_append]

theorem separates_eof (ops : List BinaryOp) : Separates ops .eof where
  operator op _ := op.token_ne_eof
  selector := endsExpression_eof.selector
  sign := rfl
  negation := rfl
  name := nofun
  word := nofun
  mark := nofun

theorem separates_of_family {op : BinaryOp} {ops : List BinaryOp}
    (family : op.family = .comparison) (other : op ∉ ops) : Separates ops op.token := by
  have marks : sign? op.token = none ∧ negation? op.token = none ∧
      (∀ name, op.token ≠ .ident name) ∧ (∀ word, op.token ≠ .keyword word) ∧
      ∀ p ∈ [Punct.comma, .closeParen, .closeBracket, .closeBrace], op.token ≠ .punct p := by
    cases op with
    | eq | ne | lt | le | gt | ge => exact ⟨rfl, rfl, nofun, nofun, by decide⟩
    | _ => cases family
  obtain ⟨sign, negation, name, word, mark⟩ := marks
  refine ⟨fun same mem eq => other ?_, noSelector_operator op, sign, negation, name, word, mark⟩
  rwa [← BinaryOp.token_injective eq]

/-- A comparison separates what has only tighter operators. -/
theorem separates_comparison {op : BinaryOp} (split : levels = looser ++ .chain ops :: tighter)
    (mem : op ∈ ops) : Separates (.pow :: opsOf tighter) op.token := by
  have family : op.family = .comparison :=
    levels_chainsComparisons (.chain ops) (by simp [split]) op mem
  have once : (opsOf levels).Nodup := levels_nodup
  rw [split, opsOf, List.flatMap_append, List.flatMap_cons] at once
  have apart := (List.nodup_append.1 (List.nodup_append.1 once).2.1).2.2
  refine separates_of_family family fun listed => ?_
  rcases List.mem_cons.1 listed with rfl | tight
  · cases family
  · exact apart op mem op tight rfl

theorem operandOf_composed (tighter : List Level) {aside : Bool} :
    Composed aside (operandOf tighter nestedExpression) :=
  binary_composed _ (unary_composed _ (power_composed (unary_composed _
    (allocation_composed nestedExpression_composed))))

theorem start_kinds_of {tokens : List Token} {source : Span} {kinds : List TokenKind}
    (h : (endTokens tokens source).map Token.kind = kinds) :
    (ParserState.start tokens source).kinds = kinds := by
  rw [ParserState.kinds, ParserState.start, Cursor.ofTokens_tokens, h]

/-- What is read on its own is read as well in front of what separates it. -/
theorem Operand.reads (o : Operand tighter) (apart : Separates (.pow :: opsOf tighter) k) :
    Reads .global (operandOf tighter nestedExpression) (o.kinds ++ k :: ks) (k :: ks)
      (o.expr.same · = true) := by
  intro s kinds
  obtain ⟨alone, run, ended⟩ := runToEnd_eq_ok.1 o.parses
  have start : Prolonged k ks { ParserState.start o.tokens o.source with context := .global }
      { s with context := .global } := by
    refine ⟨⟨o.kinds, fun mem => ?_, ?_, kinds⟩, rfl⟩
    · obtain ⟨token, listed, eq⟩ := List.mem_map.1 mem
      exact o.inside token listed eq
    · refine start_kinds_of ?_
      rw [endTokens_of_inside o.inside, List.map_append]
      rfl
  have follows : Follows k ks true (operandOf tighter nestedExpression)
      (operandOf tighter nestedExpression) :=
    operandOf_follows (fun _ => apart) nestedExpression_follows
  obtain ⟨e, t, run', after, same⟩ := follows.follows trivial start run nofun
  have context := ((operandOf_composed tighter).reportsOnce { s with context := .global }).2
  have shelf := (operandOf_composed tighter).shelf_eq { s with context := .global }
  have last : t = ((operandOf tighter nestedExpression).run { s with context := .global }).2 := by
    rw [run']
  rw [← last] at context shelf
  exact ⟨e, t, run', after.kinds_of_end ended, ⟨context, Prod.ext shelf.1 shelf.2⟩, same⟩

/-! ## Chains -/

theorem expression_unfolds (s : ParserState) (ended : s.cursor.Ended) :
    expression.run s = (assignment expression).run s := by
  have left : Left (s.cursor.remaining + 1) s.cursor := ⟨ended, Nat.lt_succ_self _⟩
  unfold expression
  exact unfold_run (fun _ _ _ _ => assignment_consuming) left

theorem expression_distinct {tokens : List Token} {source : Span} {e : Expr}
    (parsed : expression.runToEnd tokens source = .ok e) : Distinct e.nodes := by
  obtain ⟨s, run, -⟩ := runToEnd_eq_ok.1 parsed
  refine List.nodup_iff_count_le_one.2 fun i => ?_
  have begins : (ParserState.start tokens source).claims i ≤ 1 := stillFree_le_one i 0
  have kept := expression_conserves i 1 _ e s run (by simpa [ParserState.claims] using begins)
  exact Nat.le_trans (Nat.le_add_right _ _) kept

theorem binary_append (ls more : List Level) (operand : Parser Expr) :
    binary (ls ++ more) operand = binary ls (binary more operand) := by
  induction ls with
  | nil => rfl
  | cons l ls ih => rw [List.cons_append, binary, binary, ih]

theorem assignment_reads_chain (split : levels = looser ++ .chain ops :: tighter)
    {first : Operand tighter} {items : List (BinaryOp × Operand tighter)} (more : items ≠ [])
    (mem : ∀ item ∈ items, item.1 ∈ ops) :
    Reads .global (assignment expression)
      (first.kinds ++ joined Operand.kinds items ++ [.eof]) [.eof] fun tree => ∃ lhs read,
        first.expr.same lhs = true ∧
        List.Forall₂ (ReadAs fun o e => o.expr.same e = true) items read ∧
        Expr.Chained Expr.CopyOf lhs read tree := by
  have none_ (ops : List BinaryOp) : NoneOf ops .eof := fun op _ => op.token_ne_eof
  have separates {next : TokenKind} (goes : next = .eof ∨ ∃ op ∈ ops, next = op.token) :
      Separates (.pow :: opsOf tighter) next := by
    obtain rfl | ⟨op, listed, rfl⟩ := goes
    · exact separates_eof _
    · exact separates_comparison split listed
  have head : Reads .global (operandOf tighter nestedExpression)
      (first.kinds ++ joined Operand.kinds items ++ [.eof]) (joined Operand.kinds items ++ [.eof])
      (first.expr.same · = true) := by
    cases items with
    | nil => exact (more rfl).elim
    | cons item items =>
      rw [List.append_assoc]
      exact first.reads (separates (.inr ⟨item.1, mem item (by simp), rfl⟩))
  refine assignment_of_operation endsExpression_eof ?_
  rw [operation, split, binary_append]
  refine binary_one looser (none_ _) (chain_reads more (none_ _) head fun item listed => ?_)
  exact ⟨mem item listed, fun _ _ goes => item.2.reads (separates goes)⟩

/-- A chain of comparisons is read as the conjunction of the comparisons of neighbours. -/
theorem chain_conjoins (split : levels = looser ++ .chain ops :: tighter)
    (first second : Operand tighter) (op : BinaryOp) (others : List (BinaryOp × Operand tighter))
    (mem : ∀ item ∈ (op, second) :: others, item.1 ∈ ops) (tokens : List Token) (source : Span)
    (kinds : (endTokens tokens source).map Token.kind =
      first.kinds ++ joined Operand.kinds ((op, second) :: others) ++ [.eof]) :
    ∃ tree lhs read, expression.runToEnd tokens source = .ok tree ∧
      (Expr.chain first.expr op second.expr (others.map (Prod.map id Operand.expr))).same tree =
        true ∧
      (first.expr.same lhs = true ∧
        List.Forall₂ (ReadAs fun o e => o.expr.same e = true) ((op, second) :: others) read ∧
        Expr.Chained Expr.Twins lhs read tree) ∧
      ∀ value : Expr → Bool, (∀ a b, a.same b = true → value a = value b) →
        (∀ n a b, value (.binary n .and a b) = (value a && value b)) →
        value tree = (Expr.neighbours first.expr
          (((op, second) :: others).map (Prod.map id Operand.expr))).all value := by
  have start := start_kinds_of kinds
  obtain ⟨tree, t, run, left, -, lhs, read, hl, hr, chained⟩ :=
    assignment_reads_chain split (List.cons_ne_nil _ _) mem (ParserState.start tokens source) start
  have unfolded : expression .global (.start tokens source) =
      (assignment expression) .global (.start tokens source) :=
    expression_unfolds _ (ofTokens_ended tokens source)
  have parsed : expression.runToEnd tokens source = .ok tree := by
    refine runToEnd_eq_ok.2 ⟨t, unfolded.trans run, ?_⟩
    rw [Cursor.isAtEnd, (kinds_cons left).1]
    rfl
  have pairs : List.Forall₂ (ReadAs fun e r => e.same r = true)
      (((op, second) :: others).map (Prod.map id Operand.expr)) read :=
    List.forall₂_map_left_iff.2 hr
  have made := chained.same hl pairs
  refine ⟨tree, lhs, read, parsed, made, ⟨hl, hr, chained.twins (expression_distinct parsed)⟩,
    fun value respects conj => ?_⟩
  rw [← respects _ _ made]
  exact Expr.value_chain conj _ _ _ _

/-- A token at no place in particular. -/
def bareToken (kind : TokenKind) : Token := ⟨kind, "", ⟨0, 0⟩⟩

theorem exists_operand {kinds : List TokenKind} (inside : .eof ∉ kinds)
    (reads : ((operandOf tighter nestedExpression).runToEnd (kinds.map bareToken)
      ⟨0, 0⟩).toOption.isSome = true) : ∃ o : Operand tighter, o.kinds = kinds := by
  have kind_eq : (kinds.map bareToken).map Token.kind = kinds :=
    List.map_map.trans (List.map_id kinds)
  obtain ⟨e, some_⟩ := Option.isSome_iff_exists.1 reads
  refine ⟨⟨kinds.map bareToken, ⟨0, 0⟩, e, fun token listed eq => inside ?_, ok_of_toOption some_⟩,
    kind_eq⟩
  rw [← kind_eq, ← eq]
  exact List.mem_map_of_mem listed

-- An equality of a name, a chain with a call in it, and a keymap.
theorem equality_of_chains : ∃ tokens tree lhs read,
    (⟨"a == b < f(c) <= d != \x7bk: v\x7d", none⟩ : Source).tokens = .ok tokens ∧
      expression.runToEnd tokens ⟨0, 28⟩ = .ok tree ∧ Expr.Chained Expr.Twins lhs read tree ∧
      read.length = 2 := by
  have split : levels = levels.take 6 ++ .chain [.eq, .ne] :: levels.drop 7 := rfl
  obtain ⟨a, ha⟩ : ∃ o : Operand (levels.drop 7), o.kinds = [.ident "a"] :=
    exists_operand (by decide) (by decide +kernel)
  obtain ⟨b, hb⟩ : ∃ o : Operand (levels.drop 7), o.kinds = [.ident "b", .punct .lt, .ident "f",
      .punct .openParen, .ident "c", .punct .closeParen, .punct .le, .ident "d"] :=
    exists_operand (by decide) (by decide +kernel)
  obtain ⟨d, hd⟩ : ∃ o : Operand (levels.drop 7), o.kinds = [.punct .openBrace, .ident "k",
      .punct .colon, .ident "v", .punct .closeBrace] :=
    exists_operand (by decide) (by decide +kernel)
  have lexed : ((⟨"a == b < f(c) <= d != \x7bk: v\x7d", none⟩ : Source).tokens).toOption.map
      (fun tokens => (endTokens tokens ⟨0, 28⟩).map Token.kind) = some (a.kinds ++
        joined Operand.kinds [(.eq, b), (.ne, d)] ++ [.eof]) := by
    simp only [joined, List.flatMap_cons, List.flatMap_nil, ha, hb, hd]
    decide +kernel
  obtain ⟨tokens, some_, kinds⟩ := Option.map_eq_some_iff.1 lexed
  obtain ⟨tree, lhs, read, parsed, -, ⟨-, pairs, chained⟩, -⟩ :=
    chain_conjoins split a b .eq [(.ne, d)] (by simp) tokens ⟨0, 28⟩ kinds
  exact ⟨tokens, tree, lhs, read, ok_of_toOption some_, parsed, chained, pairs.length_eq.symm⟩

end Parser

end ClassLang
