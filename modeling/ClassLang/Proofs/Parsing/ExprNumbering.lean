import ClassLang.Proofs.Parsing.Conservation

/-!
Parsing an expression multiplies no number. The parts that a comparison chain or a compound
assignment uses twice are paid for by the fresh numbers of the copies.
-/

namespace ClassLang.Parser

theorem binaryNode_conserves (i : Nat) (op : BinaryOp) (lhs rhs : Expr) :
    Conserves i (copies i lhs.nodes + copies i rhs.nodes) Expr.nodes (binaryNode op lhs rhs) := by
  refine .issue (newNode_conserves i _) fun n => .pure ?_
  rw [Expr.nodes, copies_cons, copies_append]
  omega

theorem unaryNode_conserves (i : Nat) (op : UnaryOp) (start : Span) (operand : Expr) :
    Conserves i (copies i operand.nodes) Expr.nodes (unaryNode op start operand) := by
  refine .issue (nodeFrom_conserves i start) fun n => .pure ?_
  rw [Expr.nodes, copies_cons]
  omega

theorem leftAssoc_conserves {i : Nat} {next : Parser Expr} (ops : List BinaryOp)
    (h : Conserves i 0 Expr.nodes next) : Conserves i 0 Expr.nodes (leftAssoc ops next) := by
  refine .issue h fun first => ?_
  refine (Conserves.repeatFrom Expr.nodes (fun lhs => ?_) first).weaken (by omega)
  refine .silent (operatorOf?_silent ops) fun op => ?_
  split
  · refine .issue h fun rhs => .spend 0 (binaryNode_conserves i _ lhs rhs) (by omega) fun e => ?_
    exact .pure (by simp)
  · exact .pure (by simp)

def operandNodes (operations : List (BinaryOp × Expr)) : List Node :=
  operations.flatMap fun operation => operation.2.nodes

theorem operations_conserves {i : Nat} {next : Parser Expr} (ops : List BinaryOp)
    (h : Conserves i 0 Expr.nodes next) : Conserves i 0 operandNodes (operations ops next) := by
  refine Conserves.repeatFrom operandNodes (fun read => ?_) []
  refine .silent (operatorOf?_silent ops) fun op => ?_
  split
  · refine .issue h fun rhs => .pure ?_
    simp only [Sum.elim_inl, operandNodes, List.flatMap_cons, copies_append]
    omega
  · exact .pure (Nat.le_of_eq (copies_flatMap_reverse i read _))

def comparedNodes (lhs : Expr) : List Expr → List Node
  | [] => lhs.nodes
  | comparison :: rest => comparison.nodes ++ rest.flatMap Expr.nodes

theorem copies_flatMap_le_comparedNodes (i : Nat) (lhs : Expr) (all : List Expr) :
    copies i (all.flatMap Expr.nodes) ≤ copies i (comparedNodes lhs all) := by
  cases all with
  | nil => simp
  | cons comparison rest => exact Nat.le_refl _

theorem comparisons_conserves (i : Nat) : ∀ (operations : List (BinaryOp × Expr)) (lhs : Expr),
    Conserves i (copies i lhs.nodes + copies i (operandNodes operations)) (comparedNodes lhs)
      (comparisons lhs operations)
  | [], lhs => .pure (Nat.le_add_right _ _)
  | (op, rhs) :: rest, lhs => by
    refine .issue (freshCopy_conserves i rhs) fun shared => ?_
    simp only [operandNodes, List.flatMap_cons, copies_append]
    refine .spend (copies i (operandNodes rest) + copies i shared.nodes)
      (binaryNode_conserves i op lhs rhs) (by simp only [operandNodes]; omega) fun comparison => ?_
    refine .spend (copies i comparison.nodes) (comparisons_conserves i rest shared) (by omega)
      fun others => .pure ?_
    have lower := copies_flatMap_le_comparedNodes i shared others
    rw [comparedNodes, copies_append]
    omega

theorem conjunction_conserves (i : Nat) : ∀ (others : List Expr) (first : Expr),
    Conserves i (copies i first.nodes + copies i (others.flatMap Expr.nodes)) Expr.nodes
      (conjunction first others)
  | [], first => .pure (by omega)
  | second :: rest, first => by
    rw [List.flatMap_cons, copies_append]
    refine .spend (copies i first.nodes) (conjunction_conserves i rest second) (by omega)
      fun others => ?_
    exact (binaryNode_conserves i .and first others).weaken (by omega)

theorem chain_conserves {i : Nat} {next : Parser Expr} (ops : List BinaryOp)
    (h : Conserves i 0 Expr.nodes next) : Conserves i 0 Expr.nodes (chain ops next) := by
  refine .issue h fun first => .issue (operations_conserves ops h) fun others => ?_
  refine .spend 0 (comparisons_conserves i others first) (by omega) fun all => ?_
  split
  · exact .pure (by simp [comparedNodes])
  · refine (conjunction_conserves i _ _).weaken ?_
    simp [comparedNodes]

theorem binary_conserves {i : Nat} {operand : Parser Expr} (h : Conserves i 0 Expr.nodes operand) :
    ∀ ls : List Level, Conserves i 0 Expr.nodes (binary ls operand)
  | [] => h
  | .leftAssoc ops :: tighter => leftAssoc_conserves ops (binary_conserves h tighter)
  | .chain ops :: tighter => chain_conserves ops (binary_conserves h tighter)

theorem applyUnary_conserves (i : Nat) (operand : Expr) : ∀ ops : List (UnaryOp × Span),
    Conserves i (copies i operand.nodes) Expr.nodes (applyUnary operand ops)
  | [] => .pure (Nat.le_refl _)
  | (op, start) :: inner => by
    refine .spend 0 (applyUnary_conserves i operand inner) (by omega) fun applied => ?_
    exact (unaryNode_conserves i op start applied).weaken (by omega)

theorem unary_conserves {i : Nat} {operand : Parser Expr} (op? : TokenKind → Option UnaryOp)
    (h : Conserves i 0 Expr.nodes operand) : Conserves i 0 Expr.nodes (unary op? operand) := by
  refine .silent (unaryOps_silent op?) fun ops => .issue h fun e => ?_
  exact (applyUnary_conserves i e ops).weaken (by omega)

theorem powerOf_conserves (i : Nat) : ∀ (others : List Expr) (base : Expr),
    Conserves i (copies i base.nodes + copies i (others.flatMap Expr.nodes)) Expr.nodes
      (powerOf base others)
  | [], base => .pure (by omega)
  | second :: rest, base => by
    rw [List.flatMap_cons, copies_append]
    refine .spend (copies i base.nodes) (powerOf_conserves i rest second) (by omega)
      fun exponent => ?_
    exact (binaryNode_conserves i .pow base exponent).weaken (by omega)

theorem power_conserves {i : Nat} {operand : Parser Expr} (h : Conserves i 0 Expr.nodes operand) :
    Conserves i 0 Expr.nodes (power operand) := by
  refine .issue h fun base => .issue (operations_conserves _ h) fun exponents => ?_
  refine (powerOf_conserves i (exponents.map Prod.snd) base).weaken ?_
  simp only [List.flatMap_map, operandNodes]
  omega

theorem keymapPair_conserves {i : Nat} {nested : Parser Expr}
    (h : Conserves i 0 Expr.nodes nested) :
    Conserves i 0 KeymapPair.nodes (keymapPair nested) := by
  refine .silent here_silent fun start => .issue h fun key => .silent (expectPunct_silent _) fun _ =>
    .issue h fun value => .issue (nodeFrom_conserves i start) fun n => .pure ?_
  rw [KeymapPair.nodes, copies_cons, copies_append]
  omega

theorem primary_conserves {i : Nat} {nested : Parser Expr} (h : Conserves i 0 Expr.nodes nested) :
    Conserves i 0 Expr.nodes (primary nested) := by
  refine .silent here_silent fun start => ?_
  have word (make : Node → Expr) (alone : ∀ n, (make n).nodes = [n]) :
      Conserves i 0 Expr.nodes
        (do let _ ← bump; return make (← nodeFrom start) : Parser Expr) := by
    refine .silent bump_silent fun _ => .issue (nodeFrom_conserves i start) fun n => .pure ?_
    rw [alone]
    omega
  refine .silent kind_silent fun kind => ?_
  split
  · refine .silent expectIdent_silent fun name => .issue (nodeFrom_conserves i start) fun n =>
      .pure ?_
    rw [Expr.nodes]
    omega
  · exact word _ fun _ => rfl
  · exact word _ fun _ => rfl
  · exact word _ fun _ => rfl
  · exact word _ fun _ => rfl
  · exact word _ fun _ => rfl
  · exact word _ fun _ => rfl
  · refine .silent bump_silent fun _ => .issue h fun inner => .silent (expectPunct_silent _) fun _ =>
      .pure ?_
    omega
  · refine .silent bump_silent fun _ => .issue (.commaList h) fun elems =>
      .issue (nodeFrom_conserves i start) fun n => .pure ?_
    rw [Expr.nodes, copies_cons, Expr.nodesAll_eq]
    omega
  · refine .silent bump_silent fun _ => .issue (.commaList (keymapPair_conserves h)) fun pairs =>
      .issue (nodeFrom_conserves i start) fun n => .pure ?_
    rw [Expr.nodes, copies_cons, Expr.nodesPairs_eq]
    omega
  · exact .fail
  · exact .fail

theorem postfixStep_conserves {i : Nat} {nested : Parser Expr} (start : Span)
    (h : Conserves i 0 Expr.nodes nested) (target : Expr) :
    Conserves i (copies i target.nodes) (Sum.elim Expr.nodes Expr.nodes)
      (postfixStep nested start target) := by
  have memberOf (access : MemberAccess) : Conserves i (copies i target.nodes)
      (Sum.elim Expr.nodes Expr.nodes)
      (do
        let name ← expectIdent
        return .inl (.member (← nodeFrom start) target access name) : Parser (Expr ⊕ Expr)) := by
    refine .silent expectIdent_silent fun name => .issue (nodeFrom_conserves i start) fun n =>
      .pure ?_
    rw [Sum.elim_inl, Expr.nodes, copies_cons]
    omega
  refine .silent (accept_silent _) fun dot => ?_
  split
  · exact memberOf .dot
  refine .silent (accept_silent _) fun arrow => ?_
  split
  · exact memberOf .arrow
  refine .silent (accept_silent _) fun bracket => ?_
  split
  · refine .issue h fun index => .silent (expectPunct_silent _) fun _ =>
      .issue (nodeFrom_conserves i start) fun n => .pure ?_
    rw [Sum.elim_inl, Expr.nodes, copies_cons, copies_append]
    omega
  refine .silent (accept_silent _) fun paren => ?_
  split
  · refine .issue (.commaList h) fun args => .issue (nodeFrom_conserves i start) fun n => .pure ?_
    rw [Sum.elim_inl, Expr.nodes, copies_cons, copies_append, Expr.nodesAll_eq]
    omega
  · exact .pure (Nat.le_refl _)

theorem postfixed_conserves {i : Nat} {nested : Parser Expr}
    (h : Conserves i 0 Expr.nodes nested) : Conserves i 0 Expr.nodes (postfixed nested) := by
  refine .silent here_silent fun start => .issue (primary_conserves h) fun first => ?_
  exact (Conserves.repeatFrom Expr.nodes (postfixStep_conserves start h) first).weaken (by omega)

theorem allocation_conserves {i : Nat} {nested : Parser Expr}
    (h : Conserves i 0 Expr.nodes nested) : Conserves i 0 Expr.nodes (allocation nested) := by
  refine .silent here_silent fun start => .silent (acceptKeyword_silent _) fun new => ?_
  split
  · refine .issue (typeRef_conserves i) fun type => .issue (nodeFrom_conserves i start) fun n =>
      .pure ?_
    rw [Expr.nodes, copies_cons]
    omega
  refine .silent (acceptKeyword_silent _) fun delete => ?_
  split
  · refine .silent (peek_silent _) fun new => .silent (peek_silent _) fun delete => ?_
    split
    · exact .fail
    · refine .issue (postfixed_conserves h) fun operand => ?_
      exact (unaryNode_conserves i .delete start operand).weaken (by omega)
  · exact postfixed_conserves h

theorem operation_conserves {i : Nat} {nested : Parser Expr}
    (h : Conserves i 0 Expr.nodes nested) : Conserves i 0 Expr.nodes (operation nested) :=
  binary_conserves
    (unary_conserves _ (power_conserves (unary_conserves _ (allocation_conserves h)))) levels

theorem inside_conserves {i : Nat} {expr : Parser Expr} (h : Conserves i 0 Expr.nodes expr) :
    Conserves i 0 Expr.nodes (inside expr) :=
  .silent context_silent fun _ => .within h

theorem storedValue_conserves (i : Nat) (mark : Punct) (target value : Expr) :
    Conserves i (copies i value.nodes) (fun stored => stored.2.nodes)
      (storedValue mark target value) := by
  unfold storedValue
  split
  · refine .issue (freshCopy_conserves i target) fun lhs => ?_
    refine .spend 0 (binaryNode_conserves i _ lhs value) (by omega) fun stored => .pure ?_
    exact Nat.le_of_eq (Nat.zero_add _).symm
  · exact .pure (Nat.le_refl _)

theorem assignment_conserves {i : Nat} {expr : Parser Expr} (h : Conserves i 0 Expr.nodes expr) :
    Conserves i 0 Expr.nodes (assignment expr) := by
  refine .issue (operation_conserves (inside_conserves h)) fun target =>
    .silent (takePunctOf?_silent _) fun taken => ?_
  split
  · exact .pure (by omega)
  · refine .silent context_silent fun context => ?_
    split
    · exact .failAt
    split
    · exact .failAt
    refine .issue h fun value => .spend (copies i target.nodes)
      (storedValue_conserves i _ target value) (by omega) fun stored => ?_
    obtain ⟨kind, value⟩ := stored
    refine .issue (newNode_conserves i _) fun n => .pure ?_
    rw [Expr.nodes, copies_cons, copies_append]
    dsimp only
    omega

theorem expression_conserves (i : Nat) : Conserves i 0 Expr.nodes expression :=
  .recursive fun _ h => assignment_conserves h

theorem nestedExpression_conserves (i : Nat) : Conserves i 0 Expr.nodes nestedExpression :=
  inside_conserves (expression_conserves i)

end ClassLang.Parser
