import ClassLang.Parsing.Programs
import ClassLang.Proofs.Parsing.ExprReads
import ClassLang.Proofs.Parsing.RoundTrip

/-!
How names with binary operators between them group. The tightness of an operator is the number of
its level; in a grouped tree no operator stands below a tighter one, and operators of one level
stand to the left of each other, powers to the right. There is one such tree for a sequence at most.
The parser takes the levels one by one: what is tighter than a level is left to the next one, and
the loop of the level goes on at its own operators.

* `Expr.same_of_inOrder`: grouped trees with the same names and operators in order are the same.
* `names_group`: names and operators other than comparisons are read as a grouped tree, in order.
-/

namespace ClassLang

/-- The number of the level that an operator stands in, from the loosest on. -/
def BinaryOp.tightness : BinaryOp → Nat
  | or => 0
  | xor => 1
  | and => 2
  | bitOr => 3
  | bitXor => 4
  | bitAnd => 5
  | eq | ne => 6
  | lt | le | gt | ge => 7
  | shl | shr => 8
  | add | sub => 9
  | mul | div | mod => 10
  | pow => 11

theorem BinaryOp.tightness_eq_pow {op : BinaryOp} : op.tightness = pow.tightness ↔ op = pow := by
  cases op <;> decide

namespace Expr

/-- The operator of a binary expression. -/
def binaryOp? : Expr → Option BinaryOp
  | binary _ op _ _ => some op
  | _ => none

/-- Whether an expression may stand beside an operator: an operator of its own is tighter, or as
tight where expressions of one level may stand. -/
def standsBeside (op : BinaryOp) (ties : Bool) (e : Expr) : Bool :=
  e.binaryOp?.all fun inner =>
    op.tightness < inner.tightness || (ties && inner.tightness == op.tightness)

/-- Whether both sides of an operator bind tightly enough. Powers group to the right, the others to
the left. -/
def groupedHere : Expr → Bool
  | binary _ op lhs rhs => lhs.standsBeside op (op != .pow) && rhs.standsBeside op (op == .pow)
  | _ => true

/-- The names and operators of a tree in order, if it has no other parts. -/
def inOrder? : Expr → Option (List TokenKind)
  | ident _ name => some [.ident name.name]
  | binary _ op lhs rhs => do return (← lhs.inOrder?) ++ op.token :: (← rhs.inOrder?)
  | _ => none

theorem inOrder?_eq_binary {n : Node} {op : BinaryOp} {lhs rhs : Expr} {tokens : List TokenKind}
    (h : (binary n op lhs rhs).inOrder? = some tokens) :
    ∃ ls rs, lhs.inOrder? = some ls ∧ rhs.inOrder? = some rs ∧ tokens = ls ++ op.token :: rs := by
  rw [inOrder?] at h
  obtain ⟨ls, left, h⟩ := Option.bind_eq_some_iff.1 h
  obtain ⟨rs, right, h⟩ := Option.bind_eq_some_iff.1 h
  exact ⟨ls, rs, left, right, (Option.some.inj h).symm⟩

/-! ## One tree for a sequence -/

theorem standsBeside_iff {op : BinaryOp} {ties : Bool} {e : Expr} :
    e.standsBeside op ties = true ↔ ∀ inner ∈ e.binaryOp?, op.tightness ≤ inner.tightness ∧
      (inner.tightness = op.tightness → ties = true) := by
  refine (Option.all_eq_true _ _).trans (forall₂_congr fun inner _ => ?_)
  cases ties
  · simp
    omega
  · simp
    omega

/-- The root of a grouped tree is the loosest of its operators. -/
theorem root_loosest {op : BinaryOp} : ∀ {e : Expr} {tokens : List TokenKind},
    e.inOrder? = some tokens → e.all groupedHere = true → op.token ∈ tokens →
    ∃ root ∈ e.binaryOp?, root.tightness ≤ op.tightness
  | ident _ name, _, order, _, mem => by
    obtain rfl := Option.some.inj order
    cases op <;> simp [BinaryOp.token] at mem
  | binary n root lhs rhs, _, order, grouped, mem => by
    refine ⟨root, rfl, ?_⟩
    simp only [all, groupedHere, Bool.and_eq_true] at grouped
    obtain ⟨⟨⟨left, right⟩, inL⟩, inR⟩ := grouped
    obtain ⟨ls, rs, orderL, orderR, rfl⟩ := inOrder?_eq_binary order
    rcases List.mem_append.1 mem with mem | mem
    · obtain ⟨inner, here_, le⟩ := root_loosest orderL inL mem
      exact Nat.le_trans (standsBeside_iff.1 left inner here_).1 le
    · rcases List.mem_cons.1 mem with eq | mem
      · rw [BinaryOp.token_injective eq]
      · obtain ⟨inner, here_, le⟩ := root_loosest orderR inR mem
        exact Nat.le_trans (standsBeside_iff.1 right inner here_).1 le

/-- Two roots cannot have each other on the inner side. -/
theorem not_crossed {op op' : BinaryOp} {rhs lhs : Expr} {rs ls : List TokenKind}
    (orderR : rhs.inOrder? = some rs) (groupedR : rhs.all groupedHere = true)
    (right : rhs.standsBeside op (op == .pow) = true) (memR : op'.token ∈ rs)
    (orderL : lhs.inOrder? = some ls) (groupedL : lhs.all groupedHere = true)
    (left : lhs.standsBeside op' (op' != .pow) = true) (memL : op.token ∈ ls) : False := by
  obtain ⟨inner, here_, le⟩ := root_loosest orderR groupedR memR
  obtain ⟨inner', here', le'⟩ := root_loosest orderL groupedL memL
  obtain ⟨above, ties⟩ := standsBeside_iff.1 right inner here_
  obtain ⟨above', ties'⟩ := standsBeside_iff.1 left inner' here'
  -- All four are as tight as each other, and a power is on one side only.
  have isPow : op = .pow := eq_of_beq (ties (by omega))
  have other : op' ≠ .pow := bne_iff_ne.1 (ties' (by omega))
  refine other (BinaryOp.tightness_eq_pow.1 ?_)
  rw [← isPow]
  omega

/-- Two splits of a list at an entry are the same, or each entry is in what the other one splits
off. -/
theorem splits {α : Type} {ls rs ls' rs' : List α} {x y : α}
    (eq : ls ++ x :: rs = ls' ++ y :: rs') :
    (ls = ls' ∧ x = y ∧ rs = rs') ∨ (y ∈ rs ∧ x ∈ ls') ∨ (y ∈ ls ∧ x ∈ rs') := by
  rcases List.append_eq_append_iff.1 eq with ⟨gap, front, back⟩ | ⟨gap, front, back⟩
  · cases gap with
    | nil =>
      obtain ⟨same, rest⟩ := List.cons.inj back
      exact .inl ⟨by simpa using front.symm, same, rest⟩
    | cons z gap =>
      obtain ⟨rfl, rfl⟩ := List.cons.inj back
      exact .inr (.inl ⟨by simp, by simp [front]⟩)
  · cases gap with
    | nil =>
      obtain ⟨same, rest⟩ := List.cons.inj back
      exact .inl ⟨by simpa using front, same.symm, rest.symm⟩
    | cons z gap =>
      obtain ⟨rfl, rfl⟩ := List.cons.inj back
      exact .inr (.inr ⟨by simp [front], by simp⟩)

/-- There is one grouped tree for a sequence at most. -/
theorem same_of_inOrder : ∀ {a b : Expr} {tokens : List TokenKind}, a.inOrder? = some tokens →
    b.inOrder? = some tokens → a.all groupedHere = true → b.all groupedHere = true →
    a.same b = true
  | ident _ name, ident _ name', _, first, second, _, _ => by
    obtain rfl := Option.some.inj first
    obtain ⟨eq, -⟩ := List.cons.inj (Option.some.inj second)
    exact beq_iff_eq.2 (TokenKind.ident.inj eq).symm
  | ident .., binary _ op _ _, _, first, second, grouped, _ => by
    obtain ⟨ls, rs, -, -, rfl⟩ := inOrder?_eq_binary second
    obtain ⟨root, none_, -⟩ := @root_loosest op _ _ first grouped (by simp)
    cases none_
  | binary _ op _ _, ident .., _, first, second, _, grouped => by
    obtain ⟨ls, rs, -, -, rfl⟩ := inOrder?_eq_binary first
    obtain ⟨root, none_, -⟩ := @root_loosest op _ _ second grouped (by simp)
    cases none_
  | binary _ op lhs rhs, binary _ op' lhs' rhs', _, first, second, grouped, grouped' => by
    simp only [all, groupedHere, Bool.and_eq_true] at grouped grouped'
    obtain ⟨⟨⟨left, right⟩, inL⟩, inR⟩ := grouped
    obtain ⟨⟨⟨left', right'⟩, inL'⟩, inR'⟩ := grouped'
    obtain ⟨ls, rs, orderL, orderR, rfl⟩ := inOrder?_eq_binary first
    obtain ⟨ls', rs', orderL', orderR', eq⟩ := inOrder?_eq_binary second
    rcases splits eq with ⟨rfl, token, rfl⟩ | ⟨inner, outer⟩ | ⟨inner, outer⟩
    · rw [same, BinaryOp.token_injective token, same_of_inOrder orderL orderL' inL inL',
        same_of_inOrder orderR orderR' inR inR', beq_self_eq_true]
      rfl
    · exact (not_crossed orderR inR right inner orderL' inL' left' outer).elim
    · exact (not_crossed orderR' inR' right' outer orderL inL left inner).elim

/-- The expression is the grouped tree of some tokens, with no operator looser than a level. -/
structure Groups (tight : Nat) (tokens : List TokenKind) (e : Expr) : Prop where
  order : e.inOrder? = some tokens
  grouped : e.all groupedHere = true
  root : ∀ op ∈ e.binaryOp?, tight ≤ op.tightness

namespace Groups

variable {tight loose : Nat} {ls rs : List TokenKind} {op : BinaryOp} {n : Node} {lhs rhs e : Expr}

theorem mono (h : Groups tight ls e) (le : loose ≤ tight) : Groups loose ls e :=
  ⟨h.order, h.grouped, fun op mem => Nat.le_trans le (h.root op mem)⟩

theorem standsBeside (h : Groups tight ls e) (ties : Bool)
    (le : bif ties then op.tightness ≤ tight else op.tightness < tight) :
    e.standsBeside op ties = true := by
  refine standsBeside_iff.2 fun inner mem => ?_
  have := h.root inner mem
  cases ties with
  | true => exact ⟨Nat.le_trans le this, fun _ => rfl⟩
  | false =>
    change op.tightness < tight at le
    exact ⟨by omega, by omega⟩

theorem name (tight : Nat) (n : Node) (name : Ident) :
    Groups tight [.ident name.name] (.ident n name) :=
  ⟨rfl, rfl, nofun⟩

theorem binary (hl : Groups op.tightness ls lhs) (hr : Groups op.tightness rs rhs)
    (left : lhs.standsBeside op (op != .pow) = true)
    (right : rhs.standsBeside op (op == .pow) = true) :
    Groups op.tightness (ls ++ op.token :: rs) (.binary n op lhs rhs) where
  order := by rw [inOrder?, hl.order, hr.order]; rfl
  grouped := by
    rw [all, groupedHere, left, right, hl.grouped, hr.grouped]
    rfl
  root := by
    rintro _ ⟨⟩
    exact Nat.le_refl _

/-- Operators of one level group to the left. -/
theorem left (other : op ≠ .pow) (hl : Groups op.tightness ls lhs)
    (hr : Groups (op.tightness + 1) rs rhs) :
    Groups op.tightness (ls ++ op.token :: rs) (.binary n op lhs rhs) := by
  refine hl.binary (hr.mono (Nat.le_succ _)) ?_ ?_
  · rw [bne_iff_ne.2 other]
    exact hl.standsBeside true (Nat.le_refl _)
  · rw [beq_false_of_ne other]
    exact hr.standsBeside false (Nat.lt_succ_self _)

/-- Powers group to the right. -/
theorem right (hl : Groups (BinaryOp.pow.tightness + 1) ls lhs)
    (hr : Groups BinaryOp.pow.tightness rs rhs) :
    Groups BinaryOp.pow.tightness (ls ++ BinaryOp.pow.token :: rs) (.binary n .pow lhs rhs) :=
  (hl.mono (Nat.le_succ _)).binary hr (hl.standsBeside false (Nat.lt_succ_self _))
    (hr.standsBeside true (Nat.le_refl _))

end Groups

end Expr

/-- The token of a name. -/
def names (name : String) : List TokenKind := [.ident name]

/-- A name, and others each behind an operator. -/
def sequence (first : String) (rest : List (BinaryOp × String)) : List TokenKind :=
  .ident first :: Parser.joined names rest

theorem sequence_append (first : String) (rest more : List (BinaryOp × String)) :
    sequence first (rest ++ more) = sequence first rest ++ Parser.joined names more := by
  simp [sequence, Parser.joined, names]

namespace Parser

variable {c : Context} {k : TokenKind} {ks : List TokenKind} {tight : Nat} {operand : Parser Expr}
  {ops : List BinaryOp} {first : String} {rest : List (BinaryOp × String)}

/-- A token that ends an expression of a level: it is no selector and no operator of this level or
of a tighter one. -/
structure Stops (tight : Nat) (k : TokenKind) : Prop where
  operator : ∀ op : BinaryOp, tight ≤ op.tightness → op.token ≠ k
  selector : NoSelector k

theorem Stops.mono {loose : Nat} (h : Stops loose k) (le : loose ≤ tight) : Stops tight k :=
  ⟨fun op bound => h.operator op (Nat.le_trans le bound), h.selector⟩

/-- An operator ends what is tighter. -/
theorem stops_operator {op : BinaryOp} (lt : op.tightness < tight) : Stops tight op.token := by
  refine ⟨fun other le eq => ?_, noSelector_operator op⟩
  rw [BinaryOp.token_injective eq] at le
  omega

/-- The operators are no comparisons, and none is looser than a level. -/
def Binding (tight : Nat) (rest : List (BinaryOp × String)) : Prop :=
  ∀ item ∈ rest, tight ≤ item.1.tightness ∧ item.1.family ≠ .comparison

/-- Names with operators of a level and tighter ones are read as their grouped tree. -/
def ReadsGrouped (tight : Nat) (p : Parser Expr) : Prop :=
  ∀ c first rest k ks, Binding tight rest → Stops tight k →
    Reads c p (sequence first rest ++ k :: ks) (k :: ks) (Expr.Groups tight (sequence first rest))

/-! ## One level -/

/-- One operator of a level that groups to the left, with the operand after it. -/
def leftStep (ops : List BinaryOp) (next : Parser Expr) (lhs : Expr) : Parser (Expr ⊕ Expr) := do
  match ← operatorOf? ops with
  | some op =>
    let rhs ← next
    return .inl (← binaryNode op lhs rhs)
  | none => return .inr lhs

/-- The operators that are tighter than a level come before the first one of the level. -/
theorem Binding.split (h : Binding tight rest) :
    ∃ inner outer, rest = inner ++ outer ∧ Binding (tight + 1) inner ∧ Binding tight outer ∧
      ∀ item ∈ outer.head?, item.1.tightness = tight := by
  induction rest with
  | nil => exact ⟨[], [], rfl, nofun, nofun, nofun⟩
  | cons item rest ih =>
    obtain ⟨here_, others⟩ := List.forall_mem_cons.1 h
    rcases Nat.eq_or_lt_of_le here_.1 with equal | tighter
    · refine ⟨[], item :: rest, rfl, nofun, h, ?_⟩
      rintro _ ⟨⟩
      exact equal.symm
    · obtain ⟨inner, outer, rfl, below, level, head⟩ := ih others
      exact ⟨item :: inner, outer, rfl, List.forall_mem_cons.2 ⟨⟨tighter, here_.2⟩, below⟩, level,
        head⟩

/-- Whatever is behind the operands of the next level, they end there. -/
theorem next_reads (next : ReadsGrouped (tight + 1) operand) (stops : Stops tight k)
    {inner outer : List (BinaryOp × String)} (below : Binding (tight + 1) inner)
    (head : ∀ item ∈ outer.head?, item.1.tightness = tight) :
    Reads c operand (sequence first (inner ++ outer) ++ k :: ks)
      (joined names outer ++ k :: ks)
      (Expr.Groups (tight + 1) (sequence first inner)) := by
  rw [sequence_append, List.append_assoc]
  cases outer with
  | nil => exact next c first inner k ks below (stops.mono (Nat.le_succ _))
  | cons item outer =>
    have equal := head item rfl
    exact next c first inner _ _ below (stops_operator (by omega))

/-- The induction is on the count of the operators that are left: a round takes one of the level and
all tighter ones behind it. -/
theorem leftLoop_reads (mem : ∀ op, op ∈ ops ↔ op.tightness = tight)
    (loose : tight < BinaryOp.pow.tightness) (next : ReadsGrouped (tight + 1) operand)
    (stops : Stops tight k) {n : Nat} {before : List TokenKind} {lhs : Expr}
    {outer : List (BinaryOp × String)} (binding : Binding tight outer)
    (head : ∀ item ∈ outer.head?, item.1.tightness = tight) (done : Expr.Groups tight before lhs)
    (fuel : (joined names outer ++ k :: ks).length ≤ n) :
    Reads c (loop (leftStep ops operand) n lhs) (joined names outer ++ k :: ks) (k :: ks)
      (Expr.Groups tight (before ++ joined names outer)) := by
  induction size : outer.length using Nat.strong_induction_on generalizing n before lhs outer with
  | h size ih =>
    cases outer with
    | nil =>
      obtain ⟨n, rfl⟩ : ∃ m, n = m + 1 := ⟨n - 1, by simp [joined] at fuel; omega⟩
      have none_ : NoneOf ops k := fun op here_ =>
        stops.operator op (Nat.le_of_eq ((mem op).1 here_).symm)
      refine .loop_ends (.bind (operatorOf?_absent none_) fun found eq => ?_)
      subst eq
      exact .pure ⟨_, rfl, by simpa [joined] using done⟩
    | cons item outer =>
      obtain ⟨op, name⟩ := item
      obtain rfl : op.tightness = tight := head (op, name) rfl
      obtain ⟨inner, rest, rfl, below, others, ahead⟩ :=
        Binding.split (List.forall_mem_cons.1 binding).2
      obtain ⟨n, rfl⟩ : ∃ m, n = m + 1 := ⟨n - 1, by simp [joined] at fuel; omega⟩
      have shorter : (joined names rest ++ k :: ks).length ≤ n := by
        simp [joined] at fuel ⊢
        omega
      have power : op ≠ .pow := fun eq => by rw [eq] at loose; exact Nat.lt_irrefl _ loose
      have whole : before ++ joined names ((op, name) :: (inner ++ rest)) =
          (before ++ op.token :: sequence name inner) ++ joined names rest := by
        simp [sequence, joined, names]
      rw [whole]
      refine .loop_goes (joined names rest ++ k :: ks)
        (Expr.Groups op.tightness (before ++ op.token :: sequence name inner)) ?_ fun e grouped =>
          ih rest.length ?_ others ahead grouped shorter rfl
      · refine .bind (operatorOf?_present ((mem op).2 rfl) (by simp)) fun found eq => ?_
        subst eq
        refine .bind (next_reads next stops below ahead) fun rhs right => ?_
        have node : Reads c (binaryNode op lhs rhs) (joined names rest ++ k :: ks)
            (joined names rest ++ k :: ks)
            (Expr.Groups op.tightness (before ++ op.token :: sequence name inner)) :=
          .bind (newNode_reads _) fun _ _ => .pure (done.left power right)
        exact .bind node fun e he => .pure ⟨_, rfl, he⟩
      · rw [← size, List.length_cons, List.length_append]
        omega

/-- A level that groups to the left. -/
theorem leftAssoc_grouped (mem : ∀ op, op ∈ ops ↔ op.tightness = tight)
    (loose : tight < BinaryOp.pow.tightness) (next : ReadsGrouped (tight + 1) operand) :
    ReadsGrouped tight (leftAssoc ops operand) := by
  intro c first rest k ks binding stops
  obtain ⟨inner, outer, rfl, below, others, head⟩ := binding.split
  refine .bind (next_reads next stops below head) fun lhs left => ?_
  rw [sequence_append]
  exact .repeatFrom fun n fuel =>
    leftLoop_reads mem loose next stops others head (left.mono (Nat.le_succ _)) fuel

/-- No comparison is left to a level of comparisons. -/
theorem chain_grouped (mem : ∀ op, op ∈ ops ↔ op.tightness = tight)
    (compares : ∀ op ∈ ops, op.family = .comparison) (next : ReadsGrouped (tight + 1) operand) :
    ReadsGrouped tight (chain ops operand) := by
  intro c first rest k ks binding stops
  have tighter : Binding (tight + 1) rest := fun item here_ => by
    obtain ⟨le, other⟩ := binding item here_
    refine ⟨Nat.lt_of_le_of_ne le fun equal => other (compares _ ?_), other⟩
    exact (mem _).2 equal.symm
  have none_ : NoneOf (Level.chain ops).ops k := fun op here_ =>
    stops.operator op (Nat.le_of_eq ((mem op).1 here_).symm)
  have reads := next c first rest k ks tighter (stops.mono (Nat.le_succ _))
  exact Reads.mono (level_one none_ reads) fun e grouped => grouped.mono (Nat.le_succ _)

/-! ## All levels -/

/-- The levels hold the operators of one tightness after the other, up to the powers. -/
def Ranked : Nat → List Level → Prop
  | tight, [] => tight = BinaryOp.pow.tightness
  | tight, l :: tighter => tight < BinaryOp.pow.tightness ∧ l.ChainsComparisons ∧
      (∀ op, op ∈ l.ops ↔ op.tightness = tight) ∧ Ranked (tight + 1) tighter

theorem levels_ranked : Ranked 0 levels := by
  iterate 11 refine ⟨by decide, by decide, fun op => by cases op <;> decide, ?_⟩
  rfl

theorem binary_grouped {ls : List Level} (ranked : Ranked tight ls)
    (reads : ReadsGrouped BinaryOp.pow.tightness operand) :
    ReadsGrouped tight (binary ls operand) := by
  induction ls generalizing tight with
  | nil => exact ranked ▸ reads
  | cons l tighter ih =>
    obtain ⟨loose, compares, mem, others⟩ := ranked
    cases l with
    | leftAssoc ops => exact leftAssoc_grouped mem loose (ih others)
    | chain ops => exact chain_grouped mem compares (ih others)

/-! ## Powers and names -/

/-- The induction is on the exponents: a power is folded from the right. -/
theorem powerOf_reads {items : List (BinaryOp × String)} {read : List (BinaryOp × Expr)}
    (powers : ∀ item ∈ items, item.1 = .pow) {base : Expr}
    (hbase : Expr.Groups (BinaryOp.pow.tightness + 1) [.ident first] base)
    (others : List.Forall₂ (ReadAs fun name => Expr.Groups (BinaryOp.pow.tightness + 1)
      [.ident name]) items read) :
    Reads c (powerOf base (read.map Prod.snd)) ks ks
      (Expr.Groups BinaryOp.pow.tightness (sequence first items)) := by
  induction others generalizing first base with
  | nil => exact .pure (hbase.mono (Nat.le_succ _))
  | @cons item operation items read same _ ih =>
    obtain ⟨op, name⟩ := item
    obtain ⟨isPow, rest⟩ := List.forall_mem_cons.1 powers
    obtain rfl : op = .pow := isPow
    refine .bind (ih rest same.2) fun exponent right => .bind (newNode_reads _) fun _ _ => .pure ?_
    exact hbase.right right

theorem name_reads {nested : Parser Expr} (selects : NoSelector k) (name : String) :
    Reads c (unary negation? (allocation nested)) (.ident name :: k :: ks) (k :: ks)
      (Expr.Groups (BinaryOp.pow.tightness + 1) [.ident name]) := by
  refine unary_none rfl rfl (.bind here_reads fun start _ => ?_)
  refine .bind (acceptKeyword_absent (by simp)) fun new eq => ?_
  rw [eq, if_neg (by simp)]
  refine .bind (acceptKeyword_absent (by simp)) fun delete eq => ?_
  rw [eq, if_neg (by simp)]
  have primary : Reads c (primary nested) (.ident name :: k :: ks) (k :: ks)
      (Expr.Groups (BinaryOp.pow.tightness + 1) [.ident name]) := by
    refine .bind here_reads fun start _ => .bind kind_reads fun kind eq => ?_
    subst eq
    refine .bind (expectIdent_reads (by simp)) fun name' eq => ?_
    subst eq
    exact .bind (nodeFrom_reads start) fun _ _ => .pure (.name _ _ _)
  refine .bind here_reads fun start _ => .bind primary fun e he => .repeatFrom fun n fuel => ?_
  obtain ⟨n, rfl⟩ : ∃ m, n = m + 1 := ⟨n - 1, by simp at fuel; omega⟩
  exact .loop_ends (Reads.mono (postfixStep_ends selects) fun _ eq => ⟨e, eq, he⟩)

theorem power_grouped {nested : Parser Expr} :
    ReadsGrouped BinaryOp.pow.tightness
      (unary sign? (power (unary negation? (allocation nested)))) := by
  intro c first rest k ks binding stops
  have none_ : NoneOf [.pow] k := fun op mem =>
    stops.operator op (Nat.le_of_eq (by rw [List.mem_singleton.1 mem]))
  have powers : ∀ item ∈ rest, item.1 = .pow := fun item mem => by
    have tight := (binding item mem).1
    revert tight
    cases item.1 <;> decide
  have behind (next : TokenKind) (goes : next = k ∨ ∃ op ∈ [BinaryOp.pow], next = op.token) :
      NoSelector next := by
    obtain rfl | ⟨op, -, rfl⟩ := goes
    · exact stops.selector
    · exact noSelector_operator op
  have exponents : Reads c (operations [.pow] (unary negation? (allocation nested)))
      (joined names rest ++ k :: ks) (k :: ks)
      (List.Forall₂ (ReadAs fun name => Expr.Groups (BinaryOp.pow.tightness + 1) [.ident name])
        rest) :=
    operations_reads none_ fun item mem => ⟨by simp [powers item mem], fun next _ goes =>
      name_reads (behind next goes) item.2⟩
  have base : Reads c (unary negation? (allocation nested))
      (sequence first rest ++ k :: ks) (joined names rest ++ k :: ks)
      (Expr.Groups (BinaryOp.pow.tightness + 1) [.ident first]) := by
    cases rest with
    | nil => exact name_reads stops.selector first
    | cons item rest => exact name_reads (noSelector_operator item.1) first
  exact unary_none rfl rfl (.bind base fun base hbase => .bind exponents fun read others =>
    powerOf_reads powers hbase others)

/-! ## Sequences of names -/

theorem operation_grouped {nested : Parser Expr} : ReadsGrouped 0 (operation nested) :=
  binary_grouped levels_ranked power_grouped

/-- Names and operators other than comparisons are read in order as their grouped tree, the only one
there is. -/
theorem names_group (first : String) (rest : List (BinaryOp × String)) (tokens : List Token)
    (source : Span) (noComparison : ∀ item ∈ rest, item.1.family ≠ .comparison)
    (kinds : (endTokens tokens source).map Token.kind = sequence first rest ++ [.eof]) :
    ∃ e, expression.runToEnd tokens source = .ok e ∧ e.inOrder? = some (sequence first rest) ∧
      e.all Expr.groupedHere = true ∧ ∀ other : Expr, other.inOrder? = some (sequence first rest) →
        other.all Expr.groupedHere = true → e.same other = true := by
  have binding : Binding 0 rest := fun item mem => ⟨Nat.zero_le _, noComparison item mem⟩
  have stops : Stops 0 .eof :=
    ⟨fun op _ => endsExpression_eof.operator op, endsExpression_eof.selector⟩
  have reads : Reads .global expression (sequence first rest ++ [.eof]) [.eof]
      (Expr.Groups 0 (sequence first rest)) :=
    .recursive (.iterate (by simp) (Nat.le_refl _) fun m _ =>
      assignment_of_operation endsExpression_eof (operation_grouped _ _ _ _ _ binding stops))
  have start : (ParserState.start tokens source).kinds = sequence first rest ++ [.eof] := by
    rw [ParserState.kinds, ParserState.start, Cursor.ofTokens_tokens, kinds]
  obtain ⟨e, s, run, left, -, grouped⟩ := reads _ start
  have ended : s.cursor.isAtEnd = true := by
    rw [Cursor.isAtEnd, (kinds_cons left).1]
    rfl
  exact ⟨e, runToEnd_eq_ok.2 ⟨s, run, ended⟩, grouped.order, grouped.grouped, fun _ order sound =>
    Expr.same_of_inOrder grouped.order order grouped.grouped sound⟩

-- Every way to group: tighter to the right and to the left, equal ones, and powers.
theorem mixed_operators_group : ∃ tokens e,
    (⟨"a or b xor c - d - e * f ** g ** h % i", none⟩ : Source).tokens = .ok tokens ∧
      expression.runToEnd tokens ⟨0, 38⟩ = .ok e ∧ e.all Expr.groupedHere = true := by
  let rest : List (BinaryOp × String) := [(.or, "b"), (.xor, "c"), (.sub, "d"), (.sub, "e"),
    (.mul, "f"), (.pow, "g"), (.pow, "h"), (.mod, "i")]
  have lexed : ((⟨"a or b xor c - d - e * f ** g ** h % i", none⟩ : Source).tokens).toOption.map
      (fun tokens => (endTokens tokens ⟨0, 38⟩).map Token.kind) =
      some (sequence "a" rest ++ [.eof]) := by
    decide +kernel
  obtain ⟨tokens, some_, kinds⟩ := Option.map_eq_some_iff.1 lexed
  obtain ⟨e, run, -, grouped, -⟩ := names_group "a" rest tokens ⟨0, 38⟩ (by decide) kinds
  exact ⟨tokens, e, ok_of_toOption some_, run, grouped⟩

example : ((⟨"a or b xor c - d - e * f ** g ** h % i", none⟩ : Source).parse
    expression).toOption.map Expr.text = some "(a or (b xor ((c - d) - ((e * (f ** (g ** h))) % i))))" := by
  decide +kernel

end Parser

end ClassLang
