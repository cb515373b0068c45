import ClassLang.Parsing.Exprs
import ClassLang.Proofs.Parsing.Reads

/-!
What the levels of operators make of one operand, and of two operands with an operator between them.
An operand passes through all levels that do not have the operator behind it; each operator stands
in one level only.

* `binary_reads_two`: a binary operator is found at its level.
-/

namespace ClassLang

theorem BinaryOp.token_injective {a b : BinaryOp} (h : a.token = b.token) : a = b := by
  revert h; cases a <;> cases b <;> decide

theorem BinaryOp.token_ne_eof (op : BinaryOp) : op.token ≠ .eof := by
  cases op <;> simp [BinaryOp.token]

namespace Parser

/-- The operators of a level. -/
def Level.ops : Level → List BinaryOp
  | .leftAssoc ops | .chain ops => ops

variable {c : Context} {k : TokenKind} {ks before middle : List TokenKind}
  {good left right : Expr → Prop} {operand : Parser Expr} {ops : List BinaryOp} {op : BinaryOp}

/-- No operator of some is written with the token. -/
def NoneOf (ops : List BinaryOp) (k : TokenKind) : Prop := ∀ op ∈ ops, op.token ≠ k

/-- A binary expression with a good left and a good right side. -/
def BinaryOf (op : BinaryOp) (left right : Expr → Prop) (e : Expr) : Prop :=
  ∃ n lhs rhs, e = .binary n op lhs rhs ∧ left lhs ∧ right rhs

theorem binaryNode_reads {lhs rhs : Expr} (hl : left lhs) (hr : right rhs) :
    Reads c (binaryNode op lhs rhs) ks ks (BinaryOf op left right) :=
  .bind (newNode_reads _) fun _ _ => .pure ⟨_, _, _, rfl, hl, hr⟩

theorem operatorOf?_present (mem : op ∈ ops) (more : ks ≠ []) :
    Reads c (operatorOf? ops) (op.token :: ks) ks (· = some op) := by
  refine .bind kind_reads fun kind eq => ?_
  subst eq
  have found : ops.find? (fun other => other.token == op.token) = some op := by
    obtain ⟨other, some_⟩ :
        ∃ other, ops.find? (fun other => other.token == op.token) = some other :=
      Option.isSome_iff_exists.1 (List.find?_isSome.2 ⟨op, mem, by simp⟩)
    have token := List.find?_some some_
    rw [some_, BinaryOp.token_injective (beq_iff_eq.1 token)]
  rw [found]
  exact .bind (bump_reads op.token_ne_eof more) fun _ _ => .pure rfl

theorem operatorOf?_absent (none_ : NoneOf ops k) :
    Reads c (operatorOf? ops) (k :: ks) (k :: ks) (· = none) := by
  refine .bind kind_reads fun kind eq => ?_
  subst eq
  have missing : ops.find? (fun other => other.token == kind) = none := by
    rw [List.find?_eq_none]
    intro other mem
    simpa using none_ other mem
  rw [missing]
  exact .pure rfl

/-! ## One level -/

/-- One operator with the operand after it. -/
def operationStep (ops : List BinaryOp) (next : Parser Expr) (read : List (BinaryOp × Expr)) :
    Parser (List (BinaryOp × Expr) ⊕ List (BinaryOp × Expr)) := do
  match ← operatorOf? ops with
  | some op =>
    let rhs ← next
    return .inl ((op, rhs) :: read)
  | none => return .inr read.reverse

theorem operations_none (none_ : NoneOf ops k) :
    Reads c (operations ops operand) (k :: ks) (k :: ks) (· = []) := by
  refine .repeatFrom fun n fuel => ?_
  obtain ⟨n, rfl⟩ : ∃ m, n = m + 1 := ⟨n - 1, by simp at fuel; omega⟩
  refine .loop_ends (.bind (operatorOf?_absent none_) fun found eq => ?_)
  subst eq
  exact .pure ⟨_, rfl, rfl⟩

theorem operations_one (mem : op ∈ ops) (none_ : NoneOf ops k) (more : middle ≠ [])
    (reads : Reads c operand middle (k :: ks) right) :
    Reads c (operations ops operand) (op.token :: middle) (k :: ks)
      (fun read => ∃ rhs, read = [(op, rhs)] ∧ right rhs) := by
  refine .repeatFrom fun n fuel => ?_
  have positive := List.length_pos_of_ne_nil more
  obtain ⟨n, rfl⟩ : ∃ m, n = m + 1 + 1 := ⟨n - 2, by simp at fuel; omega⟩
  refine .loop_goes (k :: ks) (fun read => ∃ rhs, read = [(op, rhs)] ∧ right rhs) ?_ ?_
  · refine .bind (operatorOf?_present mem more) fun found eq => ?_
    subst eq
    exact .bind reads fun rhs hr => .pure ⟨_, rfl, rhs, rfl, hr⟩
  · rintro _ ⟨rhs, rfl, hr⟩
    refine .loop_ends (.bind (operatorOf?_absent none_) fun found eq => ?_)
    subst eq
    exact .pure ⟨_, rfl, rhs, rfl, hr⟩

/-- Operands, each behind its operator. -/
def joined {ι : Type} (tokens : ι → List TokenKind) (items : List (BinaryOp × ι)) :
    List TokenKind :=
  items.flatMap fun item => item.1.token :: tokens item.2

/-- An operator and its operand have been read as such. -/
def ReadAs {ι : Type} (fits : ι → Expr → Prop) (item : BinaryOp × ι) (read : BinaryOp × Expr) :
    Prop :=
  item.1 = read.1 ∧ fits item.2 read.2

section Many

variable {ι : Type} {tokens : ι → List TokenKind} {fits : ι → Expr → Prop} {n : Nat}

/-- What has been read is kept in reverse. -/
theorem operationsLoop_reads (none_ : NoneOf ops k) (items : List (BinaryOp × ι)) :
    ∀ (n : Nat) (done : List (BinaryOp × ι)) (read : List (BinaryOp × Expr)),
      List.Forall₂ (ReadAs fits) done read.reverse →
      (∀ item ∈ items, item.1 ∈ ops ∧ ∀ next rest, (next = k ∨ ∃ op ∈ ops, next = op.token) →
        Reads c operand (tokens item.2 ++ next :: rest) (next :: rest) (fits item.2)) →
      (joined tokens items ++ k :: ks).length ≤ n →
      Reads c (loop (operationStep ops operand) n read) (joined tokens items ++ k :: ks) (k :: ks)
        (List.Forall₂ (ReadAs fits) (done ++ items)) := by
  induction items with
  | nil =>
    intro n done read front _ fuel
    obtain ⟨n, rfl⟩ : ∃ m, n = m + 1 := ⟨n - 1, by simp [joined] at fuel; omega⟩
    refine .loop_ends (.bind (operatorOf?_absent none_) fun found eq => ?_)
    subst eq
    exact .pure ⟨_, rfl, by rwa [List.append_nil]⟩
  | cons item items ih =>
    intro n done read front each fuel
    obtain ⟨mem, reads⟩ := each item (by simp)
    have apart : joined tokens (item :: items) ++ k :: ks =
        item.1.token :: (tokens item.2 ++ (joined tokens items ++ k :: ks)) := by
      simp [joined]
    rw [apart] at fuel ⊢
    obtain ⟨n, rfl⟩ : ∃ m, n = m + 1 := ⟨n - 1, by simp at fuel; omega⟩
    -- Behind the operand there is the next operator, or the end.
    have onward : ∃ next rest, joined tokens items ++ k :: ks = next :: rest ∧
        (next = k ∨ ∃ op ∈ ops, next = op.token) := by
      cases items with
      | nil => exact ⟨k, ks, rfl, .inl rfl⟩
      | cons second items =>
        exact ⟨_, _, rfl, .inr ⟨second.1, (each second (by simp)).1, rfl⟩⟩
    obtain ⟨next, rest, eq, goes⟩ := onward
    refine .loop_goes (joined tokens items ++ k :: ks)
      (fun all => ∃ rhs, all = (item.1, rhs) :: read ∧ fits item.2 rhs) ?_ ?_
    · refine .bind (operatorOf?_present mem (by simp)) fun found some_ => ?_
      subst some_
      rw [eq]
      exact .bind (reads next rest goes) fun rhs holds => .pure ⟨_, rfl, rhs, rfl, holds⟩
    · rintro _ ⟨rhs, rfl, holds⟩
      have grown : List.Forall₂ (ReadAs fits) (done ++ [item]) ((item.1, rhs) :: read).reverse := by
        rw [List.reverse_cons]
        exact List.rel_append front (.cons ⟨rfl, holds⟩ .nil)
      have others := ih n _ _ grown (fun other hother => each other (List.mem_cons_of_mem _ hother))
        (by simp only [List.length_append, List.length_cons] at fuel ⊢; omega)
      rwa [List.append_assoc] at others

/-- Each operand is read up to the next operator or up to what is behind all of them. -/
theorem operations_reads {items : List (BinaryOp × ι)} (none_ : NoneOf ops k)
    (each : ∀ item ∈ items, item.1 ∈ ops ∧
      ∀ next rest, (next = k ∨ ∃ op ∈ ops, next = op.token) →
        Reads c operand (tokens item.2 ++ next :: rest) (next :: rest) (fits item.2)) :
    Reads c (operations ops operand) (joined tokens items ++ k :: ks) (k :: ks)
      (List.Forall₂ (ReadAs fits) items) :=
  .repeatFrom fun n fuel => operationsLoop_reads none_ items n [] [] .nil each fuel

end Many

theorem level_one {l : Level} (none_ : NoneOf l.ops k)
    (reads : Reads c operand before (k :: ks) good) :
    Reads c (level l operand) before (k :: ks) good := by
  cases l with
  | leftAssoc ops =>
    refine .bind reads fun e he => .repeatFrom fun n fuel => ?_
    obtain ⟨n, rfl⟩ : ∃ m, n = m + 1 := ⟨n - 1, by simp at fuel; omega⟩
    refine .loop_ends (.bind (operatorOf?_absent none_) fun found eq => ?_)
    subst eq
    exact .pure ⟨_, rfl, he⟩
  | chain ops =>
    refine .bind reads fun e he => .bind (operations_none none_) fun others eq => ?_
    subst eq
    exact .pure he

theorem level_two {l : Level} (mem : op ∈ l.ops) (none_ : NoneOf l.ops k) (more : middle ≠ [])
    (hl : Reads c operand before (op.token :: middle) left)
    (hr : Reads c operand middle (k :: ks) right) :
    Reads c (level l operand) before (k :: ks) (BinaryOf op left right) := by
  cases l with
  | leftAssoc ops =>
    refine .bind hl fun lhs holds => .repeatFrom fun n fuel => ?_
    have positive := List.length_pos_of_ne_nil more
    obtain ⟨n, rfl⟩ : ∃ m, n = m + 1 + 1 := ⟨n - 2, by simp at fuel; omega⟩
    refine .loop_goes (k :: ks) (BinaryOf op left right) ?_ fun e he => ?_
    · refine .bind (operatorOf?_present mem more) fun found eq => ?_
      subst eq
      exact .bind hr fun rhs holds' => .bind (binaryNode_reads holds holds') fun e he =>
        .pure ⟨_, rfl, he⟩
    · refine .loop_ends (.bind (operatorOf?_absent none_) fun found eq => ?_)
      subst eq
      exact .pure ⟨_, rfl, he⟩
  | chain ops =>
    refine .bind hl fun lhs holds => .bind (operations_one mem none_ more hr) fun others one => ?_
    obtain ⟨rhs, rfl, holds'⟩ := one
    have compared : Reads c (comparisons lhs [(op, rhs)]) (k :: ks) (k :: ks)
        (fun all => ∃ e, all = [e] ∧ BinaryOf op left right e) :=
      .bind (freshCopy_reads rhs) fun _ _ => .bind (binaryNode_reads holds holds') fun e he =>
        .pure ⟨e, rfl, he⟩
    refine .bind compared fun all one => ?_
    obtain ⟨e, rfl, he⟩ := one
    exact .pure he

/-! ## All levels -/

/-- The operators of some levels. -/
def opsOf (ls : List Level) : List BinaryOp := ls.flatMap Level.ops

theorem opsOf_cons (l : Level) (ls : List Level) : opsOf (l :: ls) = l.ops ++ opsOf ls := rfl

theorem binary_one (ls : List Level) (none_ : NoneOf (opsOf ls) k)
    (reads : Reads c operand before (k :: ks) good) :
    Reads c (binary ls operand) before (k :: ks) good := by
  induction ls with
  | nil => exact reads
  | cons l tighter ih =>
    rw [opsOf_cons] at none_
    have inner := ih fun op mem => none_ op (List.mem_append_right _ mem)
    exact level_one (fun op mem => none_ op (List.mem_append_left _ mem)) inner

theorem binary_reads_two (ls : List Level) (once : (opsOf ls).Nodup) (mem : op ∈ opsOf ls)
    (none_ : NoneOf (opsOf ls) k) (more : middle ≠ [])
    (hl : Reads c operand before (op.token :: middle) left)
    (hr : Reads c operand middle (k :: ks) right) :
    Reads c (binary ls operand) before (k :: ks) (BinaryOf op left right) := by
  induction ls with
  | nil => cases mem
  | cons l tighter ih =>
    rw [opsOf_cons] at once mem none_
    obtain ⟨-, once', apart⟩ := List.nodup_append.1 once
    have inner : NoneOf (opsOf tighter) k := fun op mem => none_ op (List.mem_append_right _ mem)
    have here_ : NoneOf l.ops k := fun op mem => none_ op (List.mem_append_left _ mem)
    obtain found | later := List.mem_append.1 mem
    · have foreign : NoneOf (opsOf tighter) op.token := by
        intro other mem eq
        exact apart op found other mem (BinaryOp.token_injective eq).symm
      exact level_two found here_ more (binary_one tighter foreign hl) (binary_one tighter inner hr)
    · exact level_one here_ (ih once' later inner)

/-- Only comparisons are chained. -/
def Level.ChainsComparisons : Level → Prop
  | .leftAssoc _ => True
  | .chain ops => ∀ op ∈ ops, op.family = .comparison

instance (l : Level) : Decidable l.ChainsComparisons :=
  match l with
  | .leftAssoc _ => .isTrue trivial
  | .chain ops => inferInstanceAs (Decidable (∀ op ∈ ops, op.family = .comparison))

theorem levels_chainsComparisons : ∀ l ∈ levels, l.ChainsComparisons := by decide

theorem levels_nodup : (opsOf levels).Nodup := by decide

theorem mem_levels (h : op ≠ .pow) : op ∈ opsOf levels := by
  revert h; cases op <;> decide

/-! ## Powers and unary operators -/

theorem power_one (other : k ≠ .punct .starStar) (reads : Reads c operand before (k :: ks) good) :
    Reads c (power operand) before (k :: ks) good := by
  have none_ : NoneOf [.pow] k := by
    intro op mem eq
    rw [List.mem_singleton.1 mem] at eq
    exact other eq.symm
  refine .bind reads fun base holds => .bind (operations_none none_) fun exponents eq => ?_
  subst eq
  exact .pure holds

theorem power_two (other : k ≠ .punct .starStar) (more : middle ≠ [])
    (hl : Reads c operand before (.punct .starStar :: middle) left)
    (hr : Reads c operand middle (k :: ks) right) :
    Reads c (power operand) before (k :: ks) (BinaryOf .pow left right) := by
  have none_ : NoneOf [.pow] k := by
    intro op mem eq
    rw [List.mem_singleton.1 mem] at eq
    exact other eq.symm
  have one : Reads c (operations [.pow] operand) (BinaryOp.pow.token :: middle) (k :: ks)
      (fun read => ∃ rhs, read = [(.pow, rhs)] ∧ right rhs) :=
    operations_one (by simp) none_ more hr
  refine .bind hl fun base holds => .bind one fun exponents one => ?_
  obtain ⟨exponent, rfl, holds'⟩ := one
  exact binaryNode_reads holds holds'

/-- A unary expression with a good operand. -/
def UnaryOf (op : UnaryOp) (good : Expr → Prop) (e : Expr) : Prop :=
  ∃ n operand, e = .unary n op operand ∧ good operand

theorem unaryNode_reads {op : UnaryOp} {e : Expr} (start : Span) (he : good e) :
    Reads c (unaryNode op start e) ks ks (UnaryOf op good) :=
  .bind (nodeFrom_reads start) fun _ _ => .pure ⟨_, _, rfl, he⟩

variable {op? : TokenKind → Option UnaryOp} {after : List TokenKind}

theorem unary_none (front : before = k :: ks) (none_ : op? k = none)
    (reads : Reads c operand before after good) :
    Reads c (unary op? operand) before after good := by
  subst front
  have ops : Reads c (unaryOps op?) (k :: ks) (k :: ks) (· = []) := by
    refine .repeatFrom fun n fuel => ?_
    obtain ⟨n, rfl⟩ : ∃ m, n = m + 1 := ⟨n - 1, by simp at fuel; omega⟩
    refine .loop_ends (.bind here_reads fun start _ => .bind kind_reads fun kind eq => ?_)
    rw [eq, none_]
    exact .pure ⟨_, rfl, rfl⟩
  refine .bind ops fun ops eq => .bind reads fun e he => ?_
  subst eq
  exact .pure he

theorem unary_one {op : UnaryOp} (some_ : op? op.token = some op) (front : before = k :: ks)
    (none_ : op? k = none) (reads : Reads c operand before after good) :
    Reads c (unary op? operand) (op.token :: before) after (UnaryOf op good) := by
  subst front
  have ink : op.token ≠ .eof := by cases op <;> simp [UnaryOp.token]
  have ops : Reads c (unaryOps op?) (op.token :: k :: ks) (k :: ks)
      (fun ops => ∃ start, ops = [(op, start)]) := by
    refine .repeatFrom fun n fuel => ?_
    obtain ⟨n, rfl⟩ : ∃ m, n = m + 1 + 1 := ⟨n - 2, by simp at fuel; omega⟩
    refine .loop_goes (k :: ks) (fun read => ∃ start, read = [(op, start)]) ?_ ?_
    · refine .bind here_reads fun start _ => .bind kind_reads fun kind eq => ?_
      rw [eq, some_]
      exact .bind (bump_reads ink (by simp)) fun _ _ => .pure ⟨_, rfl, start, rfl⟩
    · rintro _ ⟨start, rfl⟩
      refine .loop_ends (.bind here_reads fun _ _ => .bind kind_reads fun kind eq => ?_)
      rw [eq, none_]
      exact .pure ⟨_, rfl, start, rfl⟩
  refine .bind ops fun ops one => .bind reads fun e he => ?_
  obtain ⟨start, rfl⟩ := one
  exact unaryNode_reads start he

end Parser

end ClassLang
