import ClassLang.Proofs.Parsing.Prolonging

/-!
Types and expressions on prolonged tokens. Inside brackets an expression is any expression; an
operand that comes last has only operators that the token behind it is none of.

* `operandOf_follows`: an operand is read as on its own in front of a token that separates it.
-/

namespace ClassLang

open Resembles (like)

namespace Parser

variable {k : TokenKind} {ks : List TokenKind} {whole : Bool} {before : Cursor → Prop}

/-! ## Types -/

theorem modifiers_follows (word : whole = true → ∀ word, k ≠ .keyword word) :
    FollowsFrom k ks whole before modifiers modifiers := by
  refine .repeatFrom (fun m _ same => ?_) rfl
  subst same
  have another (present : Bool) (word : Keyword) (added : Modifiers) :
      FollowsFrom k ks whole (·.current.kind = .keyword word)
        (if present then Parser.fail (.duplicateModifier word)
          else do let _ ← bump; return .inl added : Parser (Modifiers ⊕ Modifiers))
        (if present then Parser.fail (.duplicateModifier word)
          else do let _ ← bump; return .inl added) := by
    split
    · exact .fail _
    · exact .bind (bump_follows nofun) fun _ _ _ => .pure (.inl rfl)
  refine kind_follows (fun kind => ?_) fun last => ?_
  · split
    · exact another _ _ _
    · exact another _ _ _
    · exact another _ _ _
    · exact .pure (.inr rfl)
  · cases k with
    | keyword other => exact (word last other rfl).elim
    | _ => exact .pure (.inr rfl)

section Types

variable {ops : List BinaryOp} {type type' : Parser TypeRef}
  (apart : whole = true → Separates ops k) (h : Follows k ks false type type')
include apart h

theorem typeArgs?_follows : FollowsFrom k ks whole before (typeArgs? type) (typeArgs? type') := by
  refine .bind (accept_follows fun last => (apart last).selector _ (by decide)) fun _ _ same => ?_
  subst same
  split
  · exact .bind (commaList_follows (fun last => (apart last).mark _ (by decide))
      (fun last => (apart last).mark _ (by decide)) h) fun _ _ same => .pure (.some same)
  · exact .pure .none

theorem typeWith_follows (allowVoid : Bool) :
    FollowsFrom k ks whole before (typeWith type allowVoid) (typeWith type' allowVoid) := by
  refine .bind here_follows fun start start' _ =>
    .bind (modifiers_follows fun last => (apart last).word) fun mods _ same => ?_
  subst same
  -- The arguments of an array or keymap are none if there is no bracket.
  have given {args args' : Option (List TypeRef)} (same : like args args') :
      TypeRef.sameAll (args.getD []) (args'.getD []) = true := by
    cases same with
    | none => rfl
    | some same => exact TypeRef.sameAll_of_forall₂ same
  have container {word : Keyword} (make : Node → List TypeRef → TypeRef)
      (same : ∀ n n' args args', TypeRef.sameAll args args' = true →
        like (make n args) (make n' args')) :
      FollowsFrom k ks whole (·.current.kind = .keyword word)
        (do
          let _ ← bump
          let args ← typeArgs? type
          return make (← nodeFrom start) (args.getD []))
        (do
          let _ ← bump
          let args ← typeArgs? type'
          return make (← nodeFrom start') (args.getD [])) :=
    .bind (bump_follows nofun) fun _ _ _ => .bind (typeArgs?_follows apart h) fun _ _ args =>
      .bind (nodeFrom_follows _ _) fun _ _ _ => .pure (same _ _ _ _ (given args))
  refine kind_follows (fun kind => ?_) fun last => .fail _
  split
  · split
    · exact .fail _
    · exact .bind (bump_follows nofun) fun _ _ _ => .bind (nodeFrom_follows _ _) fun _ _ _ =>
        .pure (beq_self_eq_true mods)
  · exact container (fun n => .array n mods) fun _ _ _ _ args =>
      Bool.and_eq_true_iff.2 ⟨beq_self_eq_true mods, args⟩
  · exact container (fun n => .keymap n mods) fun _ _ _ _ args =>
      Bool.and_eq_true_iff.2 ⟨beq_self_eq_true mods, args⟩
  · refine .bind (bump_follows nofun) fun _ _ _ =>
      .bind (nodeFrom_follows _ _) fun _ _ _ => .pure ?_
    exact Bool.and_eq_true_iff.2 ⟨beq_self_eq_true mods, beq_self_eq_true _⟩
  · refine .bind (expectIdent_follows fun last => (apart last).name) fun name name' sameName =>
      .bind (typeArgs?_follows apart h) fun _ _ same => ?_
    cases same with
    | some same =>
      refine .bind (nodeFrom_follows _ _) fun _ _ _ => .pure (Bool.and_eq_true_iff.2 ⟨?_, ?_⟩)
      · exact Bool.and_eq_true_iff.2 ⟨beq_self_eq_true mods, sameName⟩
      · exact TypeRef.sameAll_of_forall₂ same
    | none =>
      refine .bind (nodeFrom_follows _ _) fun _ _ _ => .pure ?_
      exact Bool.and_eq_true_iff.2 ⟨beq_self_eq_true mods, sameName⟩
  · exact .fail _
  · exact .fail _

end Types

theorem typeRef_follows {ops : List BinaryOp} (apart : whole = true → Separates ops k) :
    FollowsFrom k ks whole before typeRef typeRef := by
  have inner : false = true → Separates ops k := nofun
  exact .recursive (fun _ _ h => typeWith_follows inner h false)
    fun _ _ h => typeWith_follows apart h false

/-! ## Operators -/

section Operators

variable {ops : List BinaryOp} {next next' operand operand' : Parser Expr}

theorem binaryNode_follows (op : BinaryOp) {lhs lhs' rhs rhs' : Expr} (left : like lhs lhs')
    (right : like rhs rhs') :
    FollowsFrom k ks whole before (binaryNode op lhs rhs) (binaryNode op lhs' rhs') := by
  refine .bind (newNode_follows _ _) fun _ _ _ => .pure ?_
  exact Bool.and_eq_true_iff.2 ⟨Bool.and_eq_true_iff.2 ⟨beq_self_eq_true op, left⟩, right⟩

theorem unaryNode_follows (op : UnaryOp) (start start' : Span) {e e' : Expr} (same : like e e') :
    FollowsFrom k ks whole before (unaryNode op start e) (unaryNode op start' e') := by
  refine .bind (nodeFrom_follows _ _) fun _ _ _ => .pure ?_
  exact Bool.and_eq_true_iff.2 ⟨beq_self_eq_true op, same⟩

theorem operatorOf?_follows (other : whole = true → NoneOf ops k) :
    FollowsFrom k ks whole before (operatorOf? ops) (operatorOf? ops) := by
  have missing {kind : TokenKind} (none_ : NoneOf ops kind) :
      ops.find? (fun op => op.token == kind) = none := by
    rw [List.find?_eq_none]
    exact fun op mem => by simpa using none_ op mem
  refine kind_follows (fun kind => ?_) fun last => ?_
  · split
    · next op found =>
      have token := List.find?_some found
      refine .bind (bump_follows ?_) fun _ _ _ => .pure (.some rfl)
      rw [← eq_of_beq token]
      exact op.token_ne_eof
    · exact .pure .none
  · rw [missing fun op _ => op.token_ne_eof, missing (other last)]
    exact .pure .none

theorem leftAssoc_follows (other : whole = true → NoneOf ops k)
    (h : Follows k ks whole next next') :
    FollowsFrom k ks whole before (leftAssoc ops next) (leftAssoc ops next') := by
  refine .bind h.weaken fun _ _ same => .repeatFrom (fun lhs lhs' left => ?_) same
  refine .bind (operatorOf?_follows other) fun _ _ same => ?_
  cases same with
  | none => exact .pure (.inr left)
  | some same =>
    subst same
    exact .bind h fun _ _ right => .bind (binaryNode_follows _ left right) fun _ _ same =>
      .pure (.inl same)

theorem operations_follows (other : whole = true → NoneOf ops k)
    (h : Follows k ks whole next next') :
    FollowsFrom k ks whole before (operations ops next) (operations ops next') := by
  refine .repeatFrom (fun read read' before => ?_) List.Forall₂.nil
  refine .bind (operatorOf?_follows other) fun _ _ same => ?_
  cases same with
  | none => exact .pure (.inr (List.rel_reverse before))
  | some same =>
    subst same
    exact .bind h fun _ _ right => .pure (.inl (.cons ⟨rfl, right⟩ before))

theorem comparisons_follows {rest rest' : List (BinaryOp × Expr)} (same : like rest rest') :
    ∀ {lhs lhs' : Expr}, like lhs lhs' →
      Follows k ks whole (comparisons lhs rest) (comparisons lhs' rest') := by
  induction same with
  | nil => exact fun _ => .pure .nil
  | @cons item item' _ _ first _ ih =>
    intro lhs lhs' left
    obtain ⟨op, rhs⟩ := item
    obtain ⟨op', rhs'⟩ := item'
    obtain ⟨rfl, right⟩ := first
    exact .bind (freshCopy_follows right) fun _ _ shared =>
      .bind (binaryNode_follows op left right) fun _ _ compared =>
        .bind (ih shared) fun _ _ others => .pure (.cons compared others)

theorem conjunction_follows {rest rest' : List Expr} (same : like rest rest') :
    ∀ {first first' : Expr}, like first first' →
      Follows k ks whole (conjunction first rest) (conjunction first' rest') := by
  induction same with
  | nil => exact fun left => .pure left
  | cons second _ ih => exact fun left => .bind (ih second) fun _ _ right =>
      binaryNode_follows .and left right

theorem chain_follows (other : whole = true → NoneOf ops k) (h : Follows k ks whole next next') :
    FollowsFrom k ks whole before (chain ops next) (chain ops next') := by
  refine .bind h.weaken fun _ _ first => .bind (operations_follows other h) fun _ _ others =>
    .bind (comparisons_follows others first) fun _ _ compared => ?_
  cases compared with
  | nil => exact .pure first
  | cons comparison rest => exact conjunction_follows rest comparison

theorem binary_follows {ls : List Level} (other : whole = true → NoneOf (opsOf ls) k)
    (h : Follows k ks whole operand operand') :
    Follows k ks whole (binary ls operand) (binary ls operand') := by
  induction ls with
  | nil => exact h
  | cons l tighter ih =>
    have here_ (last : whole = true) : NoneOf l.ops k := fun op mem =>
      other last op (List.mem_append_left _ mem)
    have inner := ih fun last op mem => other last op (List.mem_append_right _ mem)
    cases l with
    | leftAssoc ops => exact leftAssoc_follows here_ inner
    | chain ops => exact chain_follows here_ inner

theorem applyUnary_follows {ops ops' : List (UnaryOp × Span)} (same : like ops ops')
    {e e' : Expr} (operand : like e e') :
    Follows k ks whole (applyUnary e ops) (applyUnary e' ops') := by
  induction same with
  | nil => exact .pure operand
  | @cons item item' _ _ first _ ih =>
    obtain ⟨op, start⟩ := item
    obtain ⟨op', start'⟩ := item'
    obtain ⟨rfl, -⟩ := first
    exact .bind ih fun _ _ inner => unaryNode_follows op start start' inner

theorem unary_follows {op? : TokenKind → Option UnaryOp} (ink : op? .eof = none)
    (other : whole = true → op? k = none) (h : Follows k ks whole operand operand') :
    FollowsFrom k ks whole before (unary op? operand) (unary op? operand') := by
  have ops : FollowsFrom k ks whole before (unaryOps op?) (unaryOps op?) := by
    refine .repeatFrom (fun read read' before => ?_) List.Forall₂.nil
    refine .bind here_follows fun start start' _ => kind_follows (fun kind => ?_) fun last => ?_
    · split
      · next op found =>
        refine .bind (bump_follows fun isEof => ?_) fun _ _ _ =>
          .pure (.inl (.cons ⟨rfl, trivial⟩ before))
        rw [isEof, ink] at found
        cases found
      · exact .pure (.inr (List.rel_reverse before))
    · rw [ink, other last]
      exact .pure (.inr (List.rel_reverse before))
  exact .bind ops fun _ _ same => .bind h fun _ _ operand => applyUnary_follows same operand

theorem powerOf_follows {others others' : List Expr} (same : like others others') :
    ∀ {base base' : Expr}, like base base' →
      Follows k ks whole (powerOf base others) (powerOf base' others') := by
  induction same with
  | nil => exact fun base => .pure base
  | cons second _ ih => exact fun base => .bind (ih second) fun _ _ exponent =>
      binaryNode_follows .pow base exponent

theorem power_follows (other : whole = true → NoneOf [.pow] k)
    (h : Follows k ks whole operand operand') :
    Follows k ks whole (power operand) (power operand') := by
  refine .bind h fun _ _ base => .bind (operations_follows other h) fun _ _ exponents =>
    powerOf_follows ?_ base
  exact List.forall₂_map_left_iff.2 (List.forall₂_map_right_iff.2
    (exponents.imp fun _ _ same => same.2))

end Operators

/-! ## Operands -/

section Operands

variable {ops : List BinaryOp} {nested nested' : Parser Expr}
  (apart : whole = true → Separates ops k) (h : Follows k ks false nested nested')
include h

theorem keymapPair_follows : Follows k ks false (keymapPair nested) (keymapPair nested') :=
  .bind here_follows fun _ _ _ => .bind h fun _ _ key =>
    .bind (expectPunct_follows nofun) fun _ _ _ => .bind h fun _ _ value =>
      .bind (nodeFrom_follows _ _) fun _ _ _ => .pure ⟨key, value⟩

include apart

theorem primary_follows : Follows k ks whole (primary nested) (primary nested') := by
  refine .bind here_follows fun start start' _ => ?_
  have word {kind : TokenKind} (ink : kind ≠ .eof) (make : Node → Expr)
      (same : ∀ n n', (make n).same (make n') = true) :
      FollowsFrom k ks whole (·.current.kind = kind)
        (do let _ ← bump; return make (← nodeFrom start) : Parser Expr)
        (do let _ ← bump; return make (← nodeFrom start')) :=
    .bind (bump_follows ink) fun _ _ _ => .bind (nodeFrom_follows _ _) fun _ _ _ => .pure (same _ _)
  have comma (last : whole = true) := (apart last).mark .comma (by decide)
  refine kind_follows (fun kind => ?_) fun last => .fail _
  split
  · exact .bind (expectIdent_follows fun last => (apart last).name) fun _ _ same =>
      .bind (nodeFrom_follows _ _) fun _ _ _ => .pure same
  · exact word (by nofun) _ fun _ _ => by simp [Expr.same]
  · exact word (by nofun) _ fun _ _ => by simp [Expr.same]
  · exact word (by nofun) _ fun _ _ => by simp [Expr.same]
  · exact word (by nofun) _ fun _ _ => by simp [Expr.same]
  · exact word (by nofun) _ fun _ _ => by simp [Expr.same]
  · exact word (by nofun) _ fun _ _ => by simp [Expr.same]
  · exact .bind (bump_follows nofun) fun _ _ _ =>
      .bind_closed h (fun _ => (expectPunct_needsMore _).bind) fun _ _ inner =>
        .bind (expectPunct_follows fun last => (apart last).mark _ (by decide)) fun _ _ _ =>
          .pure inner
  · exact .bind (bump_follows nofun) fun _ _ _ =>
      .bind (commaList_follows comma (fun last => (apart last).mark _ (by decide)) h)
        fun _ _ elems => .bind (nodeFrom_follows _ _) fun _ _ _ =>
          .pure (Expr.sameAll_of_forall₂ elems)
  · exact .bind (bump_follows nofun) fun _ _ _ =>
      .bind (commaList_follows comma (fun last => (apart last).mark _ (by decide))
        (keymapPair_follows h)) fun _ _ pairs =>
          .bind (nodeFrom_follows _ _) fun _ _ _ => .pure (Expr.samePairs_of_forall₂ pairs)
  · exact .fail _
  · exact .fail _

theorem postfixStep_follows (start start' : Span) {target target' : Expr}
    (same : like target target') :
    Follows k ks whole (postfixStep nested start target) (postfixStep nested' start' target') := by
  have selector {p : Punct} (mem : p ∈ selectors) (last : whole = true) : k ≠ .punct p :=
    (apart last).selector p mem
  have named (access : MemberAccess) : Follows k ks whole
      (do
        let name ← expectIdent
        return .inl (.member (← nodeFrom start) target access name) : Parser (Expr ⊕ Expr))
      (do
        let name ← expectIdent
        return .inl (.member (← nodeFrom start') target' access name)) := by
    refine .bind (expectIdent_follows fun last => (apart last).name) fun _ _ sameName =>
      .bind (nodeFrom_follows _ _) fun _ _ _ => .pure (.inl ?_)
    refine Bool.and_eq_true_iff.2 ⟨Bool.and_eq_true_iff.2 ⟨same, ?_⟩, sameName⟩
    exact beq_self_eq_true access
  refine .bind (accept_follows (selector (by decide))) fun _ _ eq => ?_
  subst eq
  split
  · exact named .dot
  refine .bind (accept_follows (selector (by decide))) fun _ _ eq => ?_
  subst eq
  split
  · exact named .arrow
  refine .bind (accept_follows (selector (by decide))) fun _ _ eq => ?_
  subst eq
  split
  · exact .bind_closed h (fun _ => (expectPunct_needsMore _).bind) fun _ _ i =>
      .bind (expectPunct_follows fun last => (apart last).mark _ (by decide)) fun _ _ _ =>
        .bind (nodeFrom_follows _ _) fun _ _ _ =>
          .pure (.inl (Bool.and_eq_true_iff.2 ⟨same, i⟩))
  refine .bind (accept_follows (selector (by decide))) fun _ _ eq => ?_
  subst eq
  split
  · exact .bind (commaList_follows (fun last => (apart last).mark _ (by decide))
      (fun last => (apart last).mark _ (by decide)) h) fun _ _ args =>
        .bind (nodeFrom_follows _ _) fun _ _ _ =>
          .pure (.inl (Bool.and_eq_true_iff.2 ⟨same, Expr.sameAll_of_forall₂ args⟩))
  · exact .pure (.inr same)

theorem postfixed_follows : Follows k ks whole (postfixed nested) (postfixed nested') :=
  .bind here_follows fun start start' _ => .bind (primary_follows apart h) fun _ _ first =>
    .repeatFrom (fun _ _ same => postfixStep_follows apart h start start' same) first

theorem allocation_follows : Follows k ks whole (allocation nested) (allocation nested') := by
  refine .bind here_follows fun start start' _ =>
    .bind (acceptKeyword_follows fun last => (apart last).word _) fun _ _ eq => ?_
  subst eq
  split
  · exact .bind (typeRef_follows apart) fun _ _ type => .bind (nodeFrom_follows _ _) fun _ _ _ =>
      .pure type
  refine .bind (acceptKeyword_follows fun last => (apart last).word _) fun _ _ eq => ?_
  subst eq
  split
  · refine .bind (peek_follows nofun fun last => (apart last).word _) fun _ _ eq => ?_
    subst eq
    refine .bind (peek_follows nofun fun last => (apart last).word _) fun _ _ eq => ?_
    subst eq
    split
    · exact .fail _
    · exact .bind (postfixed_follows apart h) fun _ _ same => unaryNode_follows .delete _ _ same
  · exact postfixed_follows apart h

end Operands

/-- What reads the operands of a level, given the tighter levels. -/
def operandOf (tighter : List Level) (nested : Parser Expr) : Parser Expr :=
  binary tighter <| unary sign? <| power <| unary negation? <| allocation nested

section Expressions

variable {tighter : List Level} {nested nested' expr expr' : Parser Expr}

theorem operandOf_follows (apart : whole = true → Separates (.pow :: opsOf tighter) k)
    (h : Follows k ks false nested nested') :
    Follows k ks whole (operandOf tighter nested) (operandOf tighter nested') := by
  have power (last : whole = true) : NoneOf [.pow] k := fun op mem =>
    (apart last).operator op (by simp [List.mem_singleton.1 mem])
  have others (last : whole = true) : NoneOf (opsOf tighter) k := fun op mem =>
    (apart last).operator op (List.mem_cons_of_mem _ mem)
  have factor : Follows k ks whole (unary negation? (allocation nested))
      (unary negation? (allocation nested')) :=
    unary_follows rfl (fun last => (apart last).negation) (allocation_follows apart h)
  exact binary_follows others
    (unary_follows rfl (fun last => (apart last).sign) (power_follows power factor))

theorem inside_follows (h : Follows k ks whole expr expr') :
    Follows k ks whole (inside expr) (inside expr') := by
  refine .bind context_follows fun _ _ eq => ?_
  subst eq
  exact .within _ h

theorem storedValue_follows (mark : Punct) {target target' value value' : Expr}
    (sameT : like target target') (sameV : like value value') :
    Follows k ks whole (storedValue mark target value) (storedValue mark target' value') := by
  unfold storedValue
  split
  · exact .bind (freshCopy_follows sameT) fun _ _ lhs =>
      .bind (binaryNode_follows _ lhs sameV) fun _ _ stored => .pure ⟨rfl, stored⟩
  · exact .pure ⟨rfl, sameV⟩

theorem assignment_follows (h : Follows k ks false expr expr') :
    Follows k ks false (assignment expr) (assignment expr') := by
  have open_ : false = true → Separates (.pow :: opsOf levels) k := nofun
  refine .bind (operandOf_follows open_ (inside_follows h)) fun target target' sameT =>
    .bind (takePunctOf?_follows _) fun _ _ mark => ?_
  cases mark with
  | none => exact .pure sameT
  | @some mark mark' same =>
    obtain ⟨mark, span⟩ := mark
    obtain ⟨mark', span'⟩ := mark'
    obtain ⟨rfl, -⟩ := same
    refine .bind context_follows fun context _ eq => ?_
    subst eq
    have place : target'.isAssignable = target.isAssignable := Expr.isAssignable_of_same sameT
    dsimp only
    rw [place]
    split
    · exact .failAt _ _
    split
    · exact .failAt _ _
    · refine .bind h fun _ _ sameV =>
        .bind (storedValue_follows mark sameT sameV) fun _ _ stored =>
          .bind (newNode_follows _ _) fun _ _ _ => .pure ?_
      refine Bool.and_eq_true_iff.2 ⟨Bool.and_eq_true_iff.2 ⟨?_, sameT⟩, stored.2⟩
      exact beq_iff_eq.2 stored.1

theorem nestedExpression_follows : Follows k ks false nestedExpression nestedExpression :=
  inside_follows (.recursive (fun _ _ h => assignment_follows h) fun _ _ h => assignment_follows h)

end Expressions

end Parser

end ClassLang
