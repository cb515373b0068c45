import ClassLang.Proofs.Parsing.Landings

/-!
Where statements and declarations stand. A class or function that is put aside stands on the tokens
read so far, not below the construct that it was found in.

* `program_lands`: all that is read as a program stands on the tokens of the source.
-/

namespace ClassLang

namespace Parser

variable {n i k : Nat}

/-! ## Parts -/

theorem initializer?_lands :
    Lands n i (fun j init => Between i j (initializerSpots init)) initializer? := by
  refine .bind (accept_lands _) fun j value le _ => ?_
  split
  · exact .bind (nestedExpression_takes j) fun l e _ there =>
      .pure (there.2.mono le (Nat.le_refl l))
  refine .bind (accept_lands _) fun j' reference le' _ => ?_
  split
  · exact .bind (nestedExpression_takes j') fun l e _ there =>
      .pure (there.2.mono (by omega) (Nat.le_refl l))
  · exact .pure .nil

theorem param_takes : Takes n Param.spots param := by
  refine fun i => .here (.bind (typeRef_takes i) fun j type le ⟨lt, typed⟩ =>
    .bind (expectIdent_takes j) fun k name le' ⟨_, named⟩ => .nodeFrom (by omega) fun m span =>
    .pure ⟨by omega, ?_⟩)
  exact .node ((typed.mono (Nat.le_refl i) le').append (named.mono le (Nat.le_refl k))) span
    (by omega)

theorem params_lands :
    Lands n i (fun j ps => Between i j (ps.flatMap Param.spots)) params :=
  (commaList_lands _ _ param_takes).mono fun _ _ _ => Between.flatMap

theorem condition_takes : Takes n Expr.spots condition :=
  fun _ => .bind (expectPunct_lands _) fun j _ le _ => .bind (nestedExpression_takes j)
    fun _ _ _ ⟨_, there⟩ => .bind (expectPunct_lands _) fun _ _ le' _ =>
      .pure ⟨by omega, there.mono le le'⟩

theorem expressionStatement_takes : Takes n Expr.spots expressionStatement :=
  fun i => .skip (fun _ => ⟨_, rfl⟩) fun _ => .bind (.within (expression_takes i))
    fun _ _ _ ⟨_, there⟩ => .bind (expectPunct_lands _) fun _ _ le _ =>
      .pure ⟨by omega, there.mono (Nat.le_refl i) le⟩

/-! ## Blocks -/

section Statements

variable {statement : Parser (Option Statement)} {block : Parser Block}

abbrev optionSpots (s? : Option Statement) : List Spot := s?.elim [] Statement.spots

/-- A parser of statements, which may leave none. -/
def StatementsLand (n : Nat) (statement : Parser (Option Statement)) : Prop :=
  ∀ i, Lands n i (fun j s? => Between i j (optionSpots s?)) statement

/-- One more statement is read, or none. -/
theorem grow_lands (h : StatementsLand n statement) {final : Nat → List Statement → Prop}
    {read : List Statement} (le : k ≤ i) (all : ∀ s ∈ read, Between k i s.spots) :
    Lands n i (fun j => Sum.elim (fun read => ∀ s ∈ read, Between k j s.spots) (final j)) (do
      match ← statement with
      | some s => return .inl (s :: read)
      | none => return .inl read) := by
  refine .bind (h i) fun j s? le' there => ?_
  have before : ∀ s ∈ read, Between k j s.spots :=
    fun s listed => (all s listed).mono (Nat.le_refl k) le'
  cases s? with
  | some s => exact .pure (List.forall_mem_cons.2 ⟨there.mono le (Nat.le_refl j), before⟩)
  | none => exact .pure before

theorem blockOf_takes (h : StatementsLand n statement) : Takes n Block.spots (blockOf statement) := by
  intro i
  have statements (j : Nat) (le : i ≤ j) :
      Lands n j (fun l ss => ∀ s ∈ ss, Between i l (Statement.spots s))
        (repeatFrom [] fun read => do
          if ← accept .closeBrace then return .inr read.reverse
          else if ← atEnd then fail .unexpectedEof
          else match ← statement with
            | some s => return .inl (s :: read)
            | none => return .inl read) := by
    refine .repeatFrom (fun l read => ∀ s ∈ read, Between i l s.spots) (fun l read le' all => ?_)
      fun _ => nofun
    refine .bind (accept_lands _) fun m closed le'' _ => ?_
    have all : ∀ s ∈ read, Between i m s.spots :=
      fun s listed => (all s listed).mono (Nat.le_refl i) le''
    split
    · exact .pure fun s listed => all s (List.mem_reverse.1 listed)
    refine .skip (fun _ => ⟨_, rfl⟩) fun ended => ?_
    split
    · exact .fail
    · exact grow_lands h (by omega) all
  refine .bind (expectPunct_lands _) fun j start le ⟨same, lt⟩ => .bind (statements j le)
    fun k ss le' all => ?_
  subst same
  refine .nodeFrom (by omega) fun m span => .pure ⟨by omega, ?_⟩
  rw [Block.spots, statementSpots_eq]
  exact .node (.flatMap all) span (by omega)

theorem nestedBlock_takes (extra : Context) (h : StatementsLand n statement) :
    Takes n Block.spots (nestedBlock statement extra) :=
  fun i => .skip (fun _ => ⟨_, rfl⟩) fun _ => .within (blockOf_takes h i)

theorem body_takes (h : StatementsLand n statement) : Takes n Block.spots (body statement) :=
  fun i => .within (blockOf_takes h i)

/-- The branches of a conditional, each a condition and a block. -/
abbrev BranchesFrom (i j : Nat) (branches : List (Expr × Block)) : Prop :=
  ∀ branch ∈ branches, Between i j branch.1.spots ∧ Between i j branch.2.spots

theorem elseIfs_between {j : Nat} {branches : List (Expr × Block)} {last : Alternative}
    (final : Between i j last.spots) (all : BranchesFrom i j branches) :
    Between i j (branches.foldl (fun rest (c, b) => .elseIf c b rest) last).spots := by
  induction branches generalizing last with
  | nil => exact final
  | cons branch rest ih =>
    obtain ⟨⟨condition, block⟩, others⟩ := List.forall_mem_cons.1 all
    exact ih ((condition.append block).append final) others

theorem alternative_lands (h : Takes n Block.spots block) :
    Lands n i (fun j a => Between i j (Alternative.spots a)) (alternative block) := by
  have branches : Lands n i (fun j (read : List (Expr × Block) × Alternative) =>
        BranchesFrom i j read.1 ∧ Between i j read.2.spots)
      (repeatFrom ([] : List (Expr × Block)) fun read => do
        if ← acceptKeyword .kwElse then
          if ← acceptKeyword .kwIf then
            let c ← condition
            let b ← block
            return .inl ((c, b) :: read)
          else return .inr (read, .block (← block))
        else return .inr (read, .none)) := by
    refine .repeatFrom (BranchesFrom i) (fun k read le all => ?_) fun _ => nofun
    have later (l : Nat) (le : k ≤ l) : BranchesFrom i l read := fun branch listed =>
      (all branch listed).imp (·.mono (Nat.le_refl i) le) (·.mono (Nat.le_refl i) le)
    refine .bind (acceptKeyword_lands _) fun a another atElse _ => ?_
    split
    · refine .bind (acceptKeyword_lands _) fun b conditional atIf _ => ?_
      split
      · refine .bind (condition_takes b) fun l c le ⟨_, tested⟩ => .bind (h l)
          fun m b le' ⟨_, there⟩ => .pure (List.forall_mem_cons.2 ⟨⟨?_, ?_⟩, later m (by omega)⟩)
        · exact tested.mono (by omega) le'
        · exact there.mono (by omega) (Nat.le_refl m)
      · exact .bind (h b) fun l b le ⟨_, there⟩ =>
          .pure ⟨later l (by omega), there.mono (by omega) (Nat.le_refl l)⟩
    · exact .pure ⟨later a atElse, .nil⟩
  exact .bind branches fun _ _ _ ⟨all, last⟩ => .pure (elseIfs_between last all)

/-! ## Functions -/

theorem addFunction_lands {f : Function} (there : Between 0 i f.spots) :
    Lands n i (fun _ _ => True) (addFunction f) := by
  intro s before
  exact .reached (Nat.le_refl i) ⟨before.spans, before.left, before.ended, before.prev,
    before.classes, List.forall_mem_append.2 ⟨before.functions, List.forall_mem_singleton.2 there⟩⟩
    trivial

theorem addClass_lands {c : Class} (there : Between 0 i c.spots) :
    Lands n i (fun _ _ => True) (addClass c) := by
  intro s before
  exact .reached (Nat.le_refl i) ⟨before.spans, before.left, before.ended, before.prev,
    List.forall_mem_append.2 ⟨before.classes, List.forall_mem_singleton.2 there⟩,
    before.functions⟩ trivial

theorem functionFrom_lands (h : StatementsLand n statement) {type : TypeRef} {name : Ident}
    (lt : k < i) (typed : Between k i type.spots) (named : Between k i name.spots) :
    Lands n i (fun j f => Between k j (Function.spots f))
      (functionFrom statement ⟨k, k⟩ type name) := by
  refine .bind (expectPunct_lands _) fun a _ atParen _ => .bind params_lands fun b ps le inner =>
    .bind (body_takes h b) fun j body le' ⟨_, block⟩ => .nodeFrom (by omega) fun m span => .pure ?_
  have title : Between k j (type.spots ++ name.spots) :=
    (typed.append named).mono (Nat.le_refl k) (by omega)
  have inner : Between k j (ps.flatMap Param.spots) := inner.mono (by omega) le'
  have block : Between k j body.spots := block.mono (by omega) (Nat.le_refl j)
  exact (Between.node ((title.append inner).append block) span (by omega)).append .nil

/-- The last step of a statement: its node. -/
theorem closed_lands {make : Node → Statement} {inner : List Spot} (lt : k < i)
    (there : Between k i inner) (made : ∀ m, (make m).spots = m.atop inner) :
    Lands n i (fun j s? => Between k j (optionSpots s?)) (do
      return some (make (← nodeFrom ⟨k, k⟩))) := by
  refine .nodeFrom lt fun m span => .pure ?_
  change Between k i (make m).spots
  rw [made]
  exact there.node span lt

theorem declaration_lands (h : StatementsLand n statement) :
    Lands n i (fun j s? => Between i j (optionSpots s?)) (declaration statement) := by
  refine .here (.bind (returnType_takes i) fun j type _ ⟨lt, typed⟩ =>
    .bind (expectIdent_takes j) fun k name le ⟨_, named⟩ => .skip (fun _ => ⟨_, rfl⟩)
    fun function => ?_)
  have typed : Between i k type.spots := typed.mono (Nat.le_refl i) le
  have named : Between i k name.spots := named.mono (by omega) (Nat.le_refl k)
  split
  · refine .skip (fun _ => ⟨_, rfl⟩) fun context => ?_
    split
    · exact .failAt (Nat.le_refl i)
    · refine .bind (functionFrom_lands h (by omega) typed named) fun l f _ there => ?_
      exact .bind (addFunction_lands (there.mono (Nat.zero_le i) (Nat.le_refl l)))
        fun _ _ _ _ => .pure .nil
  split
  · exact .failAt typed.type
  · refine .bind initializer?_lands fun l init le' value => .bind (expectPunct_lands _)
      fun m _ le'' _ => closed_lands (by omega) ?_ fun _ => rfl
    exact ((typed.append named).mono (Nat.le_refl i) (by omega)).append (value.mono (by omega) le'')

theorem operatorSymbol_lands : Lands n i (fun _ _ => True) operatorSymbol := by
  refine .kind fun kind => ?_
  split
  · exact .bump nofun fun _ _ => .bind (expectPunct_lands _) fun _ _ _ _ => .pure trivial
  · split
    · next symbol known =>
      have more : kind ≠ .eof := by
        rintro rfl
        have unknown : operatorSymbol? .eof = none := rfl
        cases unknown.symm.trans known
      exact .bump more fun _ _ => .pure trivial
    · exact .fail

/-- The name of the class around an operator function stands in front of it. -/
theorem operatorFunction_lands (h : StatementsLand n statement) {type : TypeRef} {owner : Ident}
    (lt : k < i) (typed : Between k i type.spots) (owned : Between 0 k owner.spots) :
    Lands n i (fun j f => Between 0 j (Function.spots f))
      (operatorFunction statement ⟨k, k⟩ type owner) := by
  refine .bind (expectKeyword_lands _) fun a _ atWord ⟨_, afterWord⟩ => .here
    (.bind operatorSymbol_lands fun b symbol atSymbol _ => .bind (expectPunct_lands _)
    fun c _ atParen ⟨_, afterParen⟩ => .bind params_lands fun d ps le inner => ?_)
  split
  · exact .failAt (Nat.le_refl a)
  · next operator _ =>
    refine .bind (body_takes h d) fun j body le' ⟨_, block⟩ => .nodeFrom (by omega) fun m span =>
      .pure ?_
    have typed : Between k j type.spots := typed.mono (Nat.le_refl k) (by omega)
    have named : Between k j (Ident.spots ⟨operator.overloadName, ⟨a, a⟩⟩) :=
      .name rfl (by omega) (by omega)
    have inner : Between k j (ps.flatMap Param.spots) := inner.mono (by omega) le'
    have block : Between k j body.spots := block.mono (by omega) (Nat.le_refl j)
    have below := Between.node (((typed.append named).append inner).append block) span (by omega)
    exact (below.mono (Nat.zero_le k) (Nat.le_refl j)).append
      (owned.mono (Nat.le_refl 0) (by omega))

/-! ## Classes -/

theorem memberModifiers_lands :
    Lands n i (fun _ ms => ∀ m ∈ ms.written, m.2.start ≤ m.2.stop) memberModifiers := by
  refine .repeatFrom (fun _ ms => ∀ m ∈ ms.written, m.2.start ≤ m.2.stop)
    (fun k ms _ all => .kind fun kind => ?_) fun _ => nofun
  split
  · split
    · exact .pure all
    split
    · exact .fail
    · refine .bump nofun fun token span => .pure ?_
      refine List.forall_mem_append.2 ⟨all, List.forall_mem_singleton.2 ?_⟩
      exact (span ▸ Nat.le_refl k : token.span.start ≤ token.span.stop)
  · exact .pure all

theorem expectMemberType_lands : Lands n i (fun _ _ => True) expectMemberType := by
  refine .kind fun kind => ?_
  split
  · exact .pure trivial
  · split
    · exact .pure trivial
    · exact .fail
  · exact .fail

structure Members.Between (i j : Nat) (read : Members) : Prop where
  fields : ∀ f ∈ read.fields, ClassLang.Between i j f.spots
  methods : ∀ m ∈ read.methods, ClassLang.Between i j m.spots

theorem Members.Between.mono {i j j' : Nat} {read : Members} (h : read.Between i j) (le : j ≤ j') :
    read.Between i j' :=
  ⟨fun f listed => (h.fields f listed).mono (Nat.le_refl i) le,
    fun m listed => (h.methods m listed).mono (Nat.le_refl i) le⟩

theorem methodFrom_lands (h : StatementsLand n statement) (ms : MemberModifiers) {type : TypeRef}
    {name : Ident} (lt : k < i) (typed : Between k i type.spots) (named : Between k i name.spots) :
    Lands n i (fun j m => Between k j (Method.spots m))
      (methodFrom statement ⟨k, k⟩ ms type name) := by
  refine .bind params_lands fun b ps le inner => .bind (body_takes h b)
    fun j body le' ⟨_, block⟩ => .nodeFrom (by omega) fun m span => .pure ?_
  have title : Between k j (type.spots ++ name.spots) :=
    (typed.append named).mono (Nat.le_refl k) (by omega)
  have inner : Between k j (ps.flatMap Param.spots) := inner.mono (by omega) le'
  have block : Between k j body.spots := block.mono (by omega) (Nat.le_refl j)
  exact .node ((title.append inner).append block) span (by omega)

theorem fieldFrom_lands (ms : MemberModifiers) {type : TypeRef} {name : Ident} (lt : k < i)
    (proper : ∀ m ∈ ms.written, m.2.start ≤ m.2.stop) (typed : Between k i type.spots)
    (named : Between k i name.spots) :
    Lands n i (fun j f => Between k j (Field.spots f)) (fieldFrom ⟨k, k⟩ ms type name) := by
  unfold fieldFrom
  split
  · exact .failAt typed.type
  split
  · next word span barred =>
    have written : (word, span) ∈ ms.written := by
      unfold MemberModifiers.barredFromField? at barred
      rcases Option.or_eq_some_iff.1 barred with found | ⟨-, found⟩
      · exact List.mem_of_find?_eq_some found
      · exact List.mem_of_find?_eq_some found
    exact .failAt (proper _ written)
  · refine .bind initializer?_lands fun l init le value => .bind (expectPunct_lands _)
      fun j _ le' _ => .nodeFrom (by omega) fun m span => .pure ?_
    have title : Between k j (type.spots ++ name.spots) :=
      (typed.append named).mono (Nat.le_refl k) (by omega)
    exact .node (title.append (value.mono (by omega) le')) span (by omega)

theorem member_lands (h : StatementsLand n statement) {owner : Ident} {read : Members} (le : k ≤ i)
    (owned : Between 0 i owner.spots) (there : read.Between k i) :
    Lands n i (fun j => Members.Between k j) (member statement owner read) := by
  refine .here (.bind memberModifiers_lands fun a ms atType proper => .bind expectMemberType_lands
    fun b _ le' _ => .bind (returnType_takes b) fun c type le'' ⟨lt, typed⟩ =>
    .skip (fun _ => ⟨_, rfl⟩) fun operator => ?_)
  have typed : Between i c type.spots := typed.mono (by omega) (Nat.le_refl c)
  split
  · split
    · next word span rest written => exact .failAt (proper (word, span) (by simp [written]))
    · refine .bind (operatorFunction_lands h (by omega) typed owned) fun j f after made =>
        .bind (addFunction_lands made) fun l _ after' _ => .pure (there.mono (by omega))
  · refine .bind (expectIdent_takes c) fun d name atName ⟨_, named⟩ =>
      .bind (accept_lands _) fun e method atParen _ => ?_
    have typed : Between i e type.spots := typed.mono (Nat.le_refl i) (by omega)
    have named : Between i e name.spots := named.mono (by omega) atParen
    split
    · refine .bind (methodFrom_lands h ms (by omega) typed named) fun j m after made => .pure ?_
      have before : read.Between k j := there.mono (by omega)
      exact ⟨before.fields,
        List.forall_mem_cons.2 ⟨made.mono le (Nat.le_refl j), before.methods⟩⟩
    · refine .bind (fieldFrom_lands ms (by omega) proper typed named) fun j f after made => .pure ?_
      have before : read.Between k j := there.mono (by omega)
      exact ⟨List.forall_mem_cons.2 ⟨made.mono le (Nat.le_refl j), before.fields⟩, before.methods⟩

theorem memberStep_lands {class_ : Parser Class} (h : StatementsLand n statement)
    (hc : Takes n Class.spots class_) {owner : Ident} {read : Members} (le : k ≤ i)
    (owned : Between 0 i owner.spots) (there : read.Between k i) :
    Lands n i (fun j => Sum.elim (Members.Between k j) (Members.Between k j))
      (memberStep statement class_ owner read) := by
  refine .bind (accept_lands _) fun j closed le' _ => ?_
  have there : read.Between k j := there.mono le'
  have owned : Between 0 j owner.spots := owned.mono (Nat.le_refl 0) le'
  split
  · exact .pure ⟨fun f listed => there.fields f (List.mem_reverse.1 listed),
      fun m listed => there.methods m (List.mem_reverse.1 listed)⟩
  refine .kind fun kind => ?_
  split
  · refine .bind (hc j) fun l c le'' ⟨_, made⟩ => .bind
      (addClass_lands (made.mono (Nat.zero_le j) (Nat.le_refl l))) fun m _ le3 _ => .pure ?_
    exact there.mono (by omega)
  · exact .fail
  · exact .fail
  · exact .fail
  · exact .bind (member_lands h (by omega) owned there) fun _ _ _ after => .pure after
  · exact .bind (member_lands h (by omega) owned there) fun _ _ _ after => .pure after
  · exact .fail

theorem genericParams_lands :
    Lands n i (fun j names => Between i j (names.flatMap Ident.spots)) genericParams := by
  refine .bind (accept_lands _) fun j bracket le _ => ?_
  split
  · refine .repeatFrom (fun l read => ∀ name ∈ read, Between i l name.spots)
      (fun l read le' all => ?_) fun _ => nofun
    refine .bind (expectIdent_takes l) fun m name le'' ⟨_, named⟩ =>
      .bind (accept_lands _) fun o comma le3 _ => ?_
    have extended (p : Nat) (le3 : m ≤ p) : ∀ other ∈ name :: read, Between i p other.spots :=
      List.forall_mem_cons.2 ⟨named.mono (by omega) le3,
        fun other listed => (all other listed).mono (Nat.le_refl i) (by omega)⟩
    split
    · exact .pure (extended o le3)
    refine .bind (accept_lands _) fun p closed le4 _ => ?_
    split
    · refine .pure (Between.flatMap fun other listed => extended p (by omega) other ?_)
      exact List.mem_reverse.1 listed
    · exact .fail
  · exact .pure .nil

theorem classWith_takes {class_ : Parser Class} (h : StatementsLand n statement)
    (hc : Takes n Class.spots class_) : Takes n Class.spots (classWith statement class_) := by
  intro i
  refine .bind (expectKeyword_lands _) fun a start atClass ⟨same, lt⟩ => .bind (expectIdent_takes a)
    fun b name atName ⟨_, named⟩ => .bind genericParams_lands fun c generics le params =>
    .bind (acceptKeyword_lands _) fun d extended le' _ => ?_
  subst same
  have rest (e : Nat) (superclass : Option TypeRef) (le : d ≤ e)
      (typed : Between i e (superclass.elim [] TypeRef.spots)) :
      Lands n e (fun j c => i < j ∧ Between i j (Class.spots c)) (do
        let _ ← expectPunct .openBrace
        let members ← within .classBody <|
          repeatFrom (⟨[], []⟩ : Members) (memberStep statement class_ name)
        return ⟨← nodeFrom ⟨i, i⟩, name, generics, superclass, members.fields, members.methods⟩) := by
    refine .bind (expectPunct_lands _) fun g _ atBrace _ => ?_
    have members : Lands n g (fun j => Members.Between i j)
        (repeatFrom (⟨[], []⟩ : Members) (memberStep statement class_ name)) :=
      .repeatFrom (fun j => Members.Between i j) (fun j read after there =>
        memberStep_lands h hc (by omega) (named.mono (Nat.zero_le a) (by omega)) there)
        ⟨fun _ => nofun, fun _ => nofun⟩
    refine .bind (.within members) fun j read after there => .nodeFrom (by omega) fun m span =>
      .pure ⟨by omega, ?_⟩
    have named : Between i j name.spots := named.mono atClass (by omega)
    have params : Between i j (generics.flatMap Ident.spots) := params.mono (by omega) (by omega)
    have typed : Between i j (superclass.elim [] TypeRef.spots) :=
      typed.mono (Nat.le_refl i) (by omega)
    exact .node ((((named.append params).append typed).append (.flatMap there.fields)).append
      (.flatMap there.methods)) span (by omega)
  dsimp only
  split
  · refine .bind (.bind (typeRef_takes d) fun e t le ⟨_, there⟩ => .pure ?_) fun e t le there =>
      rest e t le there
    exact there.mono (by omega) (Nat.le_refl e)
  · exact .bind (.pure .nil) fun e t le there => rest e t le there

theorem classDecl_takes (h : StatementsLand n statement) :
    Takes n Class.spots (classDecl statement) :=
  Lands.recursive fun _ hc => classWith_takes h hc

/-! ## Statements -/

theorem jump_lands (word : Keyword) {make : Node → Statement}
    (made : ∀ m, (make m).spots = m.atop []) :
    Lands n i (fun j s? => Between i j (optionSpots s?)) (jump word make) := by
  refine .here (.skip (fun _ => ⟨_, rfl⟩) fun context => ?_)
  split
  · exact .fail
  · exact .bind bump_lands fun _ _ _ _ => .bind (expectPunct_lands _) fun _ _ _ _ =>
      closed_lands (by omega) .nil made

theorem plain_lands (lt : k ≤ i) :
    Lands n i (fun j s? => Between k j (optionSpots s?)) (do
      let value ← expressionStatement
      return some (.expr (← nodeFrom ⟨k, k⟩) value)) :=
  .bind (expressionStatement_takes i) fun j _ _ ⟨_, there⟩ =>
    closed_lands (by omega) (there.mono lt (Nat.le_refl j)) fun _ => rfl

theorem statementWith_lands (h : StatementsLand n statement) :
    StatementsLand n (statementWith statement) := by
  intro i
  have plain := plain_lands (n := n) (Nat.le_refl i)
  refine .here (.kind fun kind => ?_)
  dsimp only
  split
  · refine (Lands.skip (fun _ => ⟨_, rfl⟩) fun context => ?_).on
    split
    · refine .bind (classDecl_takes h i) fun j c _ ⟨_, there⟩ => ?_
      exact .bind (addClass_lands (there.mono (Nat.zero_le i) (Nat.le_refl j)))
        fun _ _ _ _ => .pure .nil
    · exact .fail
  · refine .bind bump_lands fun a _ _ _ => .bind (condition_takes a) fun b c _ ⟨_, tested⟩ =>
      .bind (nestedBlock_takes _ h b) fun d first _ ⟨_, there⟩ =>
      .bind (alternative_lands (nestedBlock_takes _ h)) fun j second le there' =>
      closed_lands (by omega) ?_ fun _ => rfl
    have tested : Between i j c.spots := tested.mono (by omega) (by omega)
    have there : Between i j first.spots := there.mono (by omega) le
    exact (tested.append there).append (there'.mono (by omega) (Nat.le_refl j))
  · refine .bind bump_lands fun a _ _ _ => .bind (condition_takes a) fun b c _ ⟨_, tested⟩ =>
      .bind (nestedBlock_takes _ h b) fun j body le ⟨_, there⟩ =>
      closed_lands (by omega) ?_ fun _ => rfl
    exact (tested.mono (by omega) le).append (there.mono (by omega) (Nat.le_refl j))
  · refine .bind bump_lands fun a _ _ _ => .bind (nestedBlock_takes _ h a)
      fun b body _ ⟨_, there⟩ => .bind (expectKeyword_lands _) fun c _ _ _ =>
      .bind (nestedBlock_takes _ h c) fun j handler le ⟨_, there'⟩ =>
      closed_lands (by omega) ?_ fun _ => rfl
    exact (there.mono (by omega) (by omega)).append (there'.mono (by omega) (Nat.le_refl j))
  · refine (Lands.skip (fun _ => ⟨_, rfl⟩) fun context => ?_).on
    split
    · exact .fail
    have rest (a : Nat) (value : Option Expr) (le : i ≤ a)
        (there : Between i a (value.elim [] Expr.spots)) :
        Lands n a (fun j s? => Between i j (optionSpots s?)) (do
          let _ ← expectPunct .semicolon
          return some (.return (← nodeFrom ⟨i, i⟩) value)) :=
      .bind (expectPunct_lands _) fun b _ le' ⟨_, _⟩ =>
        closed_lands (by omega) (there.mono (Nat.le_refl i) le') fun _ => rfl
    refine .bind bump_lands fun a _ _ _ => .skip (fun _ => ⟨_, rfl⟩) fun bare => ?_
    split
    · exact .bind (.pure .nil) fun b value _ there => rest b value (by omega) there
    · refine .bind (.bind (nestedExpression_takes a) fun b e _ ⟨_, there⟩ => .pure ?_)
        fun b value _ there => rest b value (by omega) there
      exact there.mono (by omega) (Nat.le_refl b)
  · exact (jump_lands _ fun _ => rfl).on
  · exact (jump_lands _ fun _ => rfl).on
  · refine .bind (nestedBlock_takes _ h i) fun j body _ ⟨lt, there⟩ => ?_
    exact closed_lands lt there fun _ => rfl
  · split
    · exact (declaration_lands h).on
    · exact plain.on
  · refine (Lands.skip (fun _ => ⟨_, rfl⟩) fun declares => ?_).on
    split
    · exact declaration_lands h
    · exact plain
  · exact .fail
  · exact plain.on

end Statements

theorem statement_lands : StatementsLand n statement :=
  Lands.recursive fun _ => statementWith_lands

/-! ## Programs -/

theorem takeDeclarations_lands :
    Lands n i (fun j taken => (∀ c ∈ taken.1, Between 0 j c.spots) ∧
      ∀ f ∈ taken.2, Between 0 j f.spots) takeDeclarations := by
  intro s before
  exact .reached (Nat.le_refl i) ⟨before.spans, before.left, before.ended, before.prev,
    fun _ => nofun, fun _ => nofun⟩ ⟨before.classes, before.functions⟩

theorem program_lands : Lands n 0 (fun j p => Between 0 j p.spots) program := by
  have statements : Lands n 0 (fun j ss => ∀ s ∈ ss, Between 0 j (Statement.spots s))
      (repeatFrom [] fun read => do
        if ← atEnd then return .inr read.reverse
        else match ← statement with
          | some s => return .inl (s :: read)
          | none => return .inl read) := by
    refine .repeatFrom (fun j read => ∀ s ∈ read, Between 0 j s.spots) (fun j read le all => ?_)
      fun _ => nofun
    refine .skip (fun _ => ⟨_, rfl⟩) fun ended => ?_
    split
    · exact .pure fun s listed => all s (List.mem_reverse.1 listed)
    · exact grow_lands statement_lands le all
  refine .bind (.within statements) fun i ss _ all => .bind takeDeclarations_lands
    fun j taken le ⟨classes, functions⟩ => .skip (fun _ => ⟨_, rfl⟩) fun count => .pure ?_
  rw [Program.spots, statementSpots_eq]
  exact ((Between.flatMap classes).append (.flatMap functions)).append
    (.flatMap fun s listed => (all s listed).mono (Nat.le_refl 0) le)

theorem program_toEnd_lands :
    Lands n 0 (fun _ p => Between 0 n p.spots) program.toEnd := by
  refine .bind program_lands fun j p _ there => ?_
  intro s before
  refine Lands.skip (fun _ => ⟨_, rfl⟩) (fun ended => ?_) s before
  split
  · exact .pure (there.mono (Nat.le_refl 0) (by have := before.left; omega))
  · exact .fail

end Parser

end ClassLang
