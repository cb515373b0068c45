import ClassLang.Proofs.Parsing.Layouts

/-!
Two parsers side by side, on the same tokens laid out in two ways: statements, declarations and whole
programs.

* `runToEnd_alike`: two lists of the same tokens are read as the same program, or refused with the same
  error at the same tokens.
-/

namespace ClassLang

namespace Parser

variable {α : Type} {l : Layout}

/-! ## Parts of declarations -/

theorem initializer?_tracks :
    Tracks l (Option.map (.relocate l.place)) initializer? initializer? := by
  refine .bind_same (accept_tracks _) fun value => ?_
  split
  · exact .bind nestedExpression_tracks fun _ => .pure rfl
  refine .bind_same (accept_tracks _) fun reference => ?_
  split
  · exact .bind nestedExpression_tracks fun _ => .pure rfl
  · exact .pure rfl

theorem params_tracks : Tracks l (List.map (.relocate l.place)) params params := by
  have param : Tracks l (.relocate l.place) param param :=
    .bind here_tracks fun start => .bind typeRef_tracks fun _ => .bind expectIdent_tracks fun _ =>
      .bind (nodeFrom_tracks start) fun _ => .pure rfl
  exact commaList_tracks _ _ param

theorem condition_tracks : Tracks l (.relocate l.place) condition condition :=
  .bind (expectPunct_tracks _) fun _ => .bind nestedExpression_tracks fun _ =>
    .bind (expectPunct_tracks _) fun _ => .pure rfl

theorem expressionStatement_tracks :
    Tracks l (.relocate l.place) expressionStatement expressionStatement :=
  .bind_same context_tracks fun _ => .bind (.within _ expression_tracks) fun _ =>
    .bind (expectPunct_tracks _) fun _ => .pure rfl

theorem genericParams_tracks : Tracks l (List.map (.relocate l.place)) genericParams genericParams := by
  refine .bind_same (accept_tracks _) fun bracket => ?_
  split
  · refine .repeatFrom (List.map (.relocate l.place)) (fun read => ?_) []
    refine .bind expectIdent_tracks fun name => .bind_same (accept_tracks _) fun comma => ?_
    split
    · exact .pure rfl
    refine .bind_same (accept_tracks _) fun closed => ?_
    split
    · refine .pure (congrArg Sum.inr ?_)
      rw [← List.map_cons, List.map_reverse]
    · exact .fail _
  · exact .pure rfl

theorem operatorSymbol_tracks : Tracks l id operatorSymbol operatorSymbol := by
  refine .bind_same kind_tracks fun kind => ?_
  split
  · exact bump_tracks fun _ _ _ => .bind (expectPunct_tracks _) fun _ => .pure rfl
  · split
    · exact bump_tracks fun _ _ _ => .pure rfl
    · exact .fail _

/-! ## Members -/

def MemberModifiers.relocate (f : Span → Span) (ms : MemberModifiers) : MemberModifiers :=
  ⟨ms.written.map (Prod.map id f)⟩

namespace MemberModifiers

variable (f : Span → Span) (ms : MemberModifiers)

theorem has_relocate (word : Keyword) : (ms.relocate f).has word = ms.has word := List.any_map

theorem access_relocate : (ms.relocate f).access = ms.access := by
  unfold access relocate
  rw [List.findSome?_map]
  rfl

theorem repeats_relocate (word : Keyword) : (ms.relocate f).repeats word = ms.repeats word := by
  unfold repeats
  rw [has_relocate]
  congr 1
  exact List.any_map

theorem barredFromField?_relocate : (ms.relocate f).barredFromField? =
    ms.barredFromField?.map (Prod.map id f) := by
  unfold barredFromField? relocate
  rw [List.find?_map, List.find?_map, Option.map_or]
  rfl

end MemberModifiers

theorem memberModifiers_tracks : Tracks l (.relocate l.place) memberModifiers memberModifiers := by
  refine .repeatFrom (MemberModifiers.relocate l.place)
    (fun ms => .bind_same kind_tracks fun kind => ?_) ⟨[]⟩
  split
  · rw [ms.repeats_relocate]
    split
    · exact .pure rfl
    split
    · exact .fail _
    · refine bump_tracks fun t u laid => .pure (congrArg Sum.inl ?_)
      rw [MemberModifiers.relocate, MemberModifiers.relocate, List.map_append, laid.span]
      rfl
  · exact .pure rfl

theorem expectMemberType_tracks : Tracks l id expectMemberType expectMemberType := by
  refine .bind_same kind_tracks fun kind => ?_
  split
  · exact .pure rfl
  · split
    · exact .pure rfl
    · exact .fail _
  · exact .fail _

def Members.relocate (f : Span → Span) (ms : Members) : Members :=
  ⟨ms.fields.map (.relocate f), ms.methods.map (.relocate f)⟩

theorem fieldFrom_tracks (start : Span) (ms : MemberModifiers) (type : TypeRef) (name : Ident) :
    Tracks l (.relocate l.place) (fieldFrom start ms type name)
      (fieldFrom (l.place start) (ms.relocate l.place) (type.relocate l.place)
        (name.relocate l.place)) := by
  unfold fieldFrom
  rw [type.isVoid_relocate, type.span_relocate, ms.barredFromField?_relocate]
  split
  · exact .failAt _ _
  cases ms.barredFromField? with
  | some barred => exact .failAt _ _
  | none =>
    refine .bind initializer?_tracks fun _ => .bind (expectPunct_tracks _) fun _ =>
      .bind (nodeFrom_tracks start) fun _ => .pure ?_
    rw [ms.access_relocate, ms.has_relocate]
    rfl

/-! ## Statements -/

section Statements

variable {statement : Parser (Option Statement)} {class_ : Parser Class} {block : Parser Block}

section Blocks

variable (h : Tracks l (Option.map (.relocate l.place)) statement statement)
include h

theorem blockOf_tracks : Tracks l (.relocate l.place) (blockOf statement) (blockOf statement) := by
  refine .bind (expectPunct_tracks _) fun start => ?_
  refine .bind (r := List.map (.relocate l.place))
    (.repeatFrom (List.map (.relocate l.place)) (fun read => ?_) []) fun statements =>
      .bind (nodeFrom_tracks start) fun _ => .pure ?_
  · refine .bind_same (accept_tracks _) fun closed => ?_
    split
    · exact .pure (congrArg Sum.inr List.map_reverse.symm)
    refine .bind_same atEnd_tracks fun ended => ?_
    split
    · exact .fail _
    · refine .bind h fun s => ?_
      cases s <;> exact .pure rfl
  · rw [Block.relocate, relocateStatements_eq]

theorem nestedBlock_tracks (extra : Context) :
    Tracks l (.relocate l.place) (nestedBlock statement extra) (nestedBlock statement extra) :=
  .bind_same context_tracks fun _ => .within _ (blockOf_tracks h)

theorem body_tracks : Tracks l (.relocate l.place) (body statement) (body statement) :=
  .within _ (blockOf_tracks h)

end Blocks

theorem elseIfs_relocate (f : Span → Span) (branches : List (Expr × Block)) (last : Alternative) :
    (branches.map (Prod.map (.relocate f) (.relocate f))).foldl
        (fun rest (c, b) => Alternative.elseIf c b rest) (last.relocate f) =
      (branches.foldl (fun rest (c, b) => Alternative.elseIf c b rest) last).relocate f := by
  induction branches generalizing last with
  | nil => rfl
  | cons branch rest ih => exact ih (.elseIf branch.1 branch.2 last)

theorem alternative_tracks (h : Tracks l (.relocate l.place) block block) :
    Tracks l (.relocate l.place) (alternative block) (alternative block) := by
  refine .bind (r := Prod.map (List.map (Prod.map (.relocate l.place) (.relocate l.place)))
      (.relocate l.place))
    (.repeatFrom (List.map (Prod.map (.relocate l.place) (.relocate l.place))) (fun read => ?_) [])
    fun read => .pure (elseIfs_relocate l.place read.1 read.2)
  refine .bind_same (acceptKeyword_tracks _) fun another => ?_
  split
  · refine .bind_same (acceptKeyword_tracks _) fun conditional => ?_
    split
    · exact .bind condition_tracks fun _ => .bind h fun _ => .pure rfl
    · exact .bind h fun _ => .pure rfl
  · exact .pure rfl

/-! ## Declarations -/

section Declarations

variable (h : Tracks l (Option.map (.relocate l.place)) statement statement)
include h

theorem functionFrom_tracks (start : Span) (type : TypeRef) (name : Ident) :
    Tracks l (.relocate l.place) (functionFrom statement start type name)
      (functionFrom statement (l.place start) (type.relocate l.place) (name.relocate l.place)) :=
  .bind (expectPunct_tracks _) fun _ => .bind params_tracks fun _ => .bind (body_tracks h) fun _ =>
    .bind (nodeFrom_tracks start) fun _ => .pure rfl

theorem declaration_tracks :
    Tracks l (Option.map (.relocate l.place)) (declaration statement) (declaration statement) := by
  refine .bind here_tracks fun start => .bind returnType_tracks fun type =>
    .bind expectIdent_tracks fun name => .bind_same (peek_tracks _) fun function => ?_
  rw [type.isVoid_relocate, type.span_relocate]
  split
  · refine .bind_same context_tracks fun context => ?_
    split
    · exact .failAt _ _
    · exact .bind (functionFrom_tracks h start type name) fun f =>
        .bind_same (addFunction_tracks f) fun _ => .pure rfl
  split
  · exact .failAt _ _
  · exact .bind initializer?_tracks fun _ => .bind (expectPunct_tracks _) fun _ =>
      .bind (nodeFrom_tracks start) fun _ => .pure rfl

theorem operatorFunction_tracks (start : Span) (type : TypeRef) (owner : Ident) :
    Tracks l (.relocate l.place) (operatorFunction statement start type owner)
      (operatorFunction statement (l.place start) (type.relocate l.place)
        (owner.relocate l.place)) := by
  refine .bind (expectKeyword_tracks _) fun _ => .bind here_tracks fun place =>
    .bind_same operatorSymbol_tracks fun symbol => .bind (expectPunct_tracks _) fun _ =>
      .bind params_tracks fun params => ?_
  rw [List.length_map]
  split
  · exact .failAt _ _
  · exact .bind (body_tracks h) fun _ => .bind (nodeFrom_tracks start) fun _ => .pure rfl

theorem methodFrom_tracks (start : Span) (ms : MemberModifiers) (type : TypeRef) (name : Ident) :
    Tracks l (.relocate l.place) (methodFrom statement start ms type name)
      (methodFrom statement (l.place start) (ms.relocate l.place) (type.relocate l.place)
        (name.relocate l.place)) := by
  refine .bind params_tracks fun _ => .bind (body_tracks h) fun _ =>
    .bind (nodeFrom_tracks start) fun _ => .pure ?_
  rw [ms.access_relocate, ms.has_relocate, ms.has_relocate, ms.has_relocate]
  rfl

theorem member_tracks (owner : Ident) (read : Members) :
    Tracks l (.relocate l.place) (member statement owner read)
      (member statement (owner.relocate l.place) (read.relocate l.place)) := by
  refine .bind here_tracks fun start => .bind memberModifiers_tracks fun ms =>
    .bind_same expectMemberType_tracks fun _ => .bind returnType_tracks fun type =>
      .bind_same (peek_tracks _) fun operator => ?_
  split
  · obtain ⟨written⟩ := ms
    cases written with
    | nil =>
      exact .bind (operatorFunction_tracks h start type owner) fun f =>
        .bind_same (addFunction_tracks f) fun _ => .pure rfl
    | cons first rest => exact .failAt _ _
  · refine .bind expectIdent_tracks fun name => .bind_same (accept_tracks _) fun method => ?_
    split
    · exact .bind (methodFrom_tracks h start ms type name) fun _ => .pure rfl
    · exact .bind (fieldFrom_tracks start ms type name) fun _ => .pure rfl

variable (hc : Tracks l (.relocate l.place) class_ class_)
include hc

theorem memberStep_tracks (owner : Ident) (read : Members) :
    Tracks l (Sum.map (.relocate l.place) (.relocate l.place))
      (memberStep statement class_ owner read)
      (memberStep statement class_ (owner.relocate l.place) (read.relocate l.place)) := by
  refine .bind_same (accept_tracks _) fun closed => ?_
  split
  · refine .pure (congrArg Sum.inr ?_)
    rw [Members.relocate, Members.relocate, ← List.map_reverse, ← List.map_reverse]
  refine .bind_same kind_tracks fun kind => ?_
  split
  · exact .bind hc fun c => .bind_same (addClass_tracks c) fun _ => .pure rfl
  · exact .fail _
  · exact .fail _
  · exact .fail _
  · exact .bind (member_tracks h owner read) fun _ => .pure rfl
  · exact .bind (member_tracks h owner read) fun _ => .pure rfl
  · exact .fail _

theorem classWith_tracks :
    Tracks l (.relocate l.place) (classWith statement class_) (classWith statement class_) := by
  refine .bind (expectKeyword_tracks _) fun start => .bind expectIdent_tracks fun name =>
    .bind genericParams_tracks fun generics => .bind_same (acceptKeyword_tracks _) fun extended => ?_
  have members := Tracks.within .classBody (.repeatFrom (Members.relocate l.place)
    (memberStep_tracks h hc name) ⟨[], []⟩)
  have rest (superclass : Option TypeRef) : Tracks l (.relocate l.place) (do
        let _ ← expectPunct .openBrace
        let members ← within .classBody <|
          repeatFrom (⟨[], []⟩ : Members) (memberStep statement class_ name)
        return ⟨← nodeFrom start, name, generics, superclass, members.fields, members.methods⟩ :
          Parser Class)
      (do
        let _ ← expectPunct .openBrace
        let members ← within .classBody <|
          repeatFrom (⟨[], []⟩ : Members) (memberStep statement class_ (name.relocate l.place))
        return ⟨← nodeFrom (l.place start), name.relocate l.place, generics.map (.relocate l.place),
          superclass.map (.relocate l.place), members.fields, members.methods⟩) :=
    .bind (expectPunct_tracks _) fun _ => .bind members fun _ =>
      .bind (nodeFrom_tracks start) fun _ => .pure rfl
  dsimp only
  split
  · exact .bind (r := Option.map (.relocate l.place)) (.map typeRef_tracks fun _ => rfl) rest
  · exact .bind (r := Option.map (.relocate l.place)) (.pure rfl) rest

end Declarations

/-! ## The rule for statements -/

variable (h : Tracks l (Option.map (.relocate l.place)) statement statement)
include h

theorem classDecl_tracks :
    Tracks l (.relocate l.place) (classDecl statement) (classDecl statement) :=
  .recursive fun _ hc => classWith_tracks h hc

omit h in
theorem jump_tracks (word : Keyword) (make : Node → Statement)
    (same : ∀ n : Node, make (n.relocate l.place) = (make n).relocate l.place) :
    Tracks l (Option.map (.relocate l.place)) (jump word make) (jump word make) := by
  refine .bind here_tracks fun start => .bind_same context_tracks fun context => ?_
  split
  · exact .fail _
  · exact bump_tracks fun _ _ _ => .bind (expectPunct_tracks _) fun _ =>
      .bind (nodeFrom_tracks start) fun n => .pure (congrArg some (same n))

theorem statementWith_tracks :
    Tracks l (Option.map (.relocate l.place)) (statementWith statement)
      (statementWith statement) := by
  refine .bind here_tracks fun start => ?_
  have plain : Tracks l (Option.map (.relocate l.place)) (do
        let value ← expressionStatement
        return some (.expr (← nodeFrom start) value) : Parser (Option Statement))
      (do
        let value ← expressionStatement
        return some (.expr (← nodeFrom (l.place start)) value)) :=
    .bind expressionStatement_tracks fun _ => .bind (nodeFrom_tracks start) fun _ => .pure rfl
  refine .bind_same kind_tracks fun kind => ?_
  split
  · refine .bind_same context_tracks fun context => ?_
    split
    · exact .bind (classDecl_tracks h) fun c => .bind_same (addClass_tracks c) fun _ => .pure rfl
    · exact .fail _
  · exact bump_tracks fun _ _ _ => .bind condition_tracks fun _ =>
      .bind (nestedBlock_tracks h _) fun _ => .bind (alternative_tracks (nestedBlock_tracks h _))
        fun _ => .bind (nodeFrom_tracks start) fun _ => .pure rfl
  · exact bump_tracks fun _ _ _ => .bind condition_tracks fun _ =>
      .bind (nestedBlock_tracks h _) fun _ => .bind (nodeFrom_tracks start) fun _ => .pure rfl
  · exact bump_tracks fun _ _ _ => .bind (nestedBlock_tracks h _) fun _ =>
      .bind (expectKeyword_tracks _) fun _ => .bind (nestedBlock_tracks h _) fun _ =>
        .bind (nodeFrom_tracks start) fun _ => .pure rfl
  · refine .bind_same context_tracks fun context => ?_
    split
    · exact .fail _
    have rest (value : Option Expr) : Tracks l (Option.map (.relocate l.place)) (do
          let _ ← expectPunct .semicolon
          return some (.return (← nodeFrom start) value) : Parser (Option Statement))
        (do
          let _ ← expectPunct .semicolon
          return some (.return (← nodeFrom (l.place start)) (value.map (.relocate l.place)))) :=
      .bind (expectPunct_tracks _) fun _ => .bind (nodeFrom_tracks start) fun _ => .pure rfl
    refine bump_tracks fun _ _ _ => .bind_same (peek_tracks _) fun bare => ?_
    split
    · exact .bind (r := Option.map (.relocate l.place)) (.pure rfl) rest
    · exact .bind (r := Option.map (.relocate l.place))
        (.map nestedExpression_tracks fun _ => rfl) rest
  · exact jump_tracks _ _ fun _ => rfl
  · exact jump_tracks _ _ fun _ => rfl
  · exact .bind (nestedBlock_tracks h _) fun _ => .bind (nodeFrom_tracks start) fun _ => .pure rfl
  · split
    · exact declaration_tracks h
    · exact plain
  · refine .bind_same startsDeclaration_tracks fun declares => ?_
    split
    · exact declaration_tracks h
    · exact plain
  · exact .fail _
  · exact plain

end Statements

/-! ## Whole programs -/

theorem statement_tracks : Tracks l (Option.map (.relocate l.place)) statement statement :=
  .recursive fun _ h => statementWith_tracks h

theorem program_tracks : Tracks l (.relocate l.place) program program := by
  refine .bind (r := List.map (.relocate l.place)) (.within _
    (.repeatFrom (List.map (.relocate l.place)) (fun read => ?_) [])) fun statements =>
      .bind takeDeclarations_tracks fun _ => .bind_same nodeCount_tracks fun _ => .pure rfl
  refine .bind_same atEnd_tracks fun ended => ?_
  split
  · exact .pure (congrArg Sum.inr List.map_reverse.symm)
  · refine .bind statement_tracks fun s => ?_
    cases s <;> exact .pure rfl

theorem toEnd_tracks {p : Parser α} {ren : α → α} (h : Tracks l ren p p) :
    Tracks l ren p.toEnd p.toEnd := by
  refine .bind h fun _ => .bind_same atEnd_tracks fun ended => ?_
  split
  · exact .pure rfl
  · exact .fail _

/-- Two lists of the same tokens are read in the same way, or refused with the same error at the same
tokens. -/
theorem runToEnd_alike {p : Parser α} {ren : α → α} {ts us : List Token} {a b : Span}
    (h : Tracks l ren p p) (laid : (ParserState.start ts a).Laid l (.start us b)) :
    (∃ v, p.runToEnd ts a = .ok v ∧ p.runToEnd us b = .ok (ren v)) ∨
      ∃ e e', p.runToEnd ts a = .error e ∧ p.runToEnd us b = .error e' ∧
        e'.span = l.place e.span ∧ e'.cause.unquoted = e.cause.unquoted := by
  have alike := toEnd_tracks h _ _ laid
  have run (ts : List Token) (a : Span) : p.runToEnd ts a = (p.toEnd.run (.start ts a)).1 := rfl
  rw [run ts a, run us b]
  generalize p.toEnd.run (.start ts a) = outcome at alike ⊢
  generalize p.toEnd.run (.start us b) = outcome' at alike ⊢
  cases alike with
  | ok same laid => exact .inl ⟨_, rfl, congrArg Except.ok same⟩
  | error here same => exact .inr ⟨_, _, rfl, rfl, here, same⟩

end Parser

end ClassLang
