import ClassLang.Parsing.Programs
import ClassLang.Proofs.Parsing.StatementReads
import ClassLang.Proofs.Syntax.Spacing

/-!
A printed program is read back. What is printed is in order: each class with its operator functions
inside, then the free functions, then the statements; the operator functions come in front of the free
functions therefore, wherever they were written.

* `Parser.program_reads`: a printed program is read as the program with its functions in this order.
-/

namespace ClassLang

open Ink

/-! ## Printed order -/

namespace Program

/-- The operator functions that belong to classes of the name of a class. -/
def operatorsOf (p : Program) (c : Class) : List Function :=
  p.functions.filter fun f => f.owner.any fun owner => owner.same c.name

def freeFunctions (p : Program) : List Function := p.functions.filter fun f => f.owner.isNone

/-- The program with its functions as they are printed: the operator functions class by class, then
the free functions. -/
def regrouped (p : Program) : Program :=
  { p with functions := p.classes.flatMap p.operatorsOf ++ p.freeFunctions }

end Program

namespace Parser

variable {c : Context} {k : TokenKind} {ks rest after : List TokenKind} {bound depth : Nat}

/-! ## Functions -/

theorem addClass_declares (class_ : Class) : Declares c (addClass class_) ks ks
    fun _ classes functions => classes = [class_] ∧ functions = [] :=
  fun s kinds => ⟨(), { s with context := c, classes := s.classes ++ [class_] }, [class_], [], rfl,
    kinds, ⟨rfl, by simp [ParserState.shelf]⟩, rfl, rfl⟩

theorem addFunction_declares (f : Function) : Declares c (addFunction f) ks ks
    fun _ classes functions => classes = [] ∧ functions = [f] :=
  fun s kinds => ⟨(), { s with context := c, functions := s.functions ++ [f] }, [], [f], rfl,
    kinds, ⟨rfl, by simp [ParserState.shelf]⟩, rfl, rfl⟩

theorem param_reads {p : Param} (grammatical : p.Grammatical) (more : rest ≠ []) :
    Reads c param (tokensOf (declarationInk p.type p.name) ++ rest) rest (p.same · = true) := by
  have tokens : tokensOf (declarationInk p.type p.name) ++ rest =
      tokensOf p.type.ink ++ .ident p.name.name :: rest := by
    simp [declarationInk]
  rw [tokens]
  refine .bind here_reads fun start _ =>
    .bind (typeRef_reads grammatical.type (by simp)) fun type sameType => ?_
  refine .bind (expectIdent_reads more) fun name sameName => .bind (nodeFrom_reads start) fun _ _ => ?_
  refine .pure ?_
  simp [Param.same, Ident.same, sameType, sameName]

theorem params_reads {ps : List Param} (grammatical : ∀ p ∈ ps, p.Grammatical) (more : rest ≠ []) :
    Reads c params (tokensOf (commas (ps.map fun p => declarationInk p.type p.name)) ++
      .punct .closeParen :: rest) rest (sameBy Param.same ps · = true) := by
  refine .mono (commaList_reads (by simp) more (fun p listed k ks _ _ => ?_) (fun p listed => ?_)
    (Nat.le_refl _)) fun _ => sameBy_of_forall₂
  · exact param_reads (grammatical p listed) (by simp)
  · obtain ⟨k, ks, front, opens⟩ := p.type.tokens_start [.ident p.name.name]
    refine ⟨k, ks, by rw [← front]; simp [declarationInk], ?_⟩
    rintro rfl
    cases opens

theorem body_reads {b : Block} (grammatical : b.Grammatical .functionBody)
    (replays : ∀ r ∈ b.within, Statement.Replays r) (more : rest ≠ [])
    (length : (tokensOf (b.ink depth) ++ rest).length ≤ bound + 1) :
    Reads c (body (iterate statementWith bound)) (tokensOf (b.ink depth) ++ rest) rest
      (b.same · = true) :=
  .within (reads_block b grammatical replays bound depth rest more length)

theorem tokensOf_params (ps : List Param) : tokensOf (paramsInk ps) ++ rest = .punct .openParen ::
    (tokensOf (commas (ps.map fun p => declarationInk p.type p.name)) ++ .punct .closeParen :: rest) :=
  tokensOf_enclosed _ _ _

theorem functionFrom_reads {f : Function} (start : Span) {type : TypeRef} {name : Ident}
    (grammatical : f.Grammatical) (free : f.operator = none)
    (replays : ∀ r ∈ f.body.within, Statement.Replays r) (more : rest ≠ [])
    (length : (tokensOf (f.body.ink depth) ++ rest).length ≤ bound + 1)
    (sameType : f.returnType.same type = true) (sameName : f.name.same name = true) :
    Reads c (functionFrom (iterate statementWith bound) start type name)
      (tokensOf (paramsInk f.params) ++ (tokensOf (f.body.ink depth) ++ rest)) rest
      (f.same · = true) := by
  rw [tokensOf_params]
  refine .bind (expectPunct_reads (by simp)) fun _ _ => ?_
  refine .bind (params_reads grammatical.callable.params (block_ne_nil f.body rest))
    fun ps sameParams => ?_
  refine .bind (body_reads grammatical.callable.body replays more length) fun b sameBody => ?_
  refine .bind (nodeFrom_reads start) fun _ _ => .pure ?_
  obtain ⟨_, type', name', params', body'⟩ | ⟨_, type', op, place, params', body', owner⟩ :=
    grammatical.written
  · simp [Function.same, sameType, sameName, sameParams, sameBody, sameOption]
  · cases free

/-- A function is put aside that is the same but for numbers and places. -/
def DeclaresFunction (f : Function) (classes : List Class) (functions : List Function) : Prop :=
  classes = [] ∧ ∃ copy, functions = [copy] ∧ f.same copy = true

theorem declaration_function {f : Function} (global : c.inGlobal = true)
    (grammatical : f.Grammatical) (free : f.operator = none)
    (replays : ∀ r ∈ f.body.within, Statement.Replays r) (more : rest ≠ [])
    (length : (tokensOf (f.body.ink depth) ++ rest).length ≤ bound + 1) :
    Declares c (declaration (iterate statementWith bound))
      (tokensOf f.returnType.ink ++ .ident f.name.name :: (tokensOf (paramsInk f.params) ++
        (tokensOf (f.body.ink depth) ++ rest))) rest
      fun found classes functions => found = none ∧ DeclaresFunction f classes functions := by
  have front : tokensOf (paramsInk f.params) ++ (tokensOf (f.body.ink depth) ++ rest) =
      .punct .openParen :: _ := tokensOf_params f.params
  refine .behind here_reads fun start _ =>
    .behind (returnType_reads grammatical.callable.returned (by simp)) fun type sameType => ?_
  refine .behind (expectIdent_reads (by simp [front])) fun name sameName => ?_
  have same : f.name.same name = true := by simp [Ident.same, sameName]
  have read := functionFrom_reads (c := c) start grammatical free replays more length sameType same
  rw [front] at read ⊢
  refine .branch_true (.mono (peek_reads _) fun _ eq => eq.trans (by simp)) ?_
  refine .behind context_reads fun outer eq => ?_
  subst eq
  rw [if_neg (by simp [global])]
  refine .behind read fun copy same => ?_
  refine .bind (addFunction_declares copy) fun _ classes functions ⟨none_, put⟩ => ?_
  subst none_ put
  exact .pure ⟨rfl, rfl, copy, rfl, same⟩

/-! ## Operator functions -/

theorem operatorSymbol?_token (op : BinaryOp) : ∃ symbol, operatorSymbol? op.token = some symbol ∧
    symbol.meaning? 2 = some (.binary op) := by
  cases op <;> exact ⟨_, rfl, rfl⟩

theorem operatorSymbol_reads {op : Operator} (overloadable : op.isOverloadable = true)
    (more : rest ≠ []) : Reads c operatorSymbol (op.tokens ++ rest) rest
      fun symbol => symbol.meaning? op.arity = some op := by
  have plain {kind : TokenKind} {symbol : OperatorSymbol} (known : operatorSymbol? kind = some symbol)
      (means : symbol.meaning? op.arity = some op) (ink : kind ≠ .eof) :
      Reads c operatorSymbol (kind :: rest) rest
        fun symbol => symbol.meaning? op.arity = some op := by
    refine .bind kind_reads fun kind eq => ?_
    subst eq
    split
    · cases known
    · rw [known]
      exact .bind (bump_reads ink more) fun _ _ => .pure means
  cases op with
  | binary op =>
    obtain ⟨symbol, known, means⟩ := operatorSymbol?_token op
    exact plain known means (by cases op <;> simp [BinaryOp.token])
  | unary op =>
    cases op with
    | ref | delete => cases overloadable
    | _ => exact plain rfl rfl (by simp [UnaryOp.token])
  | index =>
    refine .bind kind_reads fun kind eq => ?_
    subst eq
    refine .bind (bump_reads (by simp) (by simp)) fun _ _ => ?_
    exact .bind (expectPunct_reads more) fun _ _ => .pure rfl

theorem operatorFunction_reads {f : Function} {op : Operator} {owner : Ident} (start : Span)
    {type : TypeRef} (grammatical : f.Grammatical) (operator : f.operator = some op)
    (owned : (f.owner.any fun o => o.same owner) = true)
    (replays : ∀ r ∈ f.body.within, Statement.Replays r) (more : rest ≠ [])
    (length : (tokensOf (f.body.ink depth) ++ rest).length ≤ bound + 1)
    (sameType : f.returnType.same type = true) :
    Reads c (operatorFunction (iterate statementWith bound) start type owner)
      (.keyword .kwOperator :: (op.tokens ++ (tokensOf (paramsInk f.params) ++
        (tokensOf (f.body.ink depth) ++ rest)))) rest (f.same · = true) := by
  obtain ⟨overloadable, arity⟩ := grammatical.operator op operator
  rw [tokensOf_params]
  refine .bind (expectKeyword_reads (by simp)) fun _ _ => .bind here_reads fun place _ => ?_
  refine .bind (operatorSymbol_reads overloadable (by simp)) fun symbol means => ?_
  refine .bind (expectPunct_reads (by simp)) fun _ _ => ?_
  refine .bind (params_reads grammatical.callable.params (block_ne_nil f.body rest))
    fun ps sameParams => ?_
  rw [length_of_sameBy sameParams, arity, means]
  refine .bind (body_reads grammatical.callable.body replays more length) fun b sameBody => ?_
  refine .bind (nodeFrom_reads start) fun _ _ => .pure ?_
  obtain ⟨_, type', name', params', body'⟩ | ⟨_, type', op', place, params', body', owner'⟩ :=
    grammatical.written
  · cases operator
  · cases operator
    simp_all [Function.same, Ident.same, sameOption]

/-! ## Modifiers of members -/

/-- The words in front of a member. -/
def memberWords (access : Access) (static virtual overload : Bool) : List Keyword :=
  access.keyword :: (if static then [.kwStatic] else []) ++ (if virtual then [.kwVirtual] else []) ++
    if overload then [.kwOverload] else []

/-- The words that have been read. -/
def MemberModifiers.words (ms : MemberModifiers) : List Keyword := ms.written.map Prod.fst

/-- Whether words may be written behind some others. -/
def goOn : List Keyword → List Keyword → Bool
  | _, [] => true
  | before, word :: words => MemberModifiers.isModifier word &&
    !(if (MemberModifiers.access? word).isSome then
      before.any fun other => (MemberModifiers.access? other).isSome else before.contains word) &&
    goOn (before ++ [word]) words

theorem goOn_memberWords (access : Access) (static virtual overload : Bool) :
    goOn [] (memberWords access static virtual overload) = true := by
  cases access <;> cases static <;> cases virtual <;> cases overload <;> decide

namespace MemberModifiers

theorem has_eq (ms : MemberModifiers) (word : Keyword) : ms.has word = ms.words.contains word := by
  rw [has, words, List.contains_eq_any_beq, List.any_map]
  congr 1
  funext m
  exact Bool.beq_comm

theorem access_eq (ms : MemberModifiers) :
    ms.access = (ms.words.findSome? access?).getD .public := by
  rw [access, words, List.findSome?_map]
  rfl

theorem repeats_eq (ms : MemberModifiers) (word : Keyword) :
    ms.repeats word = if (access? word).isSome then
      ms.words.any fun other => (access? other).isSome else ms.words.contains word := by
  rw [repeats, has_eq, words, List.any_map]
  rfl

theorem barredFromField?_eq_none {ms : MemberModifiers} (virtual : ms.has .kwVirtual = false)
    (overload : ms.has .kwOverload = false) : ms.barredFromField? = none := by
  have none_ {word : Keyword} (absent : ms.has word = false) :
      (ms.written.find? fun m => m.1 == word) = none := by
    refine List.find?_eq_none.2 fun m listed same => ?_
    exact Bool.false_ne_true (absent.symm.trans (List.any_eq_true.2 ⟨m, listed, same⟩))
  rw [barredFromField?, none_ virtual, none_ overload]
  rfl

end MemberModifiers

/-- One more modifier, or their end. -/
def modifierStep (ms : MemberModifiers) : Parser (MemberModifiers ⊕ MemberModifiers) := do
  match ← kind with
  | .keyword word =>
    if !MemberModifiers.isModifier word then return .inr ms
    else if ms.repeats word then fail (.duplicateModifier word)
    else
      let token ← bump
      return .inl ⟨ms.written ++ [(word, token.span)]⟩
  | _ => return .inr ms

theorem memberModifiers_eq : memberModifiers = repeatFrom ⟨[]⟩ modifierStep := rfl

/-- Nothing more is said of a member by a token that a type may start with. -/
theorem modifierStep_ends (ms : MemberModifiers) (opens : k.opensType = true) :
    Reads c (modifierStep ms) (k :: ks) (k :: ks) (· = .inr ms) := by
  refine .bind kind_reads fun kind eq => ?_
  subst eq
  cases kind with
  | keyword word =>
    have other : MemberModifiers.isModifier word = false := by
      cases word <;> first | rfl | exact absurd opens Bool.false_ne_true
    dsimp only
    rw [other, if_pos (by simp)]
    exact .pure rfl
  | ident _ => exact .pure rfl
  | _ => cases opens

theorem modifierLoop_reads (opens : k.opensType = true) (words : List Keyword) :
    ∀ (n : Nat) (ms : MemberModifiers), goOn ms.words words = true →
      (words.map TokenKind.keyword ++ k :: ks).length ≤ n →
      Reads c (loop modifierStep n ms) (words.map TokenKind.keyword ++ k :: ks) (k :: ks)
        fun all => all.words = ms.words ++ words := by
  induction words with
  | nil =>
    intro n ms _ fuel
    obtain ⟨n, rfl⟩ : ∃ m, n = m + 1 := ⟨n - 1, by simp at fuel; omega⟩
    refine .loop_ends (.mono (modifierStep_ends ms opens) fun _ eq => ⟨_, eq, ?_⟩)
    rw [List.append_nil]
  | cons word words ih =>
    intro n ms fresh fuel
    simp only [goOn, Bool.and_eq_true, Bool.not_eq_true'] at fresh
    obtain ⟨⟨modifier, single⟩, others⟩ := fresh
    rw [← MemberModifiers.repeats_eq] at single
    obtain ⟨n, rfl⟩ : ∃ m, n = m + 1 := ⟨n - 1, by simp at fuel; omega⟩
    refine .loop_goes (words.map TokenKind.keyword ++ k :: ks) (fun next => next.words = ms.words ++ [word]) ?_ ?_
    · refine .bind kind_reads fun kind eq => ?_
      subst eq
      dsimp only
      rw [if_neg (by simp [modifier]), if_neg (by simp [single])]
      refine .bind (bump_reads (by simp) (by simp)) fun token _ => .pure ⟨_, rfl, ?_⟩
      simp [MemberModifiers.words]
    · intro next eq
      rw [← eq] at others
      refine .mono (ih n next others (by simp at fuel ⊢; omega)) fun all eq' => ?_
      rw [eq', eq, List.append_assoc]
      rfl

theorem memberModifiers_reads {words : List Keyword} (opens : k.opensType = true)
    (fresh : goOn [] words = true) :
    Reads c memberModifiers (words.map TokenKind.keyword ++ k :: ks) (k :: ks)
      fun ms => ms.words = words := by
  rw [memberModifiers_eq]
  exact .repeatFrom fun n fuel => modifierLoop_reads opens words n ⟨[]⟩ fresh fuel

/-- What is said of a member by the words in front of it. -/
theorem modifiers_of_words {ms : MemberModifiers} {access : Access} {static virtual overload : Bool}
    (same : ms.words = memberWords access static virtual overload) :
    ms.access = access ∧ ms.has .kwStatic = static ∧ ms.has .kwVirtual = virtual ∧
      ms.has .kwOverload = overload := by
  rw [ms.access_eq, ms.has_eq, ms.has_eq, ms.has_eq, same]
  cases access <;> cases static <;> cases virtual <;> cases overload <;> decide

/-! ## Members -/

/-- A member whose modifiers and type have been read. -/
def memberBehind (statement : Parser (Option Statement)) (owner : Ident) (read : Members)
    (start : Span) (ms : MemberModifiers) (type : TypeRef) : Parser Members := do
  if ← peekKeyword .kwOperator then
    match ms.written with
    | (word, span) :: _ => failAt span (.misplacedModifier word .operatorFunction)
    | [] =>
      addFunction (← operatorFunction statement start type owner)
      return read
  else
    let name ← expectIdent
    if ← accept .openParen then
      return { read with methods := (← methodFrom statement start ms type name) :: read.methods }
    else
      return { read with fields := (← fieldFrom start ms type name) :: read.fields }

theorem member_eq (statement : Parser (Option Statement)) (owner : Ident) (read : Members) :
    member statement owner read = (do
      let start ← here
      let ms ← memberModifiers
      expectMemberType
      let type ← returnType
      memberBehind statement owner read start ms type) := rfl

theorem expectMemberType_reads (opens : k.opensType = true) :
    Reads c expectMemberType (k :: ks) (k :: ks) fun _ => True := by
  refine .bind kind_reads fun kind eq => ?_
  subst eq
  cases kind with
  | keyword word =>
    have starts : word.startsType = true := opens
    dsimp only
    rw [if_pos starts]
    exact .pure trivial
  | ident _ => exact .pure trivial
  | _ => cases opens

section

variable {self : Parser (Option Statement)} {owner : Ident} {read : Members}

theorem member_declares (words : List Keyword) {t : TypeRef}
    {good : Members → List Class → List Function → Prop} (fresh : goOn [] words = true)
    (returned : t.Returnable) (other : k ≠ .punct .openBracket)
    (h : ∀ start ms type, ms.words = words → t.same type = true →
      Declares c (memberBehind self owner read start ms type) (k :: ks) after good) :
    Declares c (member self owner read)
      (words.map TokenKind.keyword ++ (tokensOf t.ink ++ k :: ks)) after good := by
  rw [member_eq]
  have type : Reads c returnType (tokensOf t.ink ++ k :: ks) (k :: ks) (t.same · = true) :=
    returnType_reads returned other
  obtain ⟨first, tail, front, opens⟩ := t.tokens_start (k :: ks)
  rw [front] at type ⊢
  refine .behind here_reads fun start _ => .behind (memberModifiers_reads opens fresh) fun ms words => ?_
  refine .behind (expectMemberType_reads opens) fun _ _ => .behind type fun type same => ?_
  exact h start ms type words same

theorem fieldFrom_reads {f : Field} (start : Span) {ms : MemberModifiers} {type : TypeRef}
    {name : Ident} (grammatical : GrammaticalVariable f.type f.name f.init)
    (words : ms.words = memberWords f.access f.isStatic false false)
    (sameType : f.type.same type = true) (sameName : f.name.same name = true) (more : rest ≠ []) :
    Reads c (fieldFrom start ms type name)
      (tokensOf (initializerInk f.init) ++ .punct .semicolon :: rest) rest (f.same · = true) := by
  obtain ⟨access, static, virtual, overload⟩ := modifiers_of_words words
  have typed : type.isVoid = false :=
    (TypeRef.isVoid_of_same sameType).trans (TypeRef.isVoid_of_sound grammatical.type)
  rw [fieldFrom, if_neg (by simp [typed]),
    MemberModifiers.barredFromField?_eq_none virtual overload]
  refine .bind (initializer?_reads grammatical.init) fun init sameInit => ?_
  refine .bind (expectPunct_reads more) fun _ _ => .bind (nodeFrom_reads start) fun _ _ => .pure ?_
  simp [Field.same, access, static, sameType, sameName, sameInit]

theorem methodFrom_reads {m : Method} (start : Span) {ms : MemberModifiers} {type : TypeRef}
    {name : Ident} (grammatical : m.Grammatical)
    (replays : ∀ r ∈ m.body.within, Statement.Replays r)
    (words : ms.words = memberWords m.access m.isStatic m.isVirtual m.isOverload)
    (sameType : m.returnType.same type = true) (sameName : m.name.same name = true)
    (more : rest ≠ []) (length : (tokensOf (m.body.ink depth) ++ rest).length ≤ bound + 1) :
    Reads c (methodFrom (iterate statementWith bound) start ms type name)
      (tokensOf (commas (m.params.map fun p => declarationInk p.type p.name)) ++
        .punct .closeParen :: (tokensOf (m.body.ink depth) ++ rest)) rest (m.same · = true) := by
  obtain ⟨access, static, virtual, overload⟩ := modifiers_of_words words
  refine .bind (params_reads grammatical.callable.params (block_ne_nil m.body rest))
    fun ps sameParams => ?_
  refine .bind (body_reads grammatical.callable.body replays more length) fun b sameBody => ?_
  refine .bind (nodeFrom_reads start) fun _ _ => .pure ?_
  simp [Method.same, access, static, virtual, overload, sameType, sameName, sameParams, sameBody]

theorem memberBehind_operator {f : Function} {op : Operator} (start : Span) {ms : MemberModifiers}
    {type : TypeRef} (grammatical : f.Grammatical) (operator : f.operator = some op)
    (owned : (f.owner.any fun o => o.same owner) = true)
    (replays : ∀ r ∈ f.body.within, Statement.Replays r) (words : ms.words = [])
    (sameType : f.returnType.same type = true) (more : rest ≠ [])
    (length : (tokensOf (f.body.ink depth) ++ rest).length ≤ bound + 1) :
    Declares c (memberBehind (iterate statementWith bound) owner read start ms type)
      (.keyword .kwOperator :: (op.tokens ++ (tokensOf (paramsInk f.params) ++
        (tokensOf (f.body.ink depth) ++ rest)))) rest
      fun y classes functions => y = read ∧ DeclaresFunction f classes functions := by
  have unmodified : ms.written = [] := List.map_eq_nil_iff.1 words
  refine .branch_true (.mono (peek_reads _) fun _ eq => eq.trans (by simp)) ?_
  rw [unmodified]
  refine .behind (operatorFunction_reads start grammatical operator owned replays more length sameType)
    fun copy same => ?_
  refine .bind (addFunction_declares copy) fun _ classes functions ⟨none_, put⟩ => ?_
  subst none_ put
  exact .pure ⟨rfl, rfl, copy, rfl, same⟩

theorem memberBehind_method {m : Method} (start : Span) {ms : MemberModifiers} {type : TypeRef}
    (grammatical : m.Grammatical) (replays : ∀ r ∈ m.body.within, Statement.Replays r)
    (words : ms.words = memberWords m.access m.isStatic m.isVirtual m.isOverload)
    (sameType : m.returnType.same type = true) (more : rest ≠ [])
    (length : (tokensOf (m.body.ink depth) ++ rest).length ≤ bound + 1) :
    Reads c (memberBehind (iterate statementWith bound) owner read start ms type)
      (.ident m.name.name :: (tokensOf (paramsInk m.params) ++ (tokensOf (m.body.ink depth) ++ rest)))
      rest fun y => ∃ copy, y = { read with methods := copy :: read.methods } ∧
        m.same copy = true := by
  rw [tokensOf_params]
  refine .branch_false (.mono (peek_reads _) fun _ eq => eq.trans (by simp)) ?_
  refine .bind (expectIdent_reads (by simp)) fun name sameName => ?_
  have same : m.name.same name = true := by simp [Ident.same, sameName]
  refine .branch_true (accept_present (by simp)) ?_
  refine .bind (methodFrom_reads start grammatical replays words sameType same more length)
    fun copy same => .pure ⟨copy, rfl, same⟩

theorem memberBehind_field {f : Field} (start : Span) {ms : MemberModifiers} {type : TypeRef}
    (grammatical : GrammaticalVariable f.type f.name f.init)
    (words : ms.words = memberWords f.access f.isStatic false false)
    (sameType : f.type.same type = true) (more : rest ≠ []) :
    Reads c (memberBehind self owner read start ms type)
      (.ident f.name.name :: (tokensOf (initializerInk f.init) ++ .punct .semicolon :: rest)) rest
      fun y => ∃ copy, y = { read with fields := copy :: read.fields } ∧ f.same copy = true := by
  refine .branch_false (.mono (peek_reads _) fun _ eq => eq.trans (by simp)) ?_
  refine .bind (expectIdent_reads (by simp)) fun name sameName => ?_
  have same : f.name.same name = true := by simp [Ident.same, sameName]
  have reads : Reads c (fieldFrom start ms type name)
      (tokensOf (initializerInk f.init) ++ .punct .semicolon :: rest) rest (f.same · = true) :=
    fieldFrom_reads start grammatical words sameType same more
  obtain ⟨k, ks, front, other⟩ := initializer_starts f.init rest
  rw [front] at reads ⊢
  refine .branch_false (accept_absent other) (.bind reads fun copy same => .pure ⟨copy, rfl, same⟩)

/-- A token that a member starts with. -/
def opensMember : TokenKind → Bool
  | .ident _ => true
  | .keyword word => word.startsType || MemberModifiers.isModifier word
  | _ => false

theorem memberStep_member {class_ : Parser Class}
    {good : Members → List Class → List Function → Prop} (opens : opensMember k = true)
    (h : Declares c (member self owner read) (k :: ks) after good) :
    Declares c (memberStep self class_ owner read) (k :: ks) after
      fun result classes functions => ∃ y, result = .inl y ∧ good y classes functions := by
  have member_ : Declares c (do return .inl (← member self owner read) : Parser (Members ⊕ Members))
      (k :: ks) after fun result classes functions => ∃ y, result = .inl y ∧ good y classes functions :=
    .bind h fun y classes functions holds => .pure ⟨y, rfl, by simpa using holds⟩
  have other : k ≠ .punct .closeBrace := by
    rintro rfl
    cases opens
  refine .branch_false (accept_absent other) (.behind kind_reads fun kind eq => ?_)
  subst eq
  cases kind with
  | ident name => exact member_
  | keyword word =>
    cases word <;> first | exact absurd opens Bool.false_ne_true | exact member_
  | _ => cases opens

end

/-- A member in printed form. -/
inductive PrintedMember where
  | field (f : Field)
  | method (m : Method)
  | operator (f : Function)

namespace PrintedMember

def ink : PrintedMember → List Ink
  | field f => f.ink
  | method m => m.ink
  | operator f => f.ink 1

def field? : PrintedMember → Option Field
  | field f => some f
  | _ => none

def method? : PrintedMember → Option Method
  | method m => some m
  | _ => none

def operator? : PrintedMember → Option Function
  | operator f => some f
  | _ => none

/-- What the parser makes inside a class and does not take for something else when it is read again. -/
def Readable (owner : Ident) : PrintedMember → Prop
  | field f => GrammaticalVariable f.type f.name f.init
  | method m => m.Grammatical ∧ ∀ r ∈ m.body.within, Statement.Replays r
  | operator f => f.Grammatical ∧ (f.owner.any fun o => o.same owner) = true ∧
    ∀ r ∈ f.body.within, Statement.Replays r

end PrintedMember

/-- What has been read of a class is the same as some members. -/
structure SameMembers (done : List PrintedMember) (read : Members) (classes : List Class)
    (functions : List Function) : Prop where
  fields : List.Forall₂ (fun f f' => f.same f' = true) (done.filterMap PrintedMember.field?)
    read.fields.reverse
  methods : List.Forall₂ (fun m m' => m.same m' = true) (done.filterMap PrintedMember.method?)
    read.methods.reverse
  functions : List.Forall₂ (fun f f' => f.same f' = true) (done.filterMap PrintedMember.operator?)
    functions
  classes : classes = []

namespace SameMembers

variable {done : List PrintedMember} {read : Members} {classes : List Class}
  {functions : List Function}

theorem field {f copy : Field} (h : SameMembers done read classes functions)
    (same : f.same copy = true) : SameMembers (done ++ [.field f])
      { read with fields := copy :: read.fields } classes functions where
  fields := by
    rw [List.filterMap_append, List.reverse_cons]
    exact List.rel_append h.fields (.cons same .nil)
  methods := by simpa [List.filterMap_cons, PrintedMember.method?] using h.methods
  functions := by simpa [List.filterMap_cons, PrintedMember.operator?] using h.functions
  classes := h.classes

theorem method {m copy : Method} (h : SameMembers done read classes functions)
    (same : m.same copy = true) : SameMembers (done ++ [.method m])
      { read with methods := copy :: read.methods } classes functions where
  fields := by simpa [List.filterMap_cons, PrintedMember.field?] using h.fields
  methods := by
    rw [List.filterMap_append, List.reverse_cons]
    exact List.rel_append h.methods (.cons same .nil)
  functions := by simpa [List.filterMap_cons, PrintedMember.operator?] using h.functions
  classes := h.classes

theorem operator {f copy : Function} (h : SameMembers done read classes functions)
    (same : f.same copy = true) : SameMembers (done ++ [.operator f]) read classes
      (functions ++ [copy]) where
  fields := by simpa [List.filterMap_cons, PrintedMember.field?] using h.fields
  methods := by simpa [List.filterMap_cons, PrintedMember.method?] using h.methods
  functions := by
    rw [List.filterMap_append]
    exact List.rel_append h.functions (.cons same .nil)
  classes := h.classes

end SameMembers

theorem tokensOf_tokens (kinds : List TokenKind) : tokensOf (kinds.map Ink.token) = kinds := by
  induction kinds with
  | nil => rfl
  | cons k kinds ih => rw [List.map_cons, tokensOf_token, ih]

theorem tokensOf_field (f : Field) : tokensOf f.ink ++ rest =
    (memberWords f.access f.isStatic false false).map TokenKind.keyword ++
      (tokensOf f.type.ink ++ .ident f.name.name ::
        (tokensOf (initializerInk f.init) ++ .punct .semicolon :: rest)) := by
  cases static : f.isStatic <;>
    simp [Field.ink, static, optionalWord, memberWords, declarationInk]

theorem tokensOf_method (m : Method) : tokensOf m.ink ++ rest =
    (memberWords m.access m.isStatic m.isVirtual m.isOverload).map TokenKind.keyword ++
      (tokensOf m.returnType.ink ++ .ident m.name.name ::
        (tokensOf (paramsInk m.params) ++ (tokensOf (m.body.ink 1) ++ rest))) := by
  cases static : m.isStatic <;> cases virtual : m.isVirtual <;> cases overload : m.isOverload <;>
    simp [Method.ink, static, virtual, overload, optionalWord, memberWords, declarationInk]

theorem tokensOf_operator {f : Function} {op : Operator} (operator : f.operator = some op) :
    tokensOf (f.ink depth) ++ rest = tokensOf f.returnType.ink ++ .keyword .kwOperator ::
      (op.tokens ++ (tokensOf (paramsInk f.params) ++ (tokensOf (f.body.ink depth) ++ rest))) := by
  simp [Function.ink, operator, tokensOf_tokens]

theorem tokensOf_function {f : Function} (free : f.operator = none) :
    tokensOf (f.ink depth) ++ rest = tokensOf f.returnType.ink ++ .ident f.name.name ::
      (tokensOf (paramsInk f.params) ++ (tokensOf (f.body.ink depth) ++ rest)) := by
  simp [Function.ink, free, declarationInk]

theorem opensMember_of_opensType (opens : k.opensType = true) : opensMember k = true := by
  cases k with
  | keyword word => exact Bool.or_eq_true_iff.2 (.inl opens)
  | ident _ => rfl
  | _ => cases opens

theorem opensMember_access (access : Access) : opensMember (.keyword access.keyword) = true := by
  cases access <;> rfl

section

variable {owner : Ident} {class_ : Parser Class} {read : Members} {done : List PrintedMember}
  {classes : List Class} {functions : List Function}

theorem operator_of_owned {f : Function} (grammatical : f.Grammatical)
    (owned : (f.owner.any fun o => o.same owner) = true) : ∃ op, f.operator = some op := by
  obtain ⟨_, type, name, params, body⟩ | ⟨_, type, op, place, params, body, owner'⟩ :=
    grammatical.written
  · cases owned
  · exact ⟨op, rfl⟩

/-- Reading one more member. -/
def NextMember (done : List PrintedMember) (m : PrintedMember) (classes : List Class)
    (functions : List Function) (result : Members ⊕ Members) (classes' : List Class)
    (functions' : List Function) : Prop :=
  ∃ y, result = .inl y ∧ SameMembers (done ++ [m]) y (classes ++ classes') (functions ++ functions')

theorem memberStep_reads {m : PrintedMember} (readable : m.Readable owner)
    (here : SameMembers done read classes functions) (more : rest ≠ [])
    (length : (tokensOf m.ink ++ rest).length ≤ bound + 1) :
    Declares c (memberStep (iterate statementWith bound) class_ owner read) (tokensOf m.ink ++ rest)
      rest (NextMember done m classes functions) := by
  cases m with
  | field f =>
    rw [PrintedMember.ink, tokensOf_field]
    refine .mono (memberStep_member (opensMember_access f.access) (member_declares _
      (goOn_memberWords f.access f.isStatic false false) (.inl (GrammaticalVariable.type readable)) (by simp)
      fun start ms type words same =>
        (memberBehind_field start readable words same more).declares)) ?_
    rintro _ _ _ ⟨_, rfl, ⟨copy, rfl, same⟩, rfl, rfl⟩
    exact ⟨_, rfl, by simpa using here.field same⟩
  | method m =>
    obtain ⟨grammatical, replays⟩ := readable
    rw [PrintedMember.ink, tokensOf_method] at length ⊢
    have shorter : (tokensOf (m.body.ink 1) ++ rest).length ≤ bound + 1 := by
      simp only [List.length_append, List.length_cons] at length ⊢
      omega
    refine .mono (memberStep_member (opensMember_access m.access) (member_declares _
      (goOn_memberWords m.access m.isStatic m.isVirtual m.isOverload)
      grammatical.callable.returned (by simp) fun start ms type words same =>
        (memberBehind_method start grammatical replays words same more shorter).declares)) ?_
    rintro _ _ _ ⟨_, rfl, ⟨copy, rfl, same⟩, rfl, rfl⟩
    exact ⟨_, rfl, by simpa using here.method same⟩
  | operator f =>
    obtain ⟨grammatical, owned, replays⟩ := readable
    obtain ⟨op, operator⟩ := operator_of_owned grammatical owned
    rw [PrintedMember.ink, tokensOf_operator operator] at length ⊢
    have shorter : (tokensOf (f.body.ink 1) ++ rest).length ≤ bound + 1 := by
      simp only [List.length_append, List.length_cons] at length ⊢
      omega
    have member_ : Declares c (member (iterate statementWith bound) owner read)
        (tokensOf f.returnType.ink ++ .keyword .kwOperator :: (op.tokens ++
          (tokensOf (paramsInk f.params) ++ (tokensOf (f.body.ink 1) ++ rest)))) rest
        fun y classes functions => y = read ∧ DeclaresFunction f classes functions :=
      member_declares [] rfl grammatical.callable.returned (by simp)
        fun start ms type words same =>
          memberBehind_operator start grammatical operator owned replays words same more shorter
    obtain ⟨k, ks, front, opens⟩ := f.returnType.tokens_start (.keyword .kwOperator ::
      (op.tokens ++ (tokensOf (paramsInk f.params) ++ (tokensOf (f.body.ink 1) ++ rest))))
    rw [front] at member_ ⊢
    refine .mono (memberStep_member (opensMember_of_opensType opens) member_) ?_
    rintro _ _ _ ⟨_, rfl, rfl, rfl, copy, rfl, same⟩
    exact ⟨_, rfl, by simpa using here.operator same⟩

end

/-! ## Classes -/

theorem tokensOf_flatMap {α : Type} (items : List α) (ink : α → List Ink) :
    tokensOf (items.flatMap ink) = items.flatMap fun a => tokensOf (ink a) :=
  List.filterMap_flatMap

/-- The members of a class in the order in which they are printed. -/
def printedMembers (operators : List Function) (class_ : Class) : List PrintedMember :=
  class_.fields.map .field ++ class_.methods.map .method ++ operators.map .operator

section

variable (operators : List Function) (class_ : Class)

theorem printedMembers_field? :
    (printedMembers operators class_).filterMap PrintedMember.field? = class_.fields := by
  simp [printedMembers, List.filterMap_map, Function.comp_def, PrintedMember.field?]

theorem printedMembers_method? :
    (printedMembers operators class_).filterMap PrintedMember.method? = class_.methods := by
  simp [printedMembers, List.filterMap_map, Function.comp_def, PrintedMember.method?]

theorem printedMembers_operator? :
    (printedMembers operators class_).filterMap PrintedMember.operator? = operators := by
  simp [printedMembers, List.filterMap_map, Function.comp_def, PrintedMember.operator?]

end

theorem tokensOf_class (operators : List Function) (class_ : Class) :
    tokensOf (class_.ink operators) ++ rest = .keyword .kwClass :: .ident class_.name.name ::
      (tokensOf (genericsInk class_.generics) ++ (tokensOf (superclassInk class_.superclass) ++
        .punct .openBrace :: ((printedMembers operators class_).flatMap (fun m => tokensOf m.ink) ++
          .punct .closeBrace :: rest))) := by
  simp [Class.ink_eq, printedMembers, tokensOf_flatMap, List.flatMap_map, PrintedMember.ink]

theorem genericParams_eq : genericParams = (do
    if ← accept .openBracket then
      repeatFrom [] (commaStep .closeBracket .expectedCommaOrCloseBracket expectIdent)
    else return []) := rfl

theorem genericParams_reads (names : List Ident) (other : k ≠ .punct .openBracket) :
    Reads c genericParams (tokensOf (genericsInk names) ++ k :: ks) (k :: ks)
      (sameBy Ident.same names · = true) := by
  rw [genericParams_eq]
  cases names with
  | nil => exact .branch_false (accept_absent other) (.pure rfl)
  | cons name names =>
    rw [genericsInk, if_neg (by simp), tokensOf_enclosed]
    refine .branch_true (accept_present (by simp)) (.mono (.repeatFrom fun n fuel =>
      commaLoop_reads (by simp) (by simp) names name n [] [] .nil (fun name _ k ks _ _ => ?_)
        (Nat.le_refl _) fuel) fun _ => sameBy_of_forall₂)
    refine .mono (expectIdent_reads (by simp)) fun copy eq => ?_
    simp [Ident.same, eq]

/-- What is behind the superclass. -/
def classBehind (statement : Parser (Option Statement)) (class_ : Parser Class) (start : Span)
    (name : Ident) (generics : List Ident) (superclass : Option TypeRef) : Parser Class := do
  let _ ← expectPunct .openBrace
  let members ← within .classBody <|
    repeatFrom (⟨[], []⟩ : Members) (memberStep statement class_ name)
  return ⟨← nodeFrom start, name, generics, superclass, members.fields, members.methods⟩

theorem classWith_eq (statement : Parser (Option Statement)) (class_ : Parser Class) :
    classWith statement class_ = (do
      let start ← expectKeyword .kwClass
      let name ← expectIdent
      let generics ← genericParams
      if ← acceptKeyword .kwExtends then
        let superclass ← some <$> typeRef
        classBehind statement class_ start name generics superclass
      else
        let superclass ← pure none
        classBehind statement class_ start name generics superclass) := rfl

theorem PrintedMember.Readable.resumes {owner : Ident} {m : PrintedMember}
    (readable : m.Readable owner) (rest : List TokenKind) : Resumes (tokensOf m.ink ++ rest) := by
  cases m with
  | field f =>
    refine ⟨_, _, tokensOf_field f, ?_⟩
    cases f.access <;> simp [Access.keyword]
  | method m =>
    refine ⟨_, _, tokensOf_method m, ?_⟩
    cases m.access <;> simp [Access.keyword]
  | operator f =>
    obtain ⟨op, operator⟩ := operator_of_owned readable.1 readable.2.1
    obtain ⟨k, ks, front, opens⟩ := f.returnType.tokens_start _
    refine ⟨k, ks, (tokensOf_operator operator).trans front, ?_⟩
    rintro rfl
    cases opens

section

variable {class_ : Class} {operators : List Function} {self : Parser Class}

theorem members_read {name : Ident}
    (readable : ∀ m ∈ printedMembers operators class_, m.Readable name) (more : rest ≠ [])
    (length : ((printedMembers operators class_).flatMap (fun m => tokensOf m.ink) ++
      .punct .closeBrace :: rest).length ≤ bound + 1) :
    Declares c (repeatFrom ⟨[], []⟩ (memberStep (iterate statementWith bound) self name))
      ((printedMembers operators class_).flatMap (fun m => tokensOf m.ink) ++
        .punct .closeBrace :: rest) rest
      fun all => SameMembers (printedMembers operators class_)
        ⟨all.fields.reverse, all.methods.reverse⟩ := by
  refine .repeatFrom fun n fuel => Declares.loop_items SameMembers
    (fun (all : Members) => SameMembers (printedMembers operators class_)
      ⟨all.fields.reverse, all.methods.reverse⟩) (printedMembers operators class_)
    (fun m listed rest => (readable m listed).resumes rest) ⟨_, _, rfl, by simp⟩ n [] ⟨[], []⟩ [] []
    ⟨.nil, .nil, .nil, rfl⟩ ?_ ?_ length fuel
  · intro m listed done read classes functions behind here resumes shorter
    exact memberStep_reads (readable m listed) here resumes.ne_nil shorter
  · intro n read classes functions here fuel
    refine .loop_ends (Nat.lt_of_lt_of_le (by simp) fuel) ?_
    refine .branch_true (accept_present more) (.pure ⟨_, rfl, ?_⟩)
    simpa using here

/-- A class is read that is the same but for numbers and places, and its operator functions are put
aside. -/
def SameClass (operators : List Function) (class_ copy : Class) (classes : List Class)
    (functions : List Function) : Prop :=
  class_.same copy = true ∧ classes = [] ∧
    List.Forall₂ (fun f f' => f.same f' = true) operators functions

theorem PrintedMember.Readable.copy {owner name : Ident} {m : PrintedMember}
    (same : name.name = owner.name) (readable : m.Readable owner) : m.Readable name := by
  cases m with
  | operator f => exact ⟨readable.1, by simpa [Ident.same, same] using readable.2.1, readable.2.2⟩
  | _ => exact readable

theorem classBehind_reads (start : Span) {name : Ident} {generics : List Ident}
    {superclass : Option TypeRef} (sameName : name.name = class_.name.name)
    (sameGenerics : sameBy Ident.same class_.generics generics = true)
    (sameSuperclass : sameOption TypeRef.same class_.superclass superclass = true)
    (readable : ∀ m ∈ printedMembers operators class_, m.Readable class_.name) (more : rest ≠ [])
    (length : ((printedMembers operators class_).flatMap (fun m => tokensOf m.ink) ++
      .punct .closeBrace :: rest).length ≤ bound + 1) :
    Declares c (classBehind (iterate statementWith bound) self start name generics superclass)
      (.punct .openBrace :: ((printedMembers operators class_).flatMap (fun m => tokensOf m.ink) ++
        .punct .closeBrace :: rest)) rest (SameClass operators class_) := by
  refine .behind (expectPunct_reads (by simp)) fun _ _ => ?_
  refine .bind (.within (members_read (fun m listed => (readable m listed).copy sameName) more length))
    fun all classes functions same => ?_
  refine .behind (nodeFrom_reads start) fun _ _ => .pure ?_
  obtain ⟨fields, methods, declared, none_⟩ := same
  rw [List.reverse_reverse] at fields methods
  rw [printedMembers_field?] at fields
  rw [printedMembers_method?] at methods
  rw [printedMembers_operator?] at declared
  refine ⟨?_, by simpa using none_, by simpa using declared⟩
  simp [Class.same, Ident.same, sameName, sameGenerics, sameSuperclass, sameBy_of_forall₂ fields,
    sameBy_of_forall₂ methods]

theorem classWith_reads (grammatical : class_.Grammatical)
    (readable : ∀ m ∈ printedMembers operators class_, m.Readable class_.name) (more : rest ≠ [])
    (length : (tokensOf (class_.ink operators) ++ rest).length ≤ bound + 1) :
    Declares c (classWith (iterate statementWith bound) self) (tokensOf (class_.ink operators) ++ rest)
      rest (SameClass operators class_) := by
  rw [tokensOf_class] at length ⊢
  have shorter : ((printedMembers operators class_).flatMap (fun m => tokensOf m.ink) ++
      .punct .closeBrace :: rest).length ≤ bound + 1 := by
    simp only [List.length_append, List.length_cons] at length ⊢
    omega
  rw [classWith_eq]
  refine .behind (expectKeyword_reads (by simp)) fun start _ => ?_
  refine .behind (expectIdent_reads (by simp)) fun name sameName => ?_
  cases extends_ : class_.superclass with
  | none =>
    refine .behind (genericParams_reads class_.generics (by simp)) fun generics sameGenerics => ?_
    refine .branch_false (acceptKeyword_absent (by simp)) (.behind (.pure rfl) fun _ eq => ?_)
    subst eq
    exact classBehind_reads start sameName sameGenerics (by rw [extends_]; rfl) readable more shorter
  | some type =>
    refine .behind (genericParams_reads class_.generics (by simp)) fun generics sameGenerics => ?_
    refine .branch_true (acceptKeyword_present (by simp)) ?_
    have some_ (ks : List TokenKind) : Reads c (some <$> typeRef)
        (tokensOf type.ink ++ .punct .openBrace :: ks) (.punct .openBrace :: ks)
        (sameOption TypeRef.same class_.superclass · = true) := by
      rw [extends_]
      exact .bind (typeRef_reads (grammatical.superclass type extends_) (by simp)) fun _ same =>
        .pure same
    exact .behind (some_ _) fun superclass sameSuperclass =>
      classBehind_reads start sameName sameGenerics sameSuperclass readable more shorter

end

/-! ## Programs -/

/-- A class with its operator functions, a free function or a statement in printed form. -/
inductive PrintedItem where
  | class_ (c : Class) (operators : List Function)
  | function (f : Function)
  | statement (s : Statement)

namespace PrintedItem

def ink : PrintedItem → List Ink
  | class_ c operators => c.ink operators
  | function f => f.ink 0
  | statement s => s.ink 0

def class? : PrintedItem → Option Class
  | class_ c _ => some c
  | _ => none

def functions : PrintedItem → List Function
  | class_ _ operators => operators
  | function f => [f]
  | statement _ => []

def statement? : PrintedItem → Option Statement
  | statement s => some s
  | _ => none

/-- What the parser makes at the level of the program and does not take for something else when it is
read again. -/
def Readable : PrintedItem → Prop
  | class_ c operators => c.Grammatical ∧ ∀ m ∈ printedMembers operators c, m.Readable c.name
  | function f => f.Grammatical ∧ f.operator = none ∧ ∀ r ∈ f.body.within, Statement.Replays r
  | statement s => s.Grammatical .global ∧ ∀ r ∈ s.within, Statement.Replays r

theorem Readable.tokens_start {item : PrintedItem} (readable : item.Readable)
    (rest : List TokenKind) :
    ∃ k ks, tokensOf item.ink ++ rest = k :: ks ∧ k.opensStatement = true := by
  cases item with
  | class_ c operators => exact ⟨_, _, tokensOf_class operators c, rfl⟩
  | function f =>
    obtain ⟨k, ks, front, opens⟩ := f.returnType.tokens_start _
    exact ⟨k, ks, (tokensOf_function readable.2.1).trans front, k.opensStatement_of_opensType opens⟩
  | statement s => exact s.tokens_start 0 rest

end PrintedItem

/-- What has been read of a program is the same as some items. -/
structure SameItems (done : List PrintedItem) (read : List Statement) (classes : List Class)
    (functions : List Function) : Prop where
  classes : List.Forall₂ (fun c c' => c.same c' = true) (done.filterMap PrintedItem.class?) classes
  functions : List.Forall₂ (fun f f' => f.same f' = true) (done.flatMap PrintedItem.functions)
    functions
  statements : SameRead (done.filterMap PrintedItem.statement?) read

/-- One more statement or declaration, or the end of the source. -/
def programStep (read : List Statement) : Parser (List Statement ⊕ List Statement) := do
  if ← atEnd then return .inr read.reverse
  else match ← statement with
    | some s => return .inl (s :: read)
    | none => return .inl read

theorem program_eq : program = (do
    let statements ← within .global <| repeatFrom [] programStep
    let (classes, functions) ← takeDeclarations
    return ⟨classes, functions, statements, ← nodeCount⟩) := rfl

theorem statement_class {class_ : Class} {operators : List Function}
    (readable : (PrintedItem.class_ class_ operators).Readable) (more : rest ≠ []) :
    Declares .global statement (tokensOf (class_.ink operators) ++ rest) rest
      fun found classes functions => found = none ∧ ∃ copy, classes = [copy] ∧
        class_.same copy = true ∧ List.Forall₂ (fun f f' => f.same f' = true) operators functions := by
  have reads (n : Nat) (length : (tokensOf (class_.ink operators) ++ rest).length ≤ n + 1) :
      Declares .global (classDecl (iterate statementWith n)) (tokensOf (class_.ink operators) ++ rest)
        rest (SameClass operators class_) :=
    .recursive fun m _ => classWith_reads readable.1 readable.2 more length
  refine .recursive fun n length => ?_
  have read := reads n length
  rw [tokensOf_class] at read ⊢
  refine .behind here_reads fun start _ => .behind kind_reads fun kind eq => ?_
  subst eq
  refine .behind context_reads fun outer eq => ?_
  subst eq
  rw [if_pos (by decide)]
  refine .bind read fun copy _ functions ⟨same, none_, declared⟩ => ?_
  subst none_
  refine .bind (addClass_declares copy) fun _ _ _ ⟨put, none_⟩ => ?_
  subst put none_
  exact .pure ⟨rfl, copy, rfl, same, by simpa using declared⟩

theorem statement_function {f : Function} (readable : (PrintedItem.function f).Readable)
    (more : rest ≠ []) : Declares .global statement (tokensOf (f.ink 0) ++ rest) rest
      fun found classes functions => found = none ∧ DeclaresFunction f classes functions := by
  obtain ⟨grammatical, free, replays⟩ := readable
  refine .recursive fun n length => ?_
  rw [tokensOf_function free] at length ⊢
  have shorter : (tokensOf (f.body.ink 0) ++ rest).length ≤ n + 1 := by
    simp only [List.length_append, List.length_cons] at length ⊢
    omega
  have global : Context.global.inGlobal = true := rfl
  exact statementWith_declaration f.returnType
    (declaration_function global grammatical free replays more shorter)

theorem statement_statement {s : Statement} (readable : (PrintedItem.statement s).Readable)
    (resumes : Resumes rest) :
    Reads .global statement (tokensOf (s.ink 0) ++ rest) rest (SameStatement s) :=
  .recursive (reads_statement s readable.1 readable.2 0 _ rest resumes (Nat.le_refl _))

namespace SameItems

variable {done : List PrintedItem} {read : List Statement} {classes : List Class}
  {functions : List Function}

theorem class_ {c copy : Class} {operators copies : List Function}
    (h : SameItems done read classes functions) (same : c.same copy = true)
    (declared : List.Forall₂ (fun f f' => f.same f' = true) operators copies) :
    SameItems (done ++ [.class_ c operators]) read (classes ++ [copy]) (functions ++ copies) where
  classes := by
    rw [List.filterMap_append]
    exact List.rel_append h.classes (.cons same .nil)
  functions := by
    rw [List.flatMap_append, List.flatMap_singleton]
    exact List.rel_append h.functions declared
  statements := by simpa [List.filterMap_cons, PrintedItem.statement?] using h.statements

theorem function {f copy : Function} (h : SameItems done read classes functions)
    (same : f.same copy = true) :
    SameItems (done ++ [.function f]) read classes (functions ++ [copy]) where
  classes := by simpa [List.filterMap_cons, PrintedItem.class?] using h.classes
  functions := by
    rw [List.flatMap_append, List.flatMap_singleton]
    exact List.rel_append h.functions (.cons same .nil)
  statements := by simpa [List.filterMap_cons, PrintedItem.statement?] using h.statements

theorem statement {s copy : Statement} (h : SameItems done read classes functions)
    (same : s.same copy = true) :
    SameItems (done ++ [.statement s]) (copy :: read) classes functions where
  classes := by simpa [List.filterMap_cons, PrintedItem.class?] using h.classes
  functions := by simpa [PrintedItem.functions] using h.functions
  statements := by
    rw [List.filterMap_append]
    exact h.statements.next same

end SameItems

/-- Reading one more item. -/
def NextItem (done : List PrintedItem) (item : PrintedItem) (classes : List Class)
    (functions : List Function) (result : List Statement ⊕ List Statement) (classes' : List Class)
    (functions' : List Function) : Prop :=
  ∃ y, result = .inl y ∧ SameItems (done ++ [item]) y (classes ++ classes') (functions ++ functions')

theorem programStep_reads {item : PrintedItem} {done : List PrintedItem} {read : List Statement}
    {classes : List Class} {functions : List Function} (readable : item.Readable)
    (here : SameItems done read classes functions) (resumes : Resumes rest) :
    Declares .global (programStep read) (tokensOf item.ink ++ rest) rest
      (NextItem done item classes functions) := by
  have going {f : Parser (List Statement ⊕ List Statement)}
      (h : Declares .global f (tokensOf item.ink ++ rest) rest (NextItem done item classes functions)) :
      Declares .global (do if ← atEnd then return .inr read.reverse else f)
        (tokensOf item.ink ++ rest) rest (NextItem done item classes functions) := by
    obtain ⟨k, ks, front, opens⟩ := readable.tokens_start rest
    have other : k ≠ .eof := by
      rintro rfl
      cases opens
    rw [front] at h ⊢
    exact .branch_false (.mono atEnd_reads fun _ eq => eq.trans (beq_false_of_ne other)) h
  refine going ?_
  cases item with
  | class_ c operators =>
    refine .bind (statement_class readable resumes.ne_nil) ?_
    rintro _ _ declared ⟨rfl, copy, rfl, same, all⟩
    exact .pure ⟨_, rfl, by simpa using here.class_ same all⟩
  | function f =>
    refine .bind (statement_function readable resumes.ne_nil) ?_
    rintro _ _ _ ⟨rfl, rfl, copy, rfl, same⟩
    exact .pure ⟨_, rfl, by simpa using here.function same⟩
  | statement s =>
    refine .behind (statement_statement readable resumes) ?_
    rintro _ ⟨copy, rfl, same⟩
    exact .pure ⟨_, rfl, by simpa using here.statement same⟩

theorem items_read {items : List PrintedItem} (readable : ∀ item ∈ items, item.Readable) :
    Declares .global (repeatFrom [] programStep)
      (items.flatMap (fun item => tokensOf item.ink) ++ [.eof]) [.eof]
      fun all => SameItems items all.reverse := by
  have resumes (item : PrintedItem) (listed : item ∈ items) (rest : List TokenKind) :
      Resumes (tokensOf item.ink ++ rest) := by
    obtain ⟨k, ks, front, opens⟩ := (readable item listed).tokens_start rest
    exact ⟨k, ks, front, fun eq => by rw [eq] at opens; cases opens⟩
  refine .repeatFrom fun n fuel => Declares.loop_items SameItems
    (fun (all : List Statement) => SameItems items all.reverse) items resumes
    ⟨_, _, rfl, by simp⟩ n [] [] [] [] ⟨.nil, .nil, .nil⟩ ?_ ?_ fuel fuel
  · intro item listed done read classes functions behind here resumes _
    exact programStep_reads (readable item listed) here resumes
  · intro n read classes functions here fuel
    refine .loop_ends (Nat.lt_of_lt_of_le (by simp) fuel) ?_
    exact .branch_true (.mono atEnd_reads fun _ eq => eq.trans (by simp)) (.pure ⟨_, rfl, by simpa using here⟩)

/-- What is printed of a program, in order. -/
def printedItems (p : Program) : List PrintedItem :=
  p.classes.map (fun c => .class_ c (p.operatorsOf c)) ++ p.freeFunctions.map .function ++
    p.statements.map .statement

section

variable (p : Program)

theorem tokensOf_program :
    tokensOf p.ink = (printedItems p).flatMap fun item => tokensOf item.ink := by
  simp [Program.ink, printedItems, tokensOf_flatMap, tokensOf_statements, List.flatMap_map,
    PrintedItem.ink, Program.operatorsOf, Program.freeFunctions]

theorem printedItems_class? : (printedItems p).filterMap PrintedItem.class? = p.classes := by
  simp [printedItems, List.filterMap_map, Function.comp_def, PrintedItem.class?]

theorem printedItems_functions :
    (printedItems p).flatMap PrintedItem.functions = p.regrouped.functions := by
  simp [printedItems, List.flatMap_map, PrintedItem.functions, Program.regrouped]

theorem printedItems_statement? :
    (printedItems p).filterMap PrintedItem.statement? = p.statements := by
  simp [printedItems, List.filterMap_map, Function.comp_def, PrintedItem.statement?]

end

theorem printedItems_readable {p : Program} (grammatical : p.Grammatical)
    (replays : ∀ r ∈ p.within, Statement.Replays r) : ∀ item ∈ printedItems p, item.Readable := by
  obtain ⟨inDeclarations, inStatements⟩ := List.forall_mem_append.1 replays
  obtain ⟨inMethods, inFunctions⟩ := List.forall_mem_append.1 inDeclarations
  refine List.forall_mem_append.2 ⟨List.forall_mem_append.2 ⟨?_, ?_⟩, ?_⟩
  · refine List.forall_mem_map.2 fun c listed => ⟨grammatical.classes c listed, ?_⟩
    refine List.forall_mem_append.2 ⟨List.forall_mem_append.2 ⟨?_, ?_⟩, ?_⟩
    · exact List.forall_mem_map.2 (grammatical.classes c listed).fields
    · refine List.forall_mem_map.2 fun m there => ⟨(grammatical.classes c listed).methods m there, ?_⟩
      exact fun r inside => inMethods r
        (List.mem_flatMap.2 ⟨c, listed, List.mem_flatMap.2 ⟨m, there, inside⟩⟩)
    · refine List.forall_mem_map.2 fun f there => ?_
      obtain ⟨known, owned⟩ := List.mem_filter.1 there
      exact ⟨grammatical.functions f known, owned, fun r inside =>
        inFunctions r (List.mem_flatMap.2 ⟨f, known, inside⟩)⟩
  · refine List.forall_mem_map.2 fun f there => ?_
    obtain ⟨known, unowned⟩ := List.mem_filter.1 there
    refine ⟨grammatical.functions f known, ?_, fun r inside =>
      inFunctions r (List.mem_flatMap.2 ⟨f, known, inside⟩)⟩
    obtain ⟨_, type, name, params, body⟩ | ⟨_, type, op, place, params, body, owner⟩ :=
      (grammatical.functions f known).written
    · rfl
    · cases unowned
  · refine List.forall_mem_map.2 fun s listed =>
      ⟨grammaticalStatements_iff.1 grammatical.statements s listed, fun r inside => ?_⟩
    exact inStatements r (List.mem_flatMap.2 ⟨s, listed, inside⟩)

/-- A printed program is read as the program with its functions in printed order. -/
theorem program_reads {p : Program} (grammatical : p.Grammatical)
    (replays : ∀ r ∈ p.within, Statement.Replays r) {s : ParserState}
    (kinds : s.kinds = tokensOf p.ink ++ [.eof]) (empty : s.shelf = ([], [])) :
    ∃ p' t, program c s = (.ok p', t) ∧ t.kinds = [.eof] ∧ p.regrouped.same p' = true := by
  have items : Declares c (within .global (repeatFrom [] programStep)) (tokensOf p.ink ++ [.eof])
      [.eof] fun all => SameItems (printedItems p) all.reverse := by
    rw [tokensOf_program]
    exact .within (items_read (printedItems_readable grammatical replays))
  obtain ⟨all, t, classes, functions, run, left, ⟨-, kept⟩, same⟩ := items s kinds
  obtain ⟨noClasses, noFunctions⟩ := Prod.mk.inj empty
  obtain ⟨keptClasses, keptFunctions⟩ := Prod.mk.inj kept
  rw [noClasses, List.nil_append] at keptClasses
  rw [noFunctions, List.nil_append] at keptFunctions
  have whole : program c s = (.ok ⟨t.classes, t.functions, all, t.nextId⟩,
      { t with classes := [], functions := [] }) := by
    rw [program_eq]
    exact (bind_of_ok run).trans rfl
  refine ⟨_, _, whole, left, ?_⟩
  obtain ⟨sameClasses, sameFunctions, sameStatements_⟩ := same
  rw [printedItems_class?, ← keptClasses] at sameClasses
  rw [printedItems_functions, ← keptFunctions] at sameFunctions
  have statements : sameStatements p.statements all = true := by
    rw [printedItems_statement?] at sameStatements_
    simpa using sameStatements_.sameStatements
  exact Bool.and_eq_true_iff.2 ⟨Bool.and_eq_true_iff.2 ⟨sameBy_of_forall₂ sameClasses,
    sameBy_of_forall₂ sameFunctions⟩, statements⟩

end Parser

end ClassLang
