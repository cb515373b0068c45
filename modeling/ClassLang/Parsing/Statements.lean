import ClassLang.Parsing.Exprs

/-!
Parsing of statements and declarations. A class or function that is declared among statements is
put aside for the program and leaves no statement.
-/

namespace ClassLang

namespace Parser

/-! ## Parts of declarations -/

/-- A first value after an assignment mark, if there is one. -/
def initializer? : Parser (Option Initializer) := do
  if ← accept .colonEq then return some ⟨.value, ← nestedExpression⟩
  else if ← accept .eq then return some ⟨.reference, ← nestedExpression⟩
  else return none

/-- A parameter. -/
def param : Parser Param := do
  let start ← here
  let type ← typeRef
  let name ← expectIdent
  return ⟨← nodeFrom start, type, name⟩

/-- Parameters up to the closing parenthesis, the opening one having been read. -/
def params : Parser (List Param) := commaList .closeParen .expectedCommaOrCloseParen param

/-- A condition in parentheses. -/
def condition : Parser Expr := do
  let _ ← expectPunct .openParen
  let condition ← nestedExpression
  let _ ← expectPunct .closeParen
  return condition

/-- An expression followed by a semicolon, where assignments are allowed. -/
def expressionStatement : Parser Expr := do
  let value ← within { ← context with inExpression := false } expression
  let _ ← expectPunct .semicolon
  return value

/-! ## Blocks -/

/-- Statements in braces, given how a statement is read. -/
def blockOf (statement : Parser (Option Statement)) : Parser Block := do
  let start ← expectPunct .openBrace
  let statements ← repeatFrom [] fun read => do
    if ← accept .closeBrace then return .inr read.reverse
    else if ← atEnd then fail .unexpectedEof
    else match ← statement with
      | some s => return .inl (s :: read)
      | none => return .inl read
  return .mk (← nodeFrom start) statements

/-- A block inside a construct, which adds to the context. -/
def nestedBlock (statement : Parser (Option Statement)) (extra : Context) : Parser Block := do
  within ((← context).nested extra) (blockOf statement)

/-- The body of a function or method, whose context does not depend on that around it. -/
def body (statement : Parser (Option Statement)) : Parser Block :=
  within .functionBody (blockOf statement)

/-! ## Conditionals -/

/-- What follows the first block of a conditional, given how a block is read. -/
def alternative (block : Parser Block) : Parser Alternative := do
  let (conditions, last) ← repeatFrom ([] : List (Expr × Block)) fun read => do
    if ← acceptKeyword .kwElse then
      if ← acceptKeyword .kwIf then
        let c ← condition
        let b ← block
        return .inl ((c, b) :: read)
      else return .inr (read, .block (← block))
    else return .inr (read, .none)
  return conditions.foldl (fun rest (c, b) => .elseIf c b rest) last

/-! ## Declarations -/

/-- The parameters and the body of a function whose type and name have been read. -/
def functionFrom (statement : Parser (Option Statement)) (start : Span) (type : TypeRef)
    (name : Ident) : Parser Function := do
  let _ ← expectPunct .openParen
  let params ← params
  let body ← body statement
  return ⟨← nodeFrom start, type, name, params, body, none, none⟩

/-- A variable or a function, given how a statement is read. -/
def declaration (statement : Parser (Option Statement)) : Parser (Option Statement) := do
  let start ← here
  let type ← returnType
  let name ← expectIdent
  if ← peekPunct .openParen then
    if !(← context).inGlobal then failAt start .misplacedFunction
    else
      addFunction (← functionFrom statement start type name)
      return none
  else if type.isVoid then failAt type.span .misplacedVoid
  else
    let init ← initializer?
    let _ ← expectPunct .semicolon
    return some (.varDecl (← nodeFrom start) ⟨type, name, init⟩)

/-! ## Operator functions -/

/-- What is written after the word `operator`: what it means with one parameter, what with two, and
its text. -/
structure OperatorSymbol where
  unary : Option Operator
  binary : Option Operator
  symbol : String

namespace OperatorSymbol

/-- A symbol with one meaning. -/
def ofOperator (operator : Operator) : OperatorSymbol :=
  if operator.arity = 1 then ⟨some operator, none, operator.symbol⟩
  else ⟨none, some operator, operator.symbol⟩

/-- A symbol with a meaning for one parameter and one for two. -/
def signed (unary : UnaryOp) (binary : BinaryOp) : OperatorSymbol :=
  ⟨some (.unary unary), some (.binary binary), binary.symbol⟩

/-- The meaning for a count of parameters. -/
def meaning? (symbol : OperatorSymbol) (count : Nat) : Option Operator :=
  match count with
  | 1 => symbol.unary
  | 2 => symbol.binary
  | _ => none

/-- The counts of parameters that have a meaning. -/
def admitted (symbol : OperatorSymbol) : List Nat :=
  (if symbol.unary.isSome then [1] else []) ++ (if symbol.binary.isSome then [2] else [])

end OperatorSymbol

/-- The symbol that a token stands for after the word `operator`. -/
def operatorSymbol? (kind : TokenKind) : Option OperatorSymbol :=
  match kind with
  | .punct .minus => some (.signed .neg .sub)
  | .punct .plus => some (.signed .pos .add)
  | .punct .tilde => some (.ofOperator (.unary .bitNot))
  | .keyword .kwNot => some (.ofOperator (.unary .not))
  | kind =>
    (BinaryOp.all.find? fun op => op.token == kind).map fun op => .ofOperator (.binary op)

/-- Reads the symbol after the word `operator`. -/
def operatorSymbol : Parser OperatorSymbol := do
  match ← kind with
  | .punct .openBracket =>
    let _ ← bump
    let _ ← expectPunct .closeBracket
    return .ofOperator .index
  | kind =>
    match operatorSymbol? kind with
    | some symbol =>
      let _ ← bump
      return symbol
    | none => fail .expectedOperator

/-- An operator function from the word `operator` on. -/
def operatorFunction (statement : Parser (Option Statement)) (start : Span) (type : TypeRef)
    (owner : Ident) : Parser Function := do
  let _ ← expectKeyword .kwOperator
  let place ← here
  let symbol ← operatorSymbol
  let _ ← expectPunct .openParen
  let params ← params
  match symbol.meaning? params.length with
  | none => failAt place (.operatorArity symbol.symbol symbol.admitted)
  | some operator =>
    let body ← body statement
    return ⟨← nodeFrom start, type, ⟨operator.overloadName, place⟩, params, body, some owner,
      some operator⟩

/-! ## Members -/

/-- Modifiers of a member with their places, in the order written. -/
structure MemberModifiers where
  written : List (Keyword × Span)
deriving Repr

namespace MemberModifiers

/-- The access level that a word names. -/
def access? : Keyword → Option Access
  | .kwPublic => some .public
  | .kwPrivate => some .private
  | .kwProtected => some .protected
  | _ => none

/-- Whether a word may stand in front of a member. -/
def isModifier (word : Keyword) : Bool :=
  (access? word).isSome || word == .kwStatic || word == .kwVirtual || word == .kwOverload

/-- Whether a word is written. -/
def has (ms : MemberModifiers) (word : Keyword) : Bool := ms.written.any fun m => m.1 == word

/-- The access level, which is public unless written otherwise. -/
def access (ms : MemberModifiers) : Access :=
  (ms.written.findSome? fun m => access? m.1).getD .public

/-- Whether a word repeats one that is written; there is one access level at most. -/
def repeats (ms : MemberModifiers) (word : Keyword) : Bool :=
  if (access? word).isSome then ms.written.any fun m => (access? m.1).isSome else ms.has word

/-- The modifier that keeps a member from being a field. -/
def barredFromField? (ms : MemberModifiers) : Option (Keyword × Span) :=
  (ms.written.find? fun m => m.1 == .kwVirtual).or
    (ms.written.find? fun m => m.1 == .kwOverload)

end MemberModifiers

/-- Reads the modifiers of a member. -/
def memberModifiers : Parser MemberModifiers :=
  repeatFrom (⟨[]⟩ : MemberModifiers) fun ms => do
    match ← kind with
    | .keyword word =>
      if !MemberModifiers.isModifier word then return .inr ms
      else if ms.repeats word then fail (.duplicateModifier word)
      else
        let token ← bump
        return .inl ⟨ms.written ++ [(word, token.span)]⟩
    | _ => return .inr ms

/-- Fails unless a type may begin at the current token. -/
def expectMemberType : Parser Unit := do
  match ← kind with
  | .ident _ => return ()
  | .keyword word => if word.startsType then return () else fail .expectedClassMember
  | _ => fail .expectedClassMember

/-- Fields and methods as far as they have been read, the latest first. -/
structure Members where
  fields : List Field
  methods : List Method

/-- A method whose type and name have been read, the opening parenthesis too. -/
def methodFrom (statement : Parser (Option Statement)) (start : Span) (ms : MemberModifiers)
    (type : TypeRef) (name : Ident) : Parser Method := do
  let params ← params
  let body ← body statement
  return ⟨← nodeFrom start, ms.access, ms.has .kwStatic, ms.has .kwVirtual, ms.has .kwOverload,
    type, name, params, body⟩

/-- A field whose type and name have been read. -/
def fieldFrom (start : Span) (ms : MemberModifiers) (type : TypeRef) (name : Ident) :
    Parser Field := do
  if type.isVoid then failAt type.span .misplacedVoid
  else match ms.barredFromField? with
    | some (word, span) => failAt span (.misplacedModifier word .field)
    | none =>
      let init ← initializer?
      let _ ← expectPunct .semicolon
      return ⟨← nodeFrom start, ms.access, ms.has .kwStatic, type, name, init⟩

/-- A field, a method or an operator function of a class. -/
def member (statement : Parser (Option Statement)) (owner : Ident) (read : Members) :
    Parser Members := do
  let start ← here
  let ms ← memberModifiers
  expectMemberType
  let type ← returnType
  if ← peekKeyword .kwOperator then
    match ms.written with
    | (word, span) :: _ => failAt span (.misplacedModifier word .operatorFunction)
    | [] =>
      addFunction (← operatorFunction statement start type owner)
      return read
  else
    let name ← expectIdent
    if ← accept .openParen then
      return { read with methods := (← methodFrom statement start ms type name) :: read.methods }
    else
      return { read with fields := (← fieldFrom start ms type name) :: read.fields }

/-- Reads one member, or the brace that ends the class. -/
def memberStep (statement : Parser (Option Statement)) (class_ : Parser Class) (owner : Ident)
    (read : Members) : Parser (Members ⊕ Members) := do
  if ← accept .closeBrace then return .inr ⟨read.fields.reverse, read.methods.reverse⟩
  else match ← kind with
    | .keyword .kwClass =>
      addClass (← class_)
      return .inl read
    | .keyword .kwIf => fail (.statementInClassBody .kwIf)
    | .keyword .kwWhile => fail (.statementInClassBody .kwWhile)
    | .eof => fail .unexpectedEof
    | .ident _ | .keyword _ => return .inl (← member statement owner read)
    | _ => fail .expectedClassMember

/-! ## Classes -/

/-- Type parameters in brackets, at least one if there is a bracket. -/
def genericParams : Parser (List Ident) := do
  if ← accept .openBracket then
    repeatFrom [] fun read => do
      let read := (← expectIdent) :: read
      if ← accept .comma then return .inl read
      else if ← accept .closeBracket then return .inr read.reverse
      else fail .expectedCommaOrCloseBracket
  else return []

/-- A class, given how statements and the classes inside it are read. -/
def classWith (statement : Parser (Option Statement)) (class_ : Parser Class) : Parser Class := do
  let start ← expectKeyword .kwClass
  let name ← expectIdent
  let generics ← genericParams
  let superclass ← if ← acceptKeyword .kwExtends then some <$> typeRef else pure none
  let _ ← expectPunct .openBrace
  let members ← within .classBody <|
    repeatFrom (⟨[], []⟩ : Members) (memberStep statement class_ name)
  return ⟨← nodeFrom start, name, generics, superclass, members.fields, members.methods⟩

/-- A class, given how statements are read. -/
def classDecl (statement : Parser (Option Statement)) : Parser Class :=
  recursive (classWith statement)

/-! ## Statements -/

/-- A jump out of or in a loop. -/
def jump (word : Keyword) (make : Node → Statement) : Parser (Option Statement) := do
  let start ← here
  if !(← context).inLoop then fail (.outsideLoop word)
  else
    let _ ← bump
    let _ ← expectPunct .semicolon
    return some (make (← nodeFrom start))

/-- A statement, given how the statements inside it are read. A declaration leaves none. -/
def statementWith (statement : Parser (Option Statement)) : Parser (Option Statement) := do
  let start ← here
  let plain : Parser (Option Statement) := do
    let value ← expressionStatement
    return some (.expr (← nodeFrom start) value)
  match ← kind with
  | .keyword .kwClass =>
    if (← context).intersects (.union .global .classBody) then
      addClass (← classDecl statement)
      return none
    else fail .misplacedClass
  | .keyword .kwIf =>
    let _ ← bump
    let block := nestedBlock statement { Context.none with inIf := true }
    let c ← condition
    let thenBlock ← block
    let alternative ← alternative block
    return some (.ifElse (← nodeFrom start) c thenBlock alternative)
  | .keyword .kwWhile =>
    let _ ← bump
    let c ← condition
    let body ← nestedBlock statement { Context.none with inLoop := true }
    return some (.while (← nodeFrom start) c body)
  | .keyword .kwTry =>
    let _ ← bump
    let block := nestedBlock statement { Context.none with inTry := true }
    let body ← block
    let _ ← expectKeyword .kwCatch
    let handler ← block
    return some (.tryCatch (← nodeFrom start) body handler)
  | .keyword .kwReturn =>
    if !(← context).inFunction then fail .returnOutsideFunction
    else
      let _ ← bump
      let value ← if ← peekPunct .semicolon then pure none else some <$> nestedExpression
      let _ ← expectPunct .semicolon
      return some (.return (← nodeFrom start) value)
  | .keyword .kwBreak => jump .kwBreak .break
  | .keyword .kwContinue => jump .kwContinue .continue
  | .punct .openBrace =>
    let body ← nestedBlock statement .none
    return some (.block (← nodeFrom start) body)
  | .keyword word => if word.startsType then declaration statement else plain
  | .ident _ => if ← startsDeclaration then declaration statement else plain
  | .eof => fail .unexpectedEof
  | _ => plain

/-- A statement, or none for a declaration that has been put aside. -/
def statement : Parser (Option Statement) := recursive statementWith

/-- A block. -/
def block : Parser Block := blockOf statement

end Parser

end ClassLang
