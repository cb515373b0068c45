import ClassLang.Syntax.Expr

/-!
Statements and blocks of statements.
-/

namespace ClassLang

/-- A first value for a variable or field, and how it is stored. -/
structure Initializer where
  kind : AssignKind
  value : Expr
deriving Repr, Inhabited

/-- The declaration of a variable. -/
structure VarDecl where
  type : TypeRef
  name : Ident
  init : Option Initializer
deriving Repr, Inhabited

mutual

/-- A statement. -/
inductive Statement where
  | varDecl (node : Node) (decl : VarDecl)
  | expr (node : Node) (value : Expr)
  | ifElse (node : Node) (condition : Expr) (thenBlock : Block) (alternative : Alternative)
  | while (node : Node) (condition : Expr) (body : Block)
  | tryCatch (node : Node) (body handler : Block)
  | return (node : Node) (value : Option Expr)
  | break (node : Node)
  | continue (node : Node)
  | block (node : Node) (body : Block)

/-- What is done if a condition fails. -/
inductive Alternative where
  | none
  | block (body : Block)
  | elseIf (condition : Expr) (thenBlock : Block) (alternative : Alternative)

/-- Statements in braces. -/
inductive Block where
  | mk (node : Node) (statements : List Statement)

end

deriving instance Repr for Statement, Alternative, Block

instance : Inhabited Block := ⟨.mk default []⟩

instance : Inhabited Statement := ⟨.break default⟩

namespace Block

/-- The number and place of the block. -/
def node : Block → Node
  | mk n _ => n

/-- The number of the block. -/
def id (b : Block) : Nat := b.node.id

/-- The place of the block. -/
def span (b : Block) : Span := b.node.span

/-- The statements of the block. -/
def statements : Block → List Statement
  | mk _ statements => statements

end Block

namespace Statement

/-- The number and place of the statement. -/
def node : Statement → Node
  | varDecl n _ | expr n _ | ifElse n .. | «while» n .. | tryCatch n .. | «return» n _ | «break» n
  | «continue» n | block n _ => n

/-- The number of the statement. -/
def id (s : Statement) : Nat := s.node.id

/-- The place of the statement. -/
def span (s : Statement) : Span := s.node.span

/-- Whether control never goes on to the next statement of the same block. -/
def isTerminator : Statement → Bool
  | «return» .. | «break» _ | «continue» _ => true
  | _ => false

/-- The declaration that the statement makes. -/
def varDecl? : Statement → Option VarDecl
  | varDecl _ decl => some decl
  | _ => none

end Statement

/-! ## Local declarations and returns -/

/-- The positions and declarations of the variables that statements declare, from a position on. -/
def localsFrom : Nat → List Statement → List (Nat × VarDecl)
  | _, [] => []
  | i, s :: rest =>
    match s.varDecl? with
    | some decl => (i, decl) :: localsFrom (i + 1) rest
    | none => localsFrom (i + 1) rest

/-- The variables that a block declares itself, with their positions in it. -/
def Block.locals (b : Block) : List (Nat × VarDecl) := localsFrom 0 b.statements

mutual

/-- Whether the statement is or holds a return. -/
def Statement.containsReturn : Statement → Bool
  | .return .. => true
  | .ifElse _ _ thenBlock alternative => thenBlock.containsReturn || alternative.containsReturn
  | .while _ _ body | .block _ body => body.containsReturn
  | .tryCatch _ body handler => body.containsReturn || handler.containsReturn
  | .varDecl .. | .expr .. | .break _ | .continue _ => false

/-- Whether the alternative holds a return. -/
def Alternative.containsReturn : Alternative → Bool
  | .none => false
  | .block body => body.containsReturn
  | .elseIf _ thenBlock alternative => thenBlock.containsReturn || alternative.containsReturn

/-- Whether the block holds a return at any depth. -/
def Block.containsReturn : Block → Bool
  | .mk _ statements => anyContainsReturn statements

/-- Whether one of the statements is or holds a return. -/
def anyContainsReturn : List Statement → Bool
  | [] => false
  | s :: rest => s.containsReturn || anyContainsReturn rest

end

/-! ## Nodes -/

/-- The nodes of an initializer. -/
def Initializer.nodes (i : Initializer) : List Node := i.value.nodes

/-- The nodes of an optional initializer. -/
def initializerNodes (i : Option Initializer) : List Node := i.elim [] Initializer.nodes

/-- The nodes of a declaration. -/
def VarDecl.nodes (d : VarDecl) : List Node := d.type.nodes ++ initializerNodes d.init

mutual

/-- The nodes of the statement and of what is below it, outermost first. -/
def Statement.nodes : Statement → List Node
  | .varDecl n decl => n :: decl.nodes
  | .expr n value => n :: value.nodes
  | .ifElse n condition thenBlock alternative =>
    n :: (condition.nodes ++ thenBlock.nodes ++ alternative.nodes)
  | .while n condition body => n :: (condition.nodes ++ body.nodes)
  | .tryCatch n body handler => n :: (body.nodes ++ handler.nodes)
  | .return n value => n :: value.elim [] Expr.nodes
  | .break n | .continue n => [n]
  | .block n body => n :: body.nodes

/-- The nodes of the alternative. -/
def Alternative.nodes : Alternative → List Node
  | .none => []
  | .block body => body.nodes
  | .elseIf condition thenBlock alternative =>
    condition.nodes ++ thenBlock.nodes ++ alternative.nodes

/-- The nodes of the block. -/
def Block.nodes : Block → List Node
  | .mk n statements => n :: statementNodes statements

/-- The nodes of some statements in order. -/
def statementNodes : List Statement → List Node
  | [] => []
  | s :: rest => s.nodes ++ statementNodes rest

end

/-! ## Equality -/

/-- Equality of initializers up to numbers and places. -/
def Initializer.same (a b : Initializer) : Bool := a.kind == b.kind && a.value.same b.value

/-- Equality of declarations up to numbers and places. -/
def VarDecl.same (a b : VarDecl) : Bool :=
  a.type.same b.type && a.name.same b.name && sameOption Initializer.same a.init b.init

mutual

/-- Equality up to numbers and places. -/
def Statement.same : Statement → Statement → Bool
  | .varDecl _ a, .varDecl _ b => a.same b
  | .expr _ a, .expr _ b => a.same b
  | .ifElse _ c t e, .ifElse _ c' t' e' => c.same c' && t.same t' && e.same e'
  | .while _ c b, .while _ c' b' => c.same c' && b.same b'
  | .tryCatch _ b h, .tryCatch _ b' h' => b.same b' && h.same h'
  | .return _ a, .return _ b => sameOption Expr.same a b
  | .break _, .break _ => true
  | .continue _, .continue _ => true
  | .block _ a, .block _ b => a.same b
  | _, _ => false

/-- Equality of alternatives up to numbers and places. -/
def Alternative.same : Alternative → Alternative → Bool
  | .none, .none => true
  | .block a, .block b => a.same b
  | .elseIf c t e, .elseIf c' t' e' => c.same c' && t.same t' && e.same e'
  | _, _ => false

/-- Equality of blocks up to numbers and places. -/
def Block.same : Block → Block → Bool
  | .mk _ as, .mk _ bs => sameStatements as bs

/-- Equality of lists of statements up to numbers and places. -/
def sameStatements : List Statement → List Statement → Bool
  | [], [] => true
  | a :: as, b :: bs => a.same b && sameStatements as bs
  | _, _ => false

end

/-! ## Printing -/

/-- An initializer in printed form, with a blank in front. -/
def initializerInk : Option Initializer → List Ink
  | none => []
  | some i => .space :: .mark i.kind.punct :: .space :: i.value.ink

/-- A type and a name in printed form. -/
def declarationInk (type : TypeRef) (name : Ident) : List Ink :=
  type.ink ++ [.space, .name name.name]

/-- A condition in parentheses after a word, with a blank behind. -/
def conditionInk (word : Keyword) (condition : Expr) : List Ink :=
  .word word :: .space :: .mark .openParen :: condition.ink ++ [.mark .closeParen, .space]

mutual

/-- The statement in printed form at a depth: on lines of its own. -/
def Statement.ink (depth : Nat) : Statement → List Ink
  | .varDecl _ decl =>
    .indent depth :: declarationInk decl.type decl.name ++ initializerInk decl.init ++
      [.mark .semicolon, .newline]
  | .expr _ value => .indent depth :: value.ink ++ [.mark .semicolon, .newline]
  | .ifElse _ condition thenBlock alternative =>
    .indent depth :: conditionInk .kwIf condition ++ thenBlock.ink depth ++
      alternative.ink depth ++ [.newline]
  | .while _ condition body =>
    .indent depth :: conditionInk .kwWhile condition ++ body.ink depth ++ [.newline]
  | .tryCatch _ body handler =>
    .indent depth :: .word .kwTry :: .space :: body.ink depth ++
      .space :: .word .kwCatch :: .space :: handler.ink depth ++ [.newline]
  | .return _ (some value) =>
    .indent depth :: .word .kwReturn :: .space :: value.ink ++ [.mark .semicolon, .newline]
  | .return _ none => [.indent depth, .word .kwReturn, .mark .semicolon, .newline]
  | .break _ => [.indent depth, .word .kwBreak, .mark .semicolon, .newline]
  | .continue _ => [.indent depth, .word .kwContinue, .mark .semicolon, .newline]
  | .block _ body => .indent depth :: body.ink depth ++ [.newline]

/-- The alternative in printed form, with a blank in front. -/
def Alternative.ink (depth : Nat) : Alternative → List Ink
  | .none => []
  | .block body => .space :: .word .kwElse :: .space :: body.ink depth
  | .elseIf condition thenBlock alternative =>
    .space :: .word .kwElse :: .space :: conditionInk .kwIf condition ++ thenBlock.ink depth ++
      alternative.ink depth

/-- The block in printed form: its statements one level deeper. -/
def Block.ink (depth : Nat) : Block → List Ink
  | .mk _ statements =>
    .mark .openBrace :: .newline :: statementsInk (depth + 1) statements ++
      [.indent depth, .mark .closeBrace]

/-- Statements in printed form, one after the other. -/
def statementsInk (depth : Nat) : List Statement → List Ink
  | [] => []
  | s :: rest => s.ink depth ++ statementsInk depth rest

end

/-- The text of the statement. -/
def Statement.text (s : Statement) : String := Ink.textOf (s.ink 0)

/-- The text of the block. -/
def Block.text (b : Block) : String := Ink.textOf (b.ink 0)

end ClassLang
