import ClassLang.Syntax.Statement

/-!
Programs: classes, functions and statements. Wherever a class or an operator function is declared,
it stands at the level of the program here.
-/

namespace ClassLang

/-! ## Declarations -/

/-- Who may use a member. -/
inductive Access where
  | «public» | «private» | «protected»
deriving DecidableEq, Repr, Inhabited

/-- The reserved word for an access level. -/
def Access.keyword : Access → Keyword
  | .public => .kwPublic
  | .private => .kwPrivate
  | .protected => .kwProtected

/-- A parameter of a method or function. -/
structure Param where
  node : Node
  type : TypeRef
  name : Ident
deriving Repr, Inhabited

/-- A field of a class. -/
structure Field where
  node : Node
  access : Access
  isStatic : Bool
  type : TypeRef
  name : Ident
  init : Option Initializer
deriving Repr, Inhabited

/-- A method of a class. -/
structure Method where
  node : Node
  access : Access
  isStatic : Bool
  isVirtual : Bool
  isOverload : Bool
  returnType : TypeRef
  name : Ident
  params : List Param
  body : Block
deriving Repr, Inhabited

/-- Whether subclasses may override the method. -/
def Method.isOverridable (m : Method) : Bool := m.isVirtual || m.isOverload

/-- A free function, or an operator function, which has an owner and an operator. -/
structure Function where
  node : Node
  returnType : TypeRef
  name : Ident
  params : List Param
  body : Block
  owner : Option Ident
  operator : Option Operator
deriving Repr, Inhabited

/-- A class. -/
structure Class where
  node : Node
  name : Ident
  generics : List Ident
  superclass : Option TypeRef
  fields : List Field
  methods : List Method
deriving Repr, Inhabited

namespace Class

/-- The number of the class. -/
def id (c : Class) : Nat := c.node.id

/-- Whether the class has type parameters. -/
def isGeneric (c : Class) : Bool := !c.generics.isEmpty

/-- The names of the type parameters. -/
def params (c : Class) : List String := c.generics.map Ident.name

/-- The position of the first field of a name. -/
def fieldIndex? (c : Class) (name : String) : Option Nat :=
  c.fields.findIdx? fun field => field.name.name == name

end Class

/-- A program, with the count of the numbers given to nodes. -/
structure Program where
  classes : List Class
  functions : List Function
  statements : List Statement
  nodeCount : Nat
deriving Repr, Inhabited

namespace Program

/-- The first class of a name. -/
def class? (p : Program) (name : String) : Option Class :=
  p.classes.find? fun c => c.name.name == name

/-- The first function of a name. -/
def function? (p : Program) (name : String) : Option Function :=
  p.functions.find? fun f => f.name.name == name

end Program

/-! ## Nodes -/

/-- The nodes of a parameter. -/
def Param.nodes (p : Param) : List Node := p.node :: p.type.nodes

/-- The nodes of a field. -/
def Field.nodes (f : Field) : List Node := f.node :: (f.type.nodes ++ initializerNodes f.init)

/-- The nodes of a method. -/
def Method.nodes (m : Method) : List Node :=
  m.node :: (m.returnType.nodes ++ m.params.flatMap Param.nodes ++ m.body.nodes)

/-- The nodes of a function. -/
def Function.nodes (f : Function) : List Node :=
  f.node :: (f.returnType.nodes ++ f.params.flatMap Param.nodes ++ f.body.nodes)

/-- The nodes of a class. -/
def Class.nodes (c : Class) : List Node :=
  c.node :: (c.superclass.elim [] TypeRef.nodes ++ c.fields.flatMap Field.nodes ++
    c.methods.flatMap Method.nodes)

/-- The nodes of a program. -/
def Program.nodes (p : Program) : List Node :=
  p.classes.flatMap Class.nodes ++ p.functions.flatMap Function.nodes ++
    statementNodes p.statements

/-! ## Equality -/

/-- Equality of parameters up to numbers and places. -/
def Param.same (a b : Param) : Bool := a.type.same b.type && a.name.same b.name

/-- Equality of fields up to numbers and places. -/
def Field.same (a b : Field) : Bool :=
  a.access == b.access && a.isStatic == b.isStatic && a.type.same b.type && a.name.same b.name &&
    sameOption Initializer.same a.init b.init

/-- Equality of methods up to numbers and places. -/
def Method.same (a b : Method) : Bool :=
  a.access == b.access && a.isStatic == b.isStatic && a.isVirtual == b.isVirtual &&
    a.isOverload == b.isOverload && a.returnType.same b.returnType && a.name.same b.name &&
    sameBy Param.same a.params b.params && a.body.same b.body

/-- Equality of functions up to numbers and places. -/
def Function.same (a b : Function) : Bool :=
  a.returnType.same b.returnType && a.name.same b.name && sameBy Param.same a.params b.params &&
    a.body.same b.body && sameOption Ident.same a.owner b.owner && a.operator == b.operator

/-- Equality of classes up to numbers and places. -/
def Class.same (a b : Class) : Bool :=
  a.name.same b.name && sameBy Ident.same a.generics b.generics &&
    sameOption TypeRef.same a.superclass b.superclass && sameBy Field.same a.fields b.fields &&
    sameBy Method.same a.methods b.methods

/-- Equality of programs up to numbers and places. -/
def Program.same (a b : Program) : Bool :=
  sameBy Class.same a.classes b.classes && sameBy Function.same a.functions b.functions &&
    sameStatements a.statements b.statements

/-! ## Printing -/

/-- Parameters in printed form. -/
def paramsInk (params : List Param) : List Ink :=
  Ink.enclosed .openParen .closeParen (params.map fun p => declarationInk p.type p.name)

/-- A word with a blank in front, if it is called for. -/
def optionalWord (present : Bool) (word : Keyword) : List Ink :=
  if present then [.space, .word word] else []

/-- The function in printed form at a depth. -/
def Function.ink (depth : Nat) (f : Function) : List Ink :=
  let title := match f.operator with
    | some operator =>
      f.returnType.ink ++ .space :: .word .kwOperator :: .space :: operator.tokens.map .token
    | none => declarationInk f.returnType f.name
  .indent depth :: title ++ paramsInk f.params ++ .space :: f.body.ink depth ++ [.newline]

/-- The field in printed form, as part of a class. -/
def Field.ink (f : Field) : List Ink :=
  .indent 1 :: .word f.access.keyword :: optionalWord f.isStatic .kwStatic ++
    .space :: declarationInk f.type f.name ++ initializerInk f.init ++ [.mark .semicolon, .newline]

/-- The method in printed form, as part of a class. -/
def Method.ink (m : Method) : List Ink :=
  .indent 1 :: .word m.access.keyword :: optionalWord m.isStatic .kwStatic ++
    optionalWord m.isVirtual .kwVirtual ++ optionalWord m.isOverload .kwOverload ++
    .space :: declarationInk m.returnType m.name ++ paramsInk m.params ++
    .space :: m.body.ink 1 ++ [.newline]

/-- The class in printed form, with its operator functions inside. -/
def Class.ink (operators : List Function) (c : Class) : List Ink :=
  let generics := if c.isGeneric then
    Ink.enclosed .openBracket .closeBracket (c.params.map fun name => [Ink.name name]) else []
  let superclass := match c.superclass with
    | some type => .space :: .word .kwExtends :: .space :: type.ink
    | none => []
  .word .kwClass :: .space :: .name c.name.name :: generics ++ superclass ++
    [.space, .mark .openBrace, .newline] ++ c.fields.flatMap Field.ink ++
    c.methods.flatMap Method.ink ++ operators.flatMap (Function.ink 1) ++
    [.mark .closeBrace, .newline]

/-- The program in printed form: classes, free functions, statements. -/
def Program.ink (p : Program) : List Ink :=
  (p.classes.flatMap fun c =>
    c.ink (p.functions.filter fun f => f.owner.any fun owner => owner.same c.name)) ++
    (p.functions.filter fun f => f.owner.isNone).flatMap (Function.ink 0) ++
    statementsInk 0 p.statements

/-- The text of the function. -/
def Function.text (f : Function) : String := Ink.textOf (f.ink 0)

/-- The text of the program. -/
def Program.text (p : Program) : String := Ink.textOf p.ink

end ClassLang
