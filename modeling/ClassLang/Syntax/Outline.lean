import ClassLang.Syntax.Program
import ClassLang.Text.Document

/-!
The outline of a syntax tree: the tree as a document, in which each node shows its number and where
it starts.
-/

namespace ClassLang

namespace Outline

open Document

/-- A document under one name. -/
def tagged (tag : String) (value : Document) : Document := fields [(tag, value)]

/-- An optional document. -/
def optional (f : α → Document) : Option α → Document
  | none => null
  | some value => f value

/-! ## Names and numbers -/

/-- A number and a place. -/
def node (source : Source) (n : Node) : Document :=
  let here := source.lineCol n.span.start
  fields [("id", natural n.id),
    ("span", fields [("line", natural here.line), ("col", natural here.col)])]

/-- A name. -/
def ident (name : Ident) : Document := text name.name

/-- The digits of a number in base 2 ^ 32, the lowest first; zero has none. -/
def words (n : Nat) : List Nat :=
  if n = 0 then [] else n % twoTo 32 :: words (n / twoTo 32)
termination_by n
decreasing_by exact Nat.div_lt_self (by omega) (by decide)

/-- The name of a binary operator. -/
def binaryOp : BinaryOp → String
  | .add => "Add"
  | .sub => "Sub"
  | .mul => "Mul"
  | .div => "Div"
  | .mod => "Mod"
  | .pow => "Pow"
  | .bitAnd => "BitAnd"
  | .bitOr => "BitOr"
  | .bitXor => "BitXor"
  | .shl => "Shl"
  | .shr => "Shr"
  | .and => "And"
  | .or => "Or"
  | .xor => "Xor"
  | .eq => "Eq"
  | .ne => "Ne"
  | .lt => "Lt"
  | .le => "Le"
  | .gt => "Gt"
  | .ge => "Ge"

/-- The name of a unary operator. -/
def unaryOp : UnaryOp → String
  | .neg => "Neg"
  | .pos => "Pos"
  | .bitNot => "BitNot"
  | .not => "Not"
  | .ref => "Ref"
  | .delete => "Delete"

/-- The operator of an operator function. -/
def operator : Operator → Document
  | .binary op => tagged "Binary" (text (binaryOp op))
  | .unary op => tagged "Unary" (text (unaryOp op))
  | .index => text "Index"

/-- The name of a scalar type. -/
def primitive : Primitive → String
  | .bytes => "bytestring"
  | kind => kind.spelling

/-- A literal. -/
def literal : Literal → Document
  | .int value => tagged "Int" (list ((words value).map natural))
  | .float value => tagged "Float" (number value)
  | .imaginary value => tagged "Imaginary" (number value)
  | .string value => tagged "String" (text value)
  | .char value => tagged "Char" (text value.toString)
  | .bytes value => tagged "ByteString" (list (value.map fun b => natural b.toNat))
  | .bool value => tagged "Bool" (bool value)
  | .null => text "Null"
  | .undefined => text "Undefined"

/-- The way of an assignment. -/
def assignKind : AssignKind → Document
  | .value => text "Value"
  | .reference => text "Reference"

/-- The way to a member. -/
def memberAccess : MemberAccess → Document
  | .dot => text "Dot"
  | .arrow => text "Arrow"

/-! ## Types -/

/-- Modifiers, each with whether it is present. -/
def modifiers (m : Modifiers) : Document :=
  fields [("is_const", bool m.const), ("is_reference", bool m.reference),
    ("is_nullable", bool m.nullable)]

/-- A type around the document of its kind. -/
def typeNode (source : Source) (n : Node) (kind : Document) (m : Modifiers) : Document :=
  fields [("meta", node source n), ("kind", kind), ("modifiers", modifiers m)]

mutual

/-- A written type. -/
def typeRef (source : Source) : TypeRef → Document
  | .primitive n m kind => typeNode source n (tagged "Primitive" (text (primitive kind))) m
  | .array n m args => typeNode source n (tagged "Array" (list (typeRefs source args))) m
  | .keymap n m args => typeNode source n (tagged "Keymap" (list (typeRefs source args))) m
  | .named n m name => typeNode source n (tagged "Class" (ident name)) m
  | .generic n m name args =>
    typeNode source n (tagged "GenericClass" (list [ident name, list (typeRefs source args)])) m
  | .void n m => typeNode source n (text "Void") m

/-- Written types. -/
def typeRefs (source : Source) : List TypeRef → List Document
  | [] => []
  | t :: rest => typeRef source t :: typeRefs source rest

end

/-! ## Expressions -/

/-- A node around the document of its kind. -/
def kindNode (source : Source) (n : Node) (kind : Document) : Document :=
  fields [("meta", node source n), ("kind", kind)]

mutual

/-- An expression. -/
def expr (source : Source) : Expr → Document
  | .ident n name => kindNode source n (tagged "Ident" (ident name))
  | .this n => kindNode source n (text "This")
  | .literal n value => kindNode source n (tagged "Literal" (literal value))
  | .list n elems => kindNode source n (tagged "List" (list (exprs source elems)))
  | .keymap n pairs => kindNode source n (tagged "Keymap" (list (keymapPairs source pairs)))
  | .binary n op lhs rhs =>
    kindNode source n <| tagged "Binary" <|
      fields [("op", text (binaryOp op)), ("lhs", expr source lhs), ("rhs", expr source rhs)]
  | .unary n op operand =>
    kindNode source n <| tagged "Unary" <|
      fields [("op", text (unaryOp op)), ("operand", expr source operand)]
  | .new n type => kindNode source n (tagged "New" (fields [("ty", typeRef source type)]))
  | .member n target access name =>
    kindNode source n <| tagged "Member" <|
      fields [("target", expr source target), ("access", memberAccess access), ("name", ident name)]
  | .index n target i =>
    kindNode source n <| tagged "Index" <|
      fields [("target", expr source target), ("index", expr source i)]
  | .call n callee args =>
    kindNode source n <| tagged "Call" <|
      fields [("callee", expr source callee), ("args", list (exprs source args))]
  | .assign n kind target value =>
    kindNode source n <| tagged "Assign" <|
      fields [("kind", assignKind kind), ("target", expr source target),
        ("value", expr source value)]

/-- Expressions. -/
def exprs (source : Source) : List Expr → List Document
  | [] => []
  | e :: rest => expr source e :: exprs source rest

/-- Pairs of a keymap. -/
def keymapPairs (source : Source) : List KeymapPair → List Document
  | [] => []
  | .mk n key value :: rest =>
    fields [("meta", node source n), ("key", expr source key), ("value", expr source value)] ::
      keymapPairs source rest

end

/-! ## Statements -/

/-- An initializer. -/
def initializer (source : Source) (i : Initializer) : Document :=
  list [assignKind i.kind, expr source i.value]

/-- A condition with its first block and the rest. -/
def conditional (condition thenBlock alternative : Document) : Document :=
  fields [("condition", condition), ("then_block", thenBlock), ("else_branch", alternative)]

mutual

/-- A statement. -/
def statement (source : Source) : Statement → Document
  | .varDecl n decl =>
    kindNode source n <| tagged "VarDecl" <|
      fields [("ty", typeRef source decl.type), ("name", ident decl.name),
        ("init", optional (initializer source) decl.init)]
  | .expr n value => kindNode source n (tagged "Expr" (expr source value))
  | .ifElse n condition thenBlock alternative =>
    kindNode source n <| tagged "If" <|
      conditional (expr source condition) (block source thenBlock) (otherwise source alternative)
  | .while n condition body =>
    kindNode source n <| tagged "While" <|
      fields [("condition", expr source condition), ("body", block source body)]
  | .tryCatch n body handler =>
    kindNode source n <| tagged "Try" <|
      fields [("body", block source body), ("handler", block source handler)]
  | .return n value => kindNode source n (tagged "Return" (optional (expr source) value))
  | .break n => kindNode source n (text "Break")
  | .continue n => kindNode source n (text "Continue")
  | .block n body => kindNode source n (tagged "Block" (block source body))

/-- What is done if a condition fails. -/
def otherwise (source : Source) : Alternative → Document
  | .none => null
  | .block body => tagged "Block" (block source body)
  | .elseIf condition thenBlock alternative =>
    tagged "If" <|
      conditional (expr source condition) (block source thenBlock) (otherwise source alternative)

/-- A block, with the positions of its declarations. -/
def block (source : Source) : Block → Document
  | .mk n body =>
    fields [("meta", node source n), ("statements", list (statements source body)),
      ("locals", list ((localsFrom 0 body).map fun decl => natural decl.1))]

/-- Statements. -/
def statements (source : Source) : List Statement → List Document
  | [] => []
  | s :: rest => statement source s :: statements source rest

end

/-! ## Declarations -/

/-- A parameter. -/
def param (source : Source) (p : Param) : Document :=
  fields [("meta", node source p.node), ("ty", typeRef source p.type), ("name", ident p.name)]

/-- Who may use a member. -/
def access (a : Access) : Document := text a.keyword.spelling

/-- A field. -/
def field (source : Source) (f : Field) : Document :=
  fields [("meta", node source f.node), ("access", access f.access),
    ("is_static", bool f.isStatic), ("ty", typeRef source f.type), ("name", ident f.name),
    ("init", optional (initializer source) f.init)]

/-- A method. -/
def method (source : Source) (m : Method) : Document :=
  fields [("meta", node source m.node), ("access", access m.access),
    ("is_static", bool m.isStatic), ("is_virtual", bool m.isVirtual),
    ("is_overload", bool m.isOverload), ("return_type", typeRef source m.returnType),
    ("name", ident m.name), ("params", list (m.params.map (param source))),
    ("body", block source m.body)]

/-- A function. -/
def function (source : Source) (f : Function) : Document :=
  fields [("meta", node source f.node), ("return_type", typeRef source f.returnType),
    ("name", ident f.name), ("params", list (f.params.map (param source))),
    ("body", block source f.body), ("owner", optional ident f.owner),
    ("operator", optional operator f.operator)]

/-- A class. -/
def classDecl (source : Source) (c : Class) : Document :=
  fields [("meta", node source c.node), ("name", ident c.name),
    ("generics", list (c.generics.map ident)),
    ("superclass", optional (typeRef source) c.superclass),
    ("fields", list (c.fields.map (field source))),
    ("methods", list (c.methods.map (method source)))]

/-- A program. -/
def program (source : Source) (p : Program) : Document :=
  fields [("classes", list (p.classes.map (classDecl source))),
    ("functions", list (p.functions.map (function source))),
    ("statements", list (statements source p.statements))]

end Outline

end ClassLang
