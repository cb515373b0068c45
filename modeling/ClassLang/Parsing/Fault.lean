import ClassLang.Syntax.Keyword
import ClassLang.Source

/-!
Why tokens do not form a program.
-/

namespace ClassLang

/-- The members that admit only some modifiers. -/
inductive RestrictedMember where
  | operatorFunction | field
deriving DecidableEq, Repr

/-- Several such members, in words. -/
def RestrictedMember.plural : RestrictedMember → String
  | operatorFunction => "operator functions"
  | field => "fields"

/-- What is wrong with the tokens at a place. -/
inductive SyntaxCause where
  | expectedStatement
  | expectedExpression
  | expectedIdent
  | expectedType
  | expectedToken (expected found : String)
  | expectedCommaOrCloseParen
  | expectedCommaOrCloseBracket
  | expectedCommaOrCloseBrace
  | expectedClassMember
  | expectedOperator
  | duplicateModifier (word : Keyword)
  | unassignable
  | nestedAssignment
  | outsideLoop (word : Keyword)
  | returnOutsideFunction
  | misplacedFunction
  | misplacedClass
  | statementInClassBody (word : Keyword)
  | stackedAllocation
  | misplacedVoid
  /-- The operator as written, and the parameter counts that it admits. -/
  | operatorArity (symbol : String) (admitted : List Nat)
  | misplacedModifier (word : Keyword) (member : RestrictedMember)
  | unexpectedEof
  | trailingToken
deriving DecidableEq, Repr

/-- A text in the marks that set off source in a message. -/
def inTicks (text : String) : String := "`" ++ text ++ "`"

/-- The wording of a cause. -/
def SyntaxCause.message : SyntaxCause → String
  | expectedStatement => "Expected a statement."
  | expectedExpression => "Expected an expression."
  | expectedIdent => "Expected an identifier."
  | expectedType => "Expected a type."
  | expectedToken expected found =>
    "Expected " ++ inTicks expected ++ ", found " ++ inTicks found ++ "."
  | expectedCommaOrCloseParen => "Expected a comma or closing parenthesis in the argument list."
  | expectedCommaOrCloseBracket => "Expected a comma or closing bracket."
  | expectedCommaOrCloseBrace => "Expected a comma or closing brace in this keymap literal."
  | expectedClassMember => "Expected a class member declaration."
  | expectedOperator => "Expected an overloadable operator."
  | duplicateModifier word =>
    "Modifier " ++ inTicks word.spelling ++ " appears more than once."
  | unassignable => "This expression cannot be assigned to."
  | nestedAssignment => "Assignments are not allowed inside another expression."
  | outsideLoop word => inTicks word.spelling ++ " may only be used inside a loop."
  | returnOutsideFunction => "`return` may only be used inside a function."
  | misplacedFunction => "Functions may only be declared at program level or inside a class."
  | misplacedClass => "Classes may only be declared at program level or inside a class."
  | statementInClassBody word =>
    inTicks word.spelling ++ " is not allowed directly inside a class body."
  | stackedAllocation => "Allocation operators cannot be stacked."
  | misplacedVoid => "`void` is only allowed as a function return type."
  | operatorArity symbol admitted =>
    "Operator " ++ inTicks symbol ++ " takes " ++
      String.intercalate " or " (admitted.map toString) ++ " parameter(s)."
  | misplacedModifier word member =>
    inTicks word.spelling ++ " cannot be applied to " ++ member.plural ++ "."
  | unexpectedEof => "Unexpected end of input."
  | trailingToken => "Unexpected token after the end of the program."

/-- A cause and the place it is about. -/
structure SyntaxError where
  span : Span
  cause : SyntaxCause
deriving DecidableEq, Repr

end ClassLang
