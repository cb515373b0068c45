import ClassLang.Parsing.Fault
import ClassLang.Syntax.Program
import ClassLang.Types.Ty

/-!
What may be wrong with a program that parses, and what may look odd about it.
-/

namespace ClassLang

/-! ## Errors -/

/-- Where two types fail to match, if a hint about it helps. -/
inductive MismatchHint where
  | element | index
deriving DecidableEq, Repr

/-- The wording of a hint. -/
def MismatchHint.message : MismatchHint → String
  | element => "All elements of a collection literal must share one type."
  | index => "Index has the wrong type."

/-- What is wrong with a piece of a program. -/
inductive CheckCause where
  -- Written types
  | unknownType (name : String)
  | classRedeclared (name : String)
  | ambiguousType (name : String)
  | notGeneric (name : String)
  | missingTypeArguments (name : String) (expected : Nat)
  | typeArgumentCount (name : String) (given expected : Nat)
  | collectionArity (collection : Keyword) (given expected : Nat)
  | typeParameterRedeclared (name : String)
  -- Inheritance
  | unknownSuperclass (className superclass : String)
  | inheritanceCycle (className : String)
  | invalidSuperclass (className superclass : String)
  /-- The superclass as written. -/
  | superclassNotAClass (className superclass : String)
  | fieldRedeclared (className name ancestor : String)
  | memberRedeclared (className name : String)
  | privateVirtual (name : String)
  | overrideInRootClass (className name : String)
  | overrideOfNothing (name : String)
  | overrideAlsoVirtual (name : String)
  | overrideAccess (name : String) (expected found : Access)
  | overrideReturnType (name : String) (expected found : Ty)
  -- Overload sets
  | duplicateOverload (name : String) (signature : List Ty)
  | staticMethodNotPublic (name : String)
  | staticMethodVirtual (name : String)
  | staticMethodOverride (name : String)
  -- Names
  | unknownVariable (name : String)
  | variableRedeclared (name : String)
  | thisWithoutInstance
  | classAsValue (name : String)
  | instanceMemberInStaticCode (name : String)
  | unknownFunction (name : String)
  | unknownMember (className name : String)
  | inaccessibleMember (className name : String) (access : Access)
  -- Expressions
  | mismatchedType (expected received : Ty) (hint : Option MismatchHint)
  | unsupportedOperator (symbol : String) (operands : List Ty)
  | valueStoredInReference (target : String)
  | referenceStoredInValue (target : String)
  | assignmentToConst (target : String)
  | referenceWithoutPlace
  | arrowWithoutReference (type : Ty)
  | memberOfNonClass (type : Ty)
  | noMatchingOverload (name : String) (args : List Ty)
  | notCallable
  | notIndexable (type : Ty)
  | newOfNonClass (type : Ty)
  | deleteOfNonClass (type : Ty)
  -- Statements
  | constWithoutInitializer (name : String)
  | referenceWithoutInitializer (name : String)
  | unusedExpression
  | nonBooleanCondition (received : Ty)
  | jumpOutsideLoop (word : Keyword)
  | returnOutsideFunction
  | missingReturnValue (expected : Ty)
  | returnValueInVoidFunction
  | missingReturn (name : String)
deriving DecidableEq, Repr

/-- A name in the marks that set it off in a message. -/
def inQuotes (name : String) : String := "\"" ++ name ++ "\""

/-- The wording of a cause. -/
def CheckCause.message : CheckCause → String
  | unknownType name => "Could not find type " ++ inQuotes name ++ " in this scope."
  | classRedeclared name => "Class " ++ inQuotes name ++ " is declared more than once."
  | ambiguousType name =>
    "Type " ++ inQuotes name ++ " is ambiguous: more than one class has this name."
  | notGeneric name =>
    "Class " ++ inQuotes name ++ " is not generic and does not take type arguments."
  | missingTypeArguments name expected =>
    "Generic class " ++ inQuotes name ++ " needs " ++ toString expected ++ " type argument(s)."
  | typeArgumentCount name given expected =>
    inQuotes name ++ " expects " ++ toString expected ++ " type argument(s), but " ++
      toString given ++ " were provided."
  | collectionArity collection given expected =>
    inTicks collection.spelling ++ " expects " ++ toString expected ++
      " type argument(s), but " ++ toString given ++ " were provided."
  | typeParameterRedeclared name =>
    "Generic parameter " ++ inQuotes name ++ " is declared more than once."
  | unknownSuperclass className superclass =>
    "Class " ++ inQuotes className ++ " extends " ++ inQuotes superclass ++
      ", which does not exist."
  | inheritanceCycle className =>
    "Class " ++ inQuotes className ++ " is part of an inheritance cycle."
  | invalidSuperclass className superclass =>
    "Class " ++ inQuotes className ++ " extends " ++ inQuotes superclass ++
      ", which is itself invalid."
  | superclassNotAClass className superclass =>
    "Superclass " ++ inQuotes superclass ++ " of " ++ inQuotes className ++
      " must be a plain or generic class type."
  | fieldRedeclared className name ancestor =>
    "Field " ++ inQuotes name ++ " of " ++ inQuotes className ++
      " redeclares a field inherited from " ++ inQuotes ancestor ++ "."
  | memberRedeclared className name =>
    "Member " ++ inQuotes name ++ " is declared more than once in class " ++
      inQuotes className ++ "."
  | privateVirtual name => "Method " ++ inQuotes name ++ " cannot be both private and virtual."
  | overrideInRootClass className name =>
    "Method " ++ inQuotes name ++ " is marked `overload`, but class " ++ inQuotes className ++
      " has no superclass."
  | overrideOfNothing name =>
    "Method " ++ inQuotes name ++
      " is marked `overload`, but it matches no inherited virtual method."
  | overrideAlsoVirtual name =>
    "Method " ++ inQuotes name ++ " cannot be marked both `overload` and `virtual`."
  | overrideAccess name expected found =>
    "Method " ++ inQuotes name ++ " must keep the access level " ++
      inTicks expected.keyword.spelling ++ " of the method it overloads, found " ++
      inTicks found.keyword.spelling ++ "."
  | overrideReturnType name expected found =>
    "Method " ++ inQuotes name ++ " must keep the return type " ++ inTicks expected.text ++
      " of the method it overloads, found " ++ inTicks found.text ++ "."
  | duplicateOverload name signature =>
    inQuotes name ++ " is declared more than once with the signature (" ++
      Ty.listText signature ++ ")."
  | staticMethodNotPublic name => "Static method " ++ inQuotes name ++ " must be public."
  | staticMethodVirtual name => "Static method " ++ inQuotes name ++ " cannot be virtual."
  | staticMethodOverride name =>
    "Static method " ++ inQuotes name ++ " cannot be marked `overload`."
  | unknownVariable name => "Variable " ++ inQuotes name ++ " does not exist in this scope."
  | variableRedeclared name =>
    "Variable " ++ inQuotes name ++ " is already declared in this block."
  | thisWithoutInstance => "`this` can only be used inside an instance method."
  | classAsValue name => inQuotes name ++ " is a class, not a value."
  | instanceMemberInStaticCode name =>
    "Instance member " ++ inQuotes name ++ " cannot be used from a static context."
  | unknownFunction name => "Could not find function " ++ inQuotes name ++ " in this scope."
  | unknownMember className name =>
    "Class " ++ inQuotes className ++ " has no member named " ++ inQuotes name ++ "."
  | inaccessibleMember className name access =>
    "Member " ++ inQuotes name ++ " of " ++ inQuotes className ++ " is " ++
      access.keyword.spelling ++ " and cannot be accessed here."
  | mismatchedType expected received hint =>
    "Mismatched types.\nexpected: " ++ expected.text ++ "\nfound:    " ++ received.text ++ ".\n" ++
      hint.elim "" fun hint => "help: " ++ hint.message
  | unsupportedOperator symbol operands =>
    "Operator " ++ inTicks symbol ++ " is not supported for " ++
      String.intercalate " and " (operands.map fun t => inTicks t.text) ++ "."
  | valueStoredInReference target =>
    "Value assignment `:=` cannot target the reference " ++ inQuotes target ++ "; use `=`."
  | referenceStoredInValue target =>
    "Reference assignment `=` needs a reference target, found " ++ inQuotes target ++
      "; use `:=`."
  | assignmentToConst target => "Cannot assign to constant " ++ inQuotes target ++ "."
  | referenceWithoutPlace =>
    "A reference can only be bound to a variable, field, element or another reference."
  | arrowWithoutReference type =>
    "`->` needs a reference on its left-hand side, found " ++ inTicks type.text ++ "."
  | memberOfNonClass type => "Type " ++ inTicks type.text ++ " has no members."
  | noMatchingOverload name args =>
    "No declaration of " ++ inQuotes name ++ " accepts the arguments (" ++ Ty.listText args ++ ")."
  | notCallable => "This expression cannot be called."
  | notIndexable type => "Type " ++ inTicks type.text ++ " cannot be indexed."
  | newOfNonClass type =>
    "`new` can only allocate class instances, found " ++ inTicks type.text ++ "."
  | deleteOfNonClass type =>
    "`delete` can only release class instances, found " ++ inTicks type.text ++ "."
  | constWithoutInitializer name =>
    "Constant " ++ inQuotes name ++ " must be initialized where it is declared."
  | referenceWithoutInitializer name =>
    "Reference " ++ inQuotes name ++ " must be bound where it is declared."
  | unusedExpression =>
    "This expression has no effect; only assignments, calls and `delete` may stand alone."
  | nonBooleanCondition received =>
    "Condition must be of type `boolean`, found " ++ inTicks received.text ++ "."
  | jumpOutsideLoop word => inTicks word.spelling ++ " can only be used inside a loop."
  | returnOutsideFunction => "`return` can only be used inside a function."
  | missingReturnValue expected =>
    "This function must return a value of type " ++ inTicks expected.text ++ "."
  | returnValueInVoidFunction => "A function returning `void` cannot return a value."
  | missingReturn name =>
    "Function " ++ inQuotes name ++ " declares a return type but never returns."

/-- A cause and the place it is about. -/
structure CheckError where
  span : Span
  cause : CheckCause
deriving DecidableEq, Repr

/-! ## Warnings -/

/-- What is odd about a piece of a program. -/
inductive WarningCause where
  | unreachable
  | unusedFunction (name : String)
  | unusedOperator (operator : Operator)
  | unusedClass (name : String)
  | unusedMethod (className name : String)
  | shadowedVirtual (className name : String)
deriving DecidableEq, Repr

/-- The word and symbol that an operator function is known by. -/
def operatorTitle (operator : Operator) : String := "operator " ++ operator.symbol

/-- The wording of a cause. -/
def WarningCause.message : WarningCause → String
  | unreachable => "This statement is unreachable."
  | unusedFunction name => "Function " ++ inQuotes name ++ " is never called."
  | unusedOperator operator =>
    "Operator " ++ inQuotes (operatorTitle operator) ++ " is never used."
  | unusedClass name => "Class " ++ inQuotes name ++ " is never used."
  | unusedMethod className name =>
    "Method " ++ inQuotes (className ++ "." ++ name) ++ " is never called."
  | shadowedVirtual className name =>
    "Method " ++ inQuotes (className ++ "." ++ name) ++
      " matches an inherited virtual method but is not marked `overload`."

/-- A cause and the place it is about. -/
structure Warning where
  span : Span
  cause : WarningCause
deriving DecidableEq, Repr

end ClassLang
