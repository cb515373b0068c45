import ClassLang.Parsing.Parser

/-!
Parsing of types.
-/

namespace ClassLang

namespace Parser

/-- Reads modifiers, each at most once. -/
def modifiers : Parser Modifiers :=
  repeatFrom Modifiers.none fun m => do
    let another (present : Bool) (word : Keyword) (added : Modifiers) :
        Parser (Modifiers ⊕ Modifiers) := do
      if present then fail (.duplicateModifier word)
      else
        let _ ← bump
        return .inl added
    match ← kind with
    | .keyword .kwConst => another m.const .kwConst { m with const := true }
    | .keyword .kwReference => another m.reference .kwReference { m with reference := true }
    | .keyword .kwNullable => another m.nullable .kwNullable { m with nullable := true }
    | _ => return .inr m

/-- Reads types in brackets, if there is a bracket. -/
def typeArgs? (type : Parser TypeRef) : Parser (Option (List TypeRef)) := do
  if ← accept .openBracket then
    return some (← commaList .closeBracket .expectedCommaOrCloseBracket type)
  else return none

/-- Reads a type, given how its arguments are read. A `void` stands alone and only where it is
allowed. -/
def typeWith (type : Parser TypeRef) (allowVoid : Bool) : Parser TypeRef := do
  let start ← here
  let mods ← modifiers
  match ← kind with
  | .keyword .kwVoid =>
    if !allowVoid || mods != .none then fail .misplacedVoid
    else
      let _ ← bump
      return .void (← nodeFrom start) mods
  | .keyword .kwArray =>
    let _ ← bump
    let args ← typeArgs? type
    return .array (← nodeFrom start) mods (args.getD [])
  | .keyword .kwKeymap =>
    let _ ← bump
    let args ← typeArgs? type
    return .keymap (← nodeFrom start) mods (args.getD [])
  | .keyword (.primitive kind) =>
    let _ ← bump
    return .primitive (← nodeFrom start) mods kind
  | .ident _ =>
    let name ← expectIdent
    match ← typeArgs? type with
    | some args => return .generic (← nodeFrom start) mods name args
    | none => return .named (← nodeFrom start) mods name
  | .eof => fail .unexpectedEof
  | _ => fail .expectedType

/-- A type other than `void`. -/
def typeRef : Parser TypeRef := recursive fun self => typeWith self false

/-- A type, or `void`. -/
def returnType : Parser TypeRef := typeWith typeRef true

/-- Whether the bracket that closes the given number of open ones is followed by a name, before a
semicolon or a brace. -/
def nameAfterBrackets : Nat → List Token → Bool
  | _, [] => false
  | depth, token :: rest =>
    match token.kind with
    | .punct .openBracket => nameAfterBrackets (depth + 1) rest
    | .punct .closeBracket =>
      if depth ≤ 1 then
        match rest.head?.map Token.kind with
        | some (.ident _) => true
        | _ => false
      else nameAfterBrackets (depth - 1) rest
    | .punct .semicolon | .punct .openBrace | .punct .closeBrace | .eof => false
    | _ => nameAfterBrackets depth rest

/-- Whether a declaration starts with the name at the current token: another name follows, or
brackets with a name behind them. -/
def startsDeclaration : Parser Bool := ⟨fun s =>
  (.ok <| match s.cursor.later with
    | [] => false
    | next :: rest =>
      match next.kind with
      | .ident _ => true
      | .punct .openBracket => nameAfterBrackets 1 rest
      | _ => false, s)⟩

end Parser

end ClassLang
