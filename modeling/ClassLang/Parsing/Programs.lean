import ClassLang.Lexing.Tokens
import ClassLang.Parsing.Statements

/-!
Parsing of programs and of whole sources.
-/

namespace ClassLang

namespace Parser

/-- Reads up to the end of the source. Classes and functions put aside become those of the
program. -/
def program : Parser Program := do
  let statements ← within .global <| repeatFrom [] fun read => do
    if ← atEnd then return .inr read.reverse
    else match ← statement with
      | some s => return .inl (s :: read)
      | none => return .inl read
  let (classes, functions) ← takeDeclarations
  return ⟨classes, functions, statements, ← nodeCount⟩

/-! ## Whole sources -/

/-- A parser that fails if any tokens are left behind it. -/
def toEnd (p : Parser α) : Parser α := do
  let value ← p
  if ← atEnd then return value else fail .trailingToken

/-- Runs a parser on tokens and fails if any are left. -/
def runToEnd (p : Parser α) (tokens : List Token) (source : Span) : Except SyntaxError α :=
  (p.toEnd .global (.start tokens source)).1

end Parser

/-- Why a source is not a program: its characters, or its tokens. -/
inductive SourceError where
  | lexical (error : LexError)
  | syntactic (error : SyntaxError)
deriving DecidableEq, Repr

/-- The place of an error. -/
def SourceError.span : SourceError → Span
  | lexical e => e.span
  | syntactic e => e.span

/-- The wording of an error. -/
def SourceError.message : SourceError → String
  | lexical e => e.cause.message
  | syntactic e => e.cause.message

/-- The error as it is reported. -/
def SourceError.report : SourceError → CompileError
  | lexical e => .lexical e
  | syntactic e => .syntactic e

/-- Reads a whole source with a parser. -/
def Source.parse (source : Source) (p : Parser α) : Except SourceError α := do
  let tokens ← source.tokens.mapError .lexical
  (p.runToEnd tokens source.whole).mapError .syntactic

/-! ## Reports -/

/-- The tokens of a source, if it has any. A fault is reported. -/
def Source.lex (source : Source) (handler : Handler) : Option (List Token) × Handler :=
  match source.tokens with
  | .ok tokens => (some tokens, handler)
  | .error e => (none, handler.emit (.lexical e))

/-- The program in a source, if there is one. The first error is reported. -/
def Source.parseFile (source : Source) (handler : Handler) : Option Program × Handler :=
  match source.lex handler with
  | (none, handler) => (none, handler)
  | (some tokens, handler) =>
    let start : ParserState := { ParserState.start tokens source.whole with handler }
    let (result, final) := Parser.program.toEnd.run start
    (result.toOption, final.handler)

end ClassLang
