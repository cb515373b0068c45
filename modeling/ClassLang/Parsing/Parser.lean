import ClassLang.Handler
import ClassLang.Parsing.Context
import ClassLang.Parsing.Cursor
import ClassLang.Syntax.Program

/-!
Parsers: functions of a state, which is kept also after a failure. The syntactic context is part of
the state and is put back behind a part that is read in another one; a failure is reported where it
occurs. Recursion and repetition are bounded by the number of tokens left, for each round reads one.

* `Parser.iterate_induction`: what a recursive rule keeps, the recursive parser keeps.
-/

namespace ClassLang

/-! ## State -/

/-- How far a source has been read, and what has been collected on the way. -/
structure ParserState where
  cursor : Cursor
  /-- The place of the token read last. -/
  prev : Span
  /-- The number of the next node. -/
  nextId : Nat
  context : Context
  classes : List Class
  functions : List Function
  handler : Handler
deriving Repr

/-- The state before any token is read. -/
def ParserState.start (tokens : List Token) (source : Span) : ParserState :=
  ⟨Cursor.ofTokens tokens source, source.endPoint, 0, .global, [], [], .empty⟩

/-- A parser for values of a type. -/
structure Parser (α : Type) where
  run : ParserState → Except SyntaxError α × ParserState

/-- Runs a parser from a state in a context. -/
def Parser.runIn (p : Parser α) (context : Context) (s : ParserState) :
    Except SyntaxError α × ParserState :=
  p.run { s with context := context }

instance : CoeFun (Parser α) fun _ => Context → ParserState → Except SyntaxError α × ParserState :=
  ⟨Parser.runIn⟩

namespace Parser

/-- Reads nothing. -/
@[inline] def pure (a : α) : Parser α := ⟨fun s => (.ok a, s)⟩

/-- One parser after the other. -/
@[inline] def bind (p : Parser α) (f : α → Parser β) : Parser β := ⟨fun s =>
  match p.run s with
  | (.ok a, s) => (f a).run s
  | (.error e, s) => (.error e, s)⟩

instance : Monad Parser where
  pure := Parser.pure
  bind := Parser.bind

/-- The syntactic context. -/
def context : Parser Context := ⟨fun s => (.ok s.context, s)⟩

/-- Runs a parser in another context and comes back to the one before. -/
def within (context : Context) (p : Parser α) : Parser α := ⟨fun s =>
  let (result, t) := p.runIn context s
  (result, { t with context := s.context })⟩

/-! ## Failure -/

/-- Reports an error and fails with it. -/
def throw (e : SyntaxError) : Parser α := ⟨fun s =>
  (.error e, { s with handler := s.handler.emit (.syntactic e) })⟩

/-- Fails at a place. -/
def failAt (span : Span) (cause : SyntaxCause) : Parser α := throw ⟨span, cause⟩

/-- Fails at the current token. -/
def fail (cause : SyntaxCause) : Parser α := ⟨fun s =>
  (throw ⟨s.cursor.current.span, cause⟩).run s⟩

/-! ## Tokens -/

/-- The current token. -/
def current : Parser Token := ⟨fun s => (.ok s.cursor.current, s)⟩

/-- What the current token is. -/
def kind : Parser TokenKind := ⟨fun s => (.ok s.cursor.current.kind, s)⟩

/-- The token some places further on. -/
def lookahead (n : Nat) : Parser Token := ⟨fun s => (.ok (s.cursor.lookahead n), s)⟩

/-- The place of the current token. -/
def here : Parser Span := ⟨fun s => (.ok s.cursor.current.span, s)⟩

/-- Whether the end of the source is reached. -/
def atEnd : Parser Bool := ⟨fun s => (.ok s.cursor.isAtEnd, s)⟩

/-- Reads the current token; the end of the source stays. -/
def bump : Parser Token := ⟨fun s =>
  let token := s.cursor.current
  (.ok token,
    if s.cursor.isAtEnd then s else { s with cursor := s.cursor.advance, prev := token.span })⟩

/-- Whether the current token is of a kind. -/
def peek (wanted : TokenKind) : Parser Bool := ⟨fun s =>
  (.ok (s.cursor.current.kind == wanted), s)⟩

/-- Whether the current token is a mark. -/
def peekPunct (p : Punct) : Parser Bool := peek (.punct p)

/-- Whether the current token is a reserved word. -/
def peekKeyword (k : Keyword) : Parser Bool := peek (.keyword k)

/-- Reads a token of a kind if it is the current one. -/
def take? (wanted : TokenKind) : Parser (Option Span) := do
  if ← peek wanted then
    return some (← bump).span
  else return none

/-- Reads a mark if it is the current token. -/
def takePunct? (p : Punct) : Parser (Option Span) := take? (.punct p)

/-- Reads a reserved word if it is the current token. -/
def takeKeyword? (k : Keyword) : Parser (Option Span) := take? (.keyword k)

/-- Reads the current token if it is one of some marks. -/
def takePunctOf? (marks : List Punct) : Parser (Option (Punct × Span)) := do
  match ← kind with
  | .punct p => if marks.contains p then return some (p, (← bump).span) else return none
  | _ => return none

/-- Reads a name if it is the current token. -/
def takeIdent? : Parser (Option Ident) := do
  match ← kind with
  | .ident name => return some ⟨name, (← bump).span⟩
  | _ => return none

/-- Whether a mark was read. -/
def accept (p : Punct) : Parser Bool := return (← takePunct? p).isSome

/-- Whether a reserved word was read. -/
def acceptKeyword (k : Keyword) : Parser Bool := return (← takeKeyword? k).isSome

/-- Fails because some text was expected at the current token. -/
def expected (text : String) : Parser α := do
  fail (.expectedToken text (← current).describe)

/-- Reads a mark. -/
def expectPunct (p : Punct) : Parser Span := do
  match ← takePunct? p with
  | some span => return span
  | none => expected p.spelling

/-- Reads a reserved word. -/
def expectKeyword (k : Keyword) : Parser Span := do
  match ← takeKeyword? k with
  | some span => return span
  | none => expected k.spelling

/-- Reads a name. -/
def expectIdent : Parser Ident := do
  match ← takeIdent? with
  | some name => return name
  | none => if ← atEnd then fail .unexpectedEof else fail .expectedIdent

/-! ## Nodes -/

/-- The stretch from a place up to the token read last. -/
def spanFrom (start : Span) : Parser Span := ⟨fun s => (.ok (start.join s.prev), s)⟩

/-- A node with the next number. -/
def newNode (span : Span) : Parser Node := ⟨fun s =>
  (.ok ⟨s.nextId, span⟩, { s with nextId := s.nextId + 1 })⟩

/-- A node from a place up to the token read last. -/
def nodeFrom (start : Span) : Parser Node := do newNode (← spanFrom start)

/-- A copy of an expression whose nodes have numbers of their own. -/
def freshCopy (e : Expr) : Parser Expr := ⟨fun s =>
  let (copy, next) := e.renumber s.nextId
  (.ok copy, { s with nextId := next })⟩

/-- The count of the nodes so far. -/
def nodeCount : Parser Nat := ⟨fun s => (.ok s.nextId, s)⟩

/-! ## Declarations put aside -/

/-- Puts a class among those of the program. -/
def addClass (c : Class) : Parser Unit := ⟨fun s =>
  (.ok (), { s with classes := s.classes ++ [c] })⟩

/-- Puts a function among those of the program. -/
def addFunction (f : Function) : Parser Unit := ⟨fun s =>
  (.ok (), { s with functions := s.functions ++ [f] })⟩

/-- The classes and functions put aside, which are then no longer there. -/
def takeDeclarations : Parser (List Class × List Function) := ⟨fun s =>
  (.ok (s.classes, s.functions), { s with classes := [], functions := [] })⟩

/-! ## Repetition and recursion -/

/-- Repeats a step at most so many times, until it gives a result. -/
def loop (step : σ → Parser (σ ⊕ β)) : Nat → σ → Parser β
  | 0, _ => fail .unexpectedEof
  | n + 1, s => do
    match ← step s with
    | .inl s => loop step n s
    | .inr b => return b

/-- Repeats a step until it gives a result. Each step that gives none must read a token. -/
def repeatFrom (start : σ) (step : σ → Parser (σ ⊕ β)) : Parser β := ⟨fun s =>
  (loop step (s.cursor.remaining + 1) start).run s⟩

/-- A recursive rule taken apart at most so many times. -/
def iterate (rule : Parser α → Parser α) : Nat → Parser α
  | 0 => fail .unexpectedEof
  | n + 1 => ⟨fun s => (rule (iterate rule n)).run s⟩

/-- The parser that a recursive rule describes. The rule must read a token before it recurs. -/
def recursive (rule : Parser α → Parser α) : Parser α := ⟨fun s =>
  (iterate rule (s.cursor.remaining + 1)).run s⟩

theorem iterate_induction {keeps : Parser α → Prop} {rule : Parser α → Parser α}
    (stop : keeps (fail .unexpectedEof)) (step : ∀ p, keeps p → keeps (rule p)) (n : Nat) :
    keeps (iterate rule n) := by
  induction n with
  | zero => exact stop
  | succ n ih => exact step _ ih

/-- Items with commas between them up to a closing mark, the opening one having been read. There
must be an item after a comma. -/
def commaList (closing : Punct) (cause : SyntaxCause) (item : Parser α) : Parser (List α) := do
  if ← accept closing then return []
  repeatFrom [] fun items => do
    let items := (← item) :: items
    if ← accept .comma then return .inl items
    else if ← accept closing then return .inr items.reverse
    else fail cause

end Parser

end ClassLang
