import ClassLang.Proofs.Parsing.Termination

/-!
What may be asked of a parser about the token in front of it, as steps of runs of any length. A
failure is an answer like any other: the run goes on from the state that it leaves.

* `CursorOp.contract`: what one operation answers and does to the state.
* `CursorOp.run_suffix`: no run leaves the tokens.
* `CursorOp.runs_safe`: the contract holds behind every run, also at the end of the source.
-/

namespace ClassLang

inductive CursorOp where
  | lookahead (n : Nat)
  | bump
  | peekPunct (p : Punct)
  | peekKeyword (k : Keyword)
  | takePunct (p : Punct)
  | takeKeyword (k : Keyword)
  | takePunctOf (marks : List Punct)
  | takeIdent
  | expectPunct (p : Punct)
  | expectKeyword (k : Keyword)
  | expectIdent
  | emitError (cause : SyntaxCause)

inductive CursorAnswer where
  | token (token : Token)
  | verdict (holds : Bool)
  | place (span : Span)
  | mark (p : Punct) (span : Span)
  | name (ident : Ident)
  | absent

namespace CursorOp

def parser : CursorOp → Parser CursorAnswer
  | lookahead n => do return .token (← Parser.lookahead n)
  | bump => do return .token (← Parser.bump)
  | peekPunct p => do return .verdict (← Parser.peekPunct p)
  | peekKeyword k => do return .verdict (← Parser.peekKeyword k)
  | takePunct p => do return (← Parser.takePunct? p).elim .absent .place
  | takeKeyword k => do return (← Parser.takeKeyword? k).elim .absent .place
  | takePunctOf marks => do
    return (← Parser.takePunctOf? marks).elim .absent fun found => .mark found.1 found.2
  | takeIdent => do return (← Parser.takeIdent?).elim .absent .name
  | expectPunct p => do return .place (← Parser.expectPunct p)
  | expectKeyword k => do return .place (← Parser.expectKeyword k)
  | expectIdent => do return .name (← Parser.expectIdent)
  | emitError cause => Parser.fail cause

def after (s : ParserState) (op : CursorOp) : ParserState := (op.parser.run s).2

/-- One operation after the other, whether they fail or not. -/
def runAll (ops : List CursorOp) (s : ParserState) : ParserState := ops.foldl after s

end CursorOp

/-! ## What an operation does -/

namespace Token

def spanIf (wanted : TokenKind) (token : Token) : Option Span :=
  if token.kind = wanted then some token.span else none

def markAmong (marks : List Punct) (token : Token) : Option (Punct × Span) :=
  match token.kind with
  | .punct p => if p ∈ marks then some (p, token.span) else none
  | _ => none

def ident? (token : Token) : Option Ident :=
  match token.kind with
  | .ident name => some ⟨name, token.span⟩
  | _ => none

end Token

namespace ParserState

/-- Exactly the current token is read, and nothing else changes. -/
def Passes (s t : ParserState) : Prop :=
  s.cursor.tokens = s.cursor.current :: t.cursor.tokens ∧
    t = { s with cursor := t.cursor, prev := s.cursor.current.span }

/-- Exactly one error is added, at the current token, and nothing else changes. -/
def Refuses (s : ParserState) (cause : SyntaxCause)
    (out : Except SyntaxError CursorAnswer × ParserState) : Prop :=
  out = (.error ⟨s.cursor.current.span, cause⟩, { s with
    handler := { s.handler with
      errors := s.handler.errors ++ [.syntactic ⟨s.cursor.current.span, cause⟩] } })

/-- What is wanted is read; otherwise nothing changes at all. -/
def Takes (s : ParserState) (found : Option CursorAnswer)
    (out : Except SyntaxError CursorAnswer × ParserState) : Prop :=
  match found with
  | some answer => out.1 = .ok answer ∧ s.Passes out.2
  | none => out = (.ok .absent, s)

/-- What is wanted is read; otherwise this is an error. -/
def Expects (s : ParserState) (found : Option CursorAnswer) (cause : SyntaxCause)
    (out : Except SyntaxError CursorAnswer × ParserState) : Prop :=
  match found with
  | some answer => out.1 = .ok answer ∧ s.Passes out.2
  | none => s.Refuses cause out

end ParserState

/-- What an operation answers in a state and where it leads. -/
def CursorOp.Contract (s : ParserState) (out : Except SyntaxError CursorAnswer × ParserState) :
    CursorOp → Prop
  | lookahead n => ∃ token, s.cursor.tokens[n]?.or s.cursor.tokens.getLast? = some token ∧
      out = (.ok (.token token), s)
  | bump => out.1 = .ok (.token s.cursor.current) ∧
      if s.cursor.current.kind = .eof then out.2 = s else s.Passes out.2
  | peekPunct p => out = (.ok (.verdict (s.cursor.current.kind == .punct p)), s)
  | peekKeyword k => out = (.ok (.verdict (s.cursor.current.kind == .keyword k)), s)
  | takePunct p => s.Takes ((s.cursor.current.spanIf (.punct p)).map .place) out
  | takeKeyword k => s.Takes ((s.cursor.current.spanIf (.keyword k)).map .place) out
  | takePunctOf marks =>
    s.Takes ((s.cursor.current.markAmong marks).map fun found => .mark found.1 found.2) out
  | takeIdent => s.Takes (s.cursor.current.ident?.map .name) out
  | expectPunct p => s.Expects ((s.cursor.current.spanIf (.punct p)).map .place)
      (.expectedToken p.spelling s.cursor.current.describe) out
  | expectKeyword k => s.Expects ((s.cursor.current.spanIf (.keyword k)).map .place)
      (.expectedToken k.spelling s.cursor.current.describe) out
  | expectIdent => s.Expects (s.cursor.current.ident?.map .name)
      (if s.cursor.current.kind = .eof then .unexpectedEof else .expectedIdent) out
  | emitError cause => s.Refuses cause out

/-! ## One operation -/

namespace Parser

variable {α β : Type} {s t : ParserState}

theorem bind_of_error {p : Parser α} {f : α → Parser β} {e : SyntaxError}
    (h : p.run s = (.error e, t)) : (p >>= f).run s = (.error e, t) := by
  change (Parser.bind p f).run s = _
  simp only [Parser.bind, h]

theorem bump_at_end (ended : s.cursor.current.kind = .eof) :
    bump.run s = (.ok s.cursor.current, s) :=
  congrArg (Except.ok s.cursor.current, ·) (if_pos (by simp [Cursor.isAtEnd, ended]))

theorem passes_bump (ended : s.cursor.Ended) (more : s.cursor.current.kind ≠ .eof) :
    s.Passes (bump.run s).2 := by
  have going : s.cursor.isAtEnd = false := by simp [Cursor.isAtEnd, more]
  have moved : (bump.run s).2 =
      { s with cursor := s.cursor.advance, prev := s.cursor.current.span } :=
    if_neg (by simp [going])
  obtain ⟨next, rest, later⟩ : ∃ next rest, s.cursor.later = next :: rest :=
    List.exists_cons_of_ne_nil (rest_ne_nil ended (show s.cursor.tokens = [] ++ _ :: _ from rfl) more)
  rw [moved]
  refine ⟨?_, rfl⟩
  simp [Cursor.advance, going, Cursor.tokens, later]

/-- A parser that reads the current token if that is something, and does nothing otherwise. -/
structure TakesToken (p : Parser (Option α)) (read : Token → Option α) : Prop where
  run : ∀ s, p.run s =
    (read s.cursor.current).elim (.ok none, s) fun a => (.ok (some a), (bump.run s).2)
  ink : ∀ token a, read token = some a → token.kind ≠ .eof

theorem take?_takesToken (wanted : TokenKind) (more : wanted ≠ .eof) :
    TakesToken (take? wanted) (Token.spanIf wanted) where
  run s := by
    change (if s.cursor.current.kind == wanted then (do return some (← bump).span)
      else return none : Parser (Option Span)).run s = _
    by_cases same : s.cursor.current.kind = wanted
    · rw [if_pos (by simpa using same), Token.spanIf, if_pos same]
      rfl
    · rw [if_neg (by simpa using same), Token.spanIf, if_neg same]
      rfl
  ink token a found := (Option.ite_none_right_eq_some.1 found).1 ▸ more

theorem takePunctOf?_takesToken (marks : List Punct) :
    TakesToken (takePunctOf? marks) (Token.markAmong marks) where
  run s := by
    rw [takePunctOf?, bind_of_ok (a := s.cursor.current.kind) (t := s) rfl, Token.markAmong]
    cases s.cursor.current.kind with
    | punct p =>
      by_cases among : p ∈ marks
      · simp only [List.contains_iff_mem.2 among, among, if_true]
        rfl
      · simp only [mt List.contains_iff_mem.1 among, among, if_false]
        rfl
    | _ => rfl
  ink token a found eof := by simp [Token.markAmong, eof] at found

theorem takeIdent?_takesToken : TakesToken takeIdent? Token.ident? where
  run s := by
    rw [takeIdent?, bind_of_ok (a := s.cursor.current.kind) (t := s) rfl, Token.ident?]
    cases s.cursor.current.kind <;> rfl
  ink token a found eof := by simp [Token.ident?, eof] at found

namespace TakesToken

variable {p : Parser (Option α)} {read : Token → Option α} (answer : α → CursorAnswer)

theorem takes (h : TakesToken p read) (ended : s.cursor.Ended) :
    s.Takes ((read s.cursor.current).map answer)
      ((do return (← p).elim .absent answer : Parser CursorAnswer).run s) := by
  have run := h.run s
  cases found : read s.cursor.current with
  | none =>
    rw [found] at run
    exact bind_of_ok run
  | some a =>
    rw [found] at run
    rw [bind_of_ok run]
    exact ⟨rfl, passes_bump ended (h.ink _ a found)⟩

theorem expects (h : TakesToken p read) {demand : Option α → Parser α} {cause : SyntaxCause}
    (accepts : ∀ a, demand (some a) = pure a)
    (refuses : (demand none).run s = (fail cause : Parser α).run s) (ended : s.cursor.Ended) :
    s.Expects ((read s.cursor.current).map answer) cause
      ((do return answer (← p >>= demand) : Parser CursorAnswer).run s) := by
  have run := h.run s
  cases found : read s.cursor.current with
  | none =>
    rw [found] at run
    exact bind_of_error ((bind_of_ok run).trans refuses)
  | some a =>
    rw [found] at run
    have goes : (p >>= demand).run s = (.ok a, (bump.run s).2) := by
      rw [bind_of_ok run, accepts]
      rfl
    rw [bind_of_ok goes]
    exact ⟨rfl, passes_bump ended (h.ink _ a found)⟩

end TakesToken

end Parser

theorem Cursor.lookahead_clamped (c : Cursor) (n : Nat) :
    c.tokens[n]?.or c.tokens.getLast? = some (c.lookahead n) := by
  have count : c.tokens.length = c.remaining + 1 := rfl
  rw [lookahead, List.getD_eq_getElem?_getD]
  rcases Nat.lt_or_ge n c.tokens.length with inside | beyond
  · rw [Nat.min_eq_left (by omega), List.getElem?_eq_getElem inside]
    rfl
  · rw [List.getElem?_eq_none beyond, Nat.min_eq_right (by omega), List.getLast?_eq_getElem?, count,
      Nat.add_sub_cancel, List.getElem?_eq_getElem (by omega)]
    rfl

namespace CursorOp

theorem contract (op : CursorOp) {s : ParserState} (ended : s.cursor.Ended) :
    op.Contract s (op.parser.run s) := by
  cases op with
  | lookahead n => exact ⟨_, s.cursor.lookahead_clamped n, rfl⟩
  | bump =>
    refine ⟨rfl, ?_⟩
    split
    · next last => exact congrArg Prod.snd (Parser.bump_at_end last)
    · next more => exact Parser.passes_bump ended more
  | peekPunct p => exact rfl
  | peekKeyword k => exact rfl
  | takePunct p => exact (Parser.take?_takesToken (.punct p) nofun).takes .place ended
  | takeKeyword k => exact (Parser.take?_takesToken (.keyword k) nofun).takes .place ended
  | takePunctOf marks => exact (Parser.takePunctOf?_takesToken marks).takes _ ended
  | takeIdent => exact Parser.takeIdent?_takesToken.takes .name ended
  | expectPunct p =>
    exact (Parser.take?_takesToken (.punct p) nofun).expects .place (fun _ => rfl) rfl ended
  | expectKeyword k =>
    exact (Parser.take?_takesToken (.keyword k) nofun).expects .place (fun _ => rfl) rfl ended
  | expectIdent =>
    refine Parser.takeIdent?_takesToken.expects .name (fun _ => rfl) ?_ ended
    rw [Parser.bind_of_ok (a := s.cursor.isAtEnd) (t := s) rfl, Cursor.isAtEnd]
    by_cases last : s.cursor.current.kind = .eof <;> simp [last]
  | emitError cause => exact rfl

/-! ## Runs -/

theorem Contract.suffix {op : CursorOp} {s : ParserState}
    {out : Except SyntaxError CursorAnswer × ParserState} (h : op.Contract s out) :
    out.2.cursor.tokens <:+ s.cursor.tokens := by
  have passed {t : ParserState} (h : s.Passes t) : t.cursor.tokens <:+ s.cursor.tokens :=
    h.1 ▸ List.suffix_cons _ _
  have taken {found : Option CursorAnswer} (h : s.Takes found out) :
      out.2.cursor.tokens <:+ s.cursor.tokens := by
    cases found with
    | some answer => exact passed h.2
    | none => exact (show out = _ from h) ▸ List.suffix_refl _
  have expected {found : Option CursorAnswer} {cause : SyntaxCause}
      (h : s.Expects found cause out) : out.2.cursor.tokens <:+ s.cursor.tokens := by
    cases found with
    | some answer => exact passed h.2
    | none => exact (show out = _ from h) ▸ List.suffix_refl _
  cases op with
  | lookahead n =>
    obtain ⟨token, -, rfl⟩ := h
    exact List.suffix_refl _
  | bump =>
    obtain ⟨-, moved⟩ := h
    split at moved
    · rw [moved]
    · exact passed moved
  | peekPunct p | peekKeyword k | emitError cause =>
    exact (show out = _ from h) ▸ List.suffix_refl _
  | takePunct p | takeKeyword k | takePunctOf marks | takeIdent => exact taken h
  | expectPunct p | expectKeyword k | expectIdent => exact expected h

theorem run_suffix (ops : List CursorOp) {s : ParserState} (ended : s.cursor.Ended) :
    (runAll ops s).cursor.tokens <:+ s.cursor.tokens := by
  induction ops generalizing s with
  | nil => exact List.suffix_refl _
  | cons op ops ih =>
    have first : (after s op).cursor.tokens <:+ s.cursor.tokens := (op.contract ended).suffix
    exact (ih (ended.of_suffix first)).trans first

theorem runs_safe (tokens : List Token) (source : Span) (s : ParserState) (ops : List CursorOp)
    (op : CursorOp) :
    let t := runAll ops { s with cursor := .ofTokens tokens source }
    t.cursor.tokens <:+ endTokens tokens source ∧ t.cursor.Ended ∧
      op.Contract t (op.parser.run t) := by
  intro t
  have ended := Parser.ofTokens_ended tokens source
  have sub : t.cursor.tokens <:+ (Cursor.ofTokens tokens source).tokens := run_suffix ops ended
  refine ⟨?_, ended.of_suffix sub, op.contract (ended.of_suffix sub)⟩
  rwa [Cursor.ofTokens_tokens] at sub

end CursorOp

end ClassLang
