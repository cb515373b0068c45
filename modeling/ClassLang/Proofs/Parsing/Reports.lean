import ClassLang.Proofs.Parsing.Composed

/-!
What parsers report. A parser that succeeds reports nothing, and one that fails reports the error it
fails with and nothing else; it comes back to the context it started in either way. The handler is
only written to, so a source is read in the same way whatever has been reported before.

* `Source.parseFile_reports_once`: a source that is no program adds one error to the handler.
-/

namespace ClassLang

/-- The handler behind a parser with this result. -/
def Handler.behind (handler : Handler) : Except SyntaxError α → Handler
  | .ok _ => handler
  | .error e => handler.emit (.syntactic e)

namespace Parser

variable {α β : Type} {p : Parser α}

/-- What a parser reports is what it fails with, and it leaves the context as it was. -/
def ReportsOnce (p : Parser α) : Prop :=
  ∀ s, (p.run s).2.handler = s.handler.behind (p.run s).1 ∧ (p.run s).2.context = s.context

theorem Composed.run_handler {aside : Bool} (h : Composed aside p) (s : ParserState) :
    ∃ (result : Except SyntaxError α) (t : ParserState), t.context = s.context ∧ ∀ handler,
      p.run { s with handler } = (result, { t with handler := handler.behind result }) := by
  induction h generalizing s with
  | pure a => exact ⟨.ok a, s, rfl, fun _ => rfl⟩
  | @bind _ _ p f _ _ ihp ihf =>
    obtain ⟨result, middle, stays, first⟩ := ihp s
    cases result with
    | error e =>
      refine ⟨.error e, middle, stays, fun handler => ?_⟩
      change (Parser.bind p f).run _ = _
      simp only [Parser.bind, first, Handler.behind]
    | ok a =>
      obtain ⟨result, t, stays', second⟩ := ihf a middle
      refine ⟨result, t, stays'.trans stays, fun handler => ?_⟩
      rw [bind_of_ok (first handler)]
      exact second handler
  | look f blind =>
    refine ⟨.ok (f s), s, rfl, fun handler => ?_⟩
    dsimp only
    rw [blind]
    rfl
  | bump =>
    refine ⟨.ok s.cursor.current,
      if s.cursor.isAtEnd then s else
        { s with cursor := s.cursor.advance, prev := s.cursor.current.span }, ?_, fun handler => ?_⟩
    · split <;> rfl
    · dsimp only [Parser.bump]
      split <;> rfl
  | number f => exact ⟨.ok (f s.nextId).1, { s with nextId := (f s.nextId).2 }, rfl, fun _ => rfl⟩
  | shelve f =>
    exact ⟨.ok (f s.classes s.functions).1,
      { s with
        classes := (f s.classes s.functions).2.1
        functions := (f s.classes s.functions).2.2 }, rfl, fun _ => rfl⟩
  | fail cause => exact ⟨.error ⟨s.cursor.current.span, cause⟩, s, rfl, fun _ => rfl⟩
  | failAt span cause => exact ⟨.error ⟨span, cause⟩, s, rfl, fun _ => rfl⟩
  | within c _ ih =>
    obtain ⟨result, t, -, run⟩ := ih { s with context := c }
    refine ⟨result, { t with context := s.context }, rfl, fun handler => ?_⟩
    rw [within_run, runIn, run handler]

theorem Composed.keeps_context {aside : Bool} {p : Parser α} (made : Composed aside p)
    {s t : ParserState} {a : α} (run : p.run s = (.ok a, t)) : t.context = s.context := by
  obtain ⟨_, u, stays, same⟩ := made.run_handler s
  have here := same s.handler
  rw [run] at here
  obtain ⟨-, rfl⟩ := Prod.mk.inj here
  exact stays

theorem Composed.reportsOnce (h : Composed true p) : ReportsOnce p := by
  intro s
  obtain ⟨result, t, stays, run⟩ := h.run_handler s
  have here := run s.handler
  rw [here]
  exact ⟨rfl, stays⟩

end Parser

namespace Source

/-- Whatever the handler holds, the source is read as it is read alone. -/
theorem parseFile_eq (source : Source) (handler : Handler) :
    source.parseFile handler = match source.parse Parser.program with
      | .ok p => (some p, handler)
      | .error e => (none, handler.emit e.report) := by
  unfold Source.parseFile Source.lex Source.parse
  cases source.tokens with
  | error e => rfl
  | ok tokens =>
    obtain ⟨result, t, -, run⟩ := (Parser.toEnd_composed Parser.program_composed).run_handler
      (ParserState.start tokens source.whole)
    have alone : Parser.program.runToEnd tokens source.whole = result :=
      congrArg Prod.fst (run .empty)
    have split : ((Except.ok tokens).mapError SourceError.lexical >>= fun tokens =>
        (Parser.program.runToEnd tokens source.whole).mapError SourceError.syntactic) =
        (Parser.program.runToEnd tokens source.whole).mapError SourceError.syntactic := rfl
    let start : ParserState := { ParserState.start tokens source.whole with handler }
    change ((Parser.program.toEnd.run start).1.toOption,
      (Parser.program.toEnd.run start).2.handler) = _
    rw [split, alone, show Parser.program.toEnd.run start = _ from run handler]
    cases result <;> rfl

theorem parseFile_reports_once (source : Source) (handler : Handler) :
    ((source.parseFile handler).1.isSome = true ↔
        (source.parseFile handler).2.errors.length = handler.errors.length) ∧
      ((source.parseFile handler).1.isNone = true ↔
        (source.parseFile handler).2.errors.length = handler.errors.length + 1) ∧
      ((source.parseFile handler).1.isNone = true → ∃ e : SourceError,
        (source.parseFile handler).2.errors = handler.errors ++ [e.report]) ∧
      (source.parseFile handler).2.warnings = handler.warnings ∧
      Parser.expression.ReportsOnce ∧ Parser.typeRef.ReportsOnce ∧ Parser.returnType.ReportsOnce ∧
      Parser.block.ReportsOnce ∧ Parser.program.ReportsOnce := by
  have parsers : Parser.expression.ReportsOnce ∧ Parser.typeRef.ReportsOnce ∧
      Parser.returnType.ReportsOnce ∧ Parser.block.ReportsOnce ∧ Parser.program.ReportsOnce :=
    ⟨Parser.expression_composed.reportsOnce, Parser.typeRef_composed.reportsOnce,
      Parser.returnType_composed.reportsOnce, Parser.block_composed.reportsOnce,
      Parser.program_composed.reportsOnce⟩
  rw [parseFile_eq]
  cases source.parse Parser.program with
  | ok p => exact ⟨by simp, by simp, by simp, rfl, parsers⟩
  | error e => exact ⟨by simp [Handler.emit], by simp [Handler.emit], fun _ => ⟨e, rfl⟩, rfl, parsers⟩

end Source

end ClassLang
