import ClassLang.Checking.Analysis
import ClassLang.Checking.Unused
import ClassLang.Parsing.Programs

/-!
From a source to a checked program, with everything that there is to say about it.
-/

namespace ClassLang

/-- A checked program. -/
structure Compilation where
  program : Program
  verdict : Verdict
  findings : Findings
  errors : List CheckError
  warnings : List Warning
  unused : List Decl
  /-- The steps of the run, in order. -/
  events : List Event
deriving Repr

/-- Checks a program and looks for unused declarations. -/
def Program.compile (p : Program) (settings : Settings) : Compilation :=
  let ⟨verdict, state⟩ := p.analyze settings
  let unused := p.unused state.findings
  let unusedWarnings := if settings.warnUnused then unused.map Prod.snd else []
  { program := p
    verdict
    findings := state.findings
    errors := state.errors
    warnings := state.warnings ++ unusedWarnings
    unused := unused.map Prod.fst
    events := .parsed p.classes.length p.functions.length p.statements.length ::
      state.events ++ [.countedUnused unused.length] }

/-- Reads a source as a program and checks it. -/
def Source.compile (source : Source) (settings : Settings) : Except SourceError Compilation :=
  return (← source.parse Parser.program).compile settings

end ClassLang
