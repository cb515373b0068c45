import ClassLang.Checking.Fault
import ClassLang.Lexing.Fault

/-!
The handler that all phases report to. Reports are only ever added.
-/

namespace ClassLang

/-- An error of any phase. -/
inductive CompileError where
  | lexical (error : LexError)
  | syntactic (error : SyntaxError)
  | semantic (error : CheckError)
deriving Repr

/-- What has been reported, the earliest first. -/
structure Handler where
  errors : List CompileError
  warnings : List Warning
deriving Repr

namespace Handler

/-- A handler without reports. -/
def empty : Handler := ⟨[], []⟩

/-- Reports an error. -/
def emit (h : Handler) (e : CompileError) : Handler := { h with errors := h.errors ++ [e] }

end Handler

end ClassLang
