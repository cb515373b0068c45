import ClassLang.Checking.Check

/-!
What is asked for on the command line.
-/

namespace ClassLang

/-- The files to read, and how to report. -/
structure Options where
  files : List String
  printTree : Bool
  /-- How often more detail is asked for. -/
  verbosity : Nat
  silent : Bool
  warnUnused : Bool
deriving DecidableEq, Repr

/-- A switch on the command line. -/
inductive Switch where
  | printTree | verbose | silent | noUnusedWarnings
deriving DecidableEq, Repr

/-- The switch of a long name. -/
def Switch.ofName? (name : String) : Option Switch :=
  [("--print-tree", printTree), ("--verbose", verbose), ("--silent", silent),
    ("--no-dead-code-warnings", noUnusedWarnings)].lookup name

/-- The switch of a letter. -/
def Switch.ofLetter? (letter : Char) : Option Switch :=
  [('v', verbose), ('s', silent)].lookup letter

namespace Options

/-- Nothing asked for. -/
def none : Options := ⟨[], false, 0, false, true⟩

/-- Turns a switch on. -/
def set (options : Options) : Switch → Options
  | .printTree => { options with printTree := true }
  | .verbose => { options with verbosity := options.verbosity + 1 }
  | .silent => { options with silent := true }
  | .noUnusedWarnings => { options with warnUnused := false }

/-- Adds what one argument asks for: a long switch, some letters after a dash, or a file. -/
def add? (options : Options) (arg : String) : Option Options :=
  match arg.toList with
  | '-' :: '-' :: _ => (Switch.ofName? arg).map options.set
  | '-' :: letter :: letters =>
    (letter :: letters).foldlM (fun options letter => (Switch.ofLetter? letter).map options.set)
      options
  | _ => some { options with files := options.files ++ [arg] }

/-- Adds what some arguments ask for. After a double dash there are files only. -/
def addAll? (options : Options) : List String → Option Options
  | [] => some options
  | arg :: rest =>
    if arg = "--" then some { options with files := options.files ++ rest }
    else (options.add? arg).bind fun options => options.addAll? rest

/-- What the arguments ask for, which has to include a file. -/
def ofArgs? (args : List String) : Option Options := do
  let options ← none.addAll? args
  guard !options.files.isEmpty
  return options

/-- The path that the source is known by: that of the file, if there is one only. -/
def path? (options : Options) : Option String :=
  match options.files with
  | [file] => some file
  | _ => Option.none

/-- The warnings that are wanted. -/
def settings (options : Options) : Settings := ⟨options.warnUnused, true⟩

/-- Whether events of a kind are shown. -/
def shows (options : Options) (detail : Detail) : Bool :=
  !options.silent && match detail with
  | .info => true
  | .debug => 1 ≤ options.verbosity
  | .trace => 2 ≤ options.verbosity

end Options

end ClassLang
