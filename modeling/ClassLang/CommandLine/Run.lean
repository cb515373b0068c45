import ClassLang.CommandLine.Log
import ClassLang.CommandLine.Options
import ClassLang.Compile
import ClassLang.Syntax.Outline

/-!
A run on some files: what it prints and how it ends.
-/

namespace ClassLang

/-! ## Sources -/

/-- Why a file cannot be read. -/
inductive ReadFault where
  | missing
  | notText
  /-- The reason as the system gives it. -/
  | other (reason : String)
deriving DecidableEq, Repr

/-- The wording of a reason. -/
def ReadFault.message : ReadFault → String
  | missing => "No such file or directory (os error 2)"
  | notText => "stream did not contain valid UTF-8"
  | other reason => reason

/-- A file by name, with what was found there. -/
structure FileRead where
  name : String
  content : Except ReadFault ByteArray

/-- The text of a file, or its name and the fault. -/
def FileRead.text (file : FileRead) : Except (String × ReadFault) String :=
  match file.content with
  | .error fault => .error (file.name, fault)
  | .ok bytes =>
    match String.fromUTF8? bytes with
    | some text => .ok text
    | none => .error (file.name, .notText)

/-- A text whose last line is complete. -/
def completed (text : String) : String :=
  if text.toList.getLast? = some '\n' then text else text ++ "\n"

/-- The texts of some files as one source text. -/
def joined (texts : List String) : String := String.join (texts.map completed)

/-! ## Output -/

/-- What a run leaves behind. -/
structure Output where
  exitCode : Nat
  stdout : String
  stderr : String
deriving DecidableEq, Repr

/-- The output after a file could not be read. -/
def Output.unreadable (name : String) (fault : ReadFault) : Output :=
  ⟨1, "", "Error: failed to read " ++ name ++ "\n\nCaused by:\n    " ++ fault.message ++ "\n"⟩

/-- The verdict in colour. -/
def verdictLine (valid : Bool) : String :=
  record (if valid then green "valid" else red "invalid")

/-- A warning as it is printed. -/
def warningLine (source : Source) (warning : Warning) : String :=
  record (yellow (source.location warning.span ++ ": warning: " ++ warning.cause.message))

/-- An error as it is printed. -/
def errorLine (source : Source) (span : Span) (message : String) : String :=
  record (red (source.location span ++ ": error: " ++ message))

namespace Options

/-- Lines that are left out if nothing is to be said. -/
def unlessSilent (options : Options) (lines : List String) : String :=
  if options.silent then "" else String.join lines

/-- The output about a program. The tree is printed when it is asked for, silent or not. -/
def outputOf (options : Options) (source : Source) (c : Compilation) : Output :=
  let valid := c.verdict.valid
  let events := (c.events.filter fun event => options.shows event.detail).map Event.record
  let tree :=
    if options.printTree then (Outline.program source c.program).render 0 ++ "\n" else ""
  ⟨if valid then 0 else 1, String.join events ++ tree,
    options.unlessSilent (c.warnings.map (warningLine source) ++
      c.errors.map (fun e => errorLine source e.span e.cause.message) ++ [verdictLine valid])⟩

/-- The output about a source that is no program. -/
def outputOfError (options : Options) (source : Source) (e : SourceError) : Output :=
  ⟨1, "", options.unlessSilent [errorLine source e.span e.message, verdictLine false]⟩

/-- Compiles some files, up to the first that cannot be read. -/
def run (options : Options) (files : List FileRead) : Output :=
  match files.mapM FileRead.text with
  | .error (name, fault) => .unreadable name fault
  | .ok texts =>
    let source : Source := ⟨joined texts, options.path?⟩
    match source.compile options.settings with
    | .ok compilation => options.outputOf source compilation
    | .error e => options.outputOfError source e

end Options

end ClassLang
