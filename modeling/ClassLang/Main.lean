import ClassLang.CommandLine.Run

/-!
The command line: reads the files that are named, compiles them, prints the outcome.
-/

namespace ClassLang

/-- Reads a file. -/
def readFile (name : String) : IO FileRead := do
  try
    return ⟨name, .ok (← IO.FS.readBinFile name)⟩
  catch
    | .noFileOrDirectory .. => return ⟨name, .error .missing⟩
    | e => return ⟨name, .error (.other (toString e))⟩

/-- How the command line is used. -/
def usage : String :=
  "Usage: classlang [--print-tree] [-v | --verbose]... [-s | --silent] " ++
    "[--no-dead-code-warnings] FILES..."

/-- Runs the command line and gives the exit code. -/
def runArgs (args : List String) : IO UInt32 := do
  match Options.ofArgs? args with
  | none =>
    IO.eprintln usage
    return 2
  | some options =>
    let output := options.run (← options.files.mapM readFile)
    IO.print output.stdout
    IO.eprint output.stderr
    return output.exitCode.toUInt32

end ClassLang

def main (args : List String) : IO UInt32 := ClassLang.runArgs args
