import CalcSyntax.CommandLine.Host
import CalcSyntax.Trace

/-!
# Main — the analyzer as a program

The outer layer: it hands the words of the command line and the file
system to `Options.run` and decides nothing itself. Asking for help or the
version is answered on the standard output, any other reason not to run on
the standard error.
-/

set_option autoImplicit false

namespace CalcSyntax

/-- How to call the program. -/
def usageText : String :=
  "Syntax analyzer for TI-BASIC style programs\n\n"
    ++ "Usage: calcsyntax [OPTIONS] <INPUT>\n\n"
    ++ "  -e, --emit <EMIT>  tree, sexpr, source or json [default: tree]\n"
    ++ "  -t, --tokens       Print the token stream before parsing\n"
    ++ "  -q, --quiet        Don't write to standard output\n"
    ++ "  -w, --write        Save the output next to the input as <INPUT>.out\n"
    ++ "  -d, --debug        Enable debug logging\n"
    ++ "  -h, --help         Print help\n"
    ++ "  -V, --version      Print version\n"

/-- A fault in the words of this library, as far as it has any. -/
def FileFault.ofError : IO.Error → FileFault
  | .noFileOrDirectory .. => .notFound
  | e => .other (toString e)

/-- The surroundings of the process. With `debug` the events of the analysis
are shown as soon as the text is known. -/
def processHost (debug : Bool) : Host IO where
  read path := do
    try
      let bytes ← IO.FS.readBinFile path
      match String.fromUTF8? bytes with
      | none => return .error .notText
      | some text =>
        if debug then
          for event in trace text .calculator do
            if event.level = .summary then IO.eprintln event.message
        return .ok text
    catch e => return .error (.ofError e)
  write path text := do
    try
      IO.FS.writeFile path text
      return .ok ()
    catch e => return .error (.ofError e)
  print := IO.print
  warn := IO.eprint

/-- Answers a command line that does not lead to a run. -/
def declineWith : UsageStop → IO UInt32
  | .help => do
    IO.print usageText
    return 0
  | .version => do
    IO.println "calcsyntax 0.1.0"
    return 0
  | _ => do
    IO.eprint usageText
    return 2

end CalcSyntax

/-- Runs the analyzer on the words of the command line. -/
def main (words : List String) : IO UInt32 := do
  match CalcSyntax.Options.ofWords words with
  | .error stop => CalcSyntax.declineWith stop
  | .ok options =>
    let status ← options.run (CalcSyntax.processHost options.debug)
    return status.code.toUInt32
