import CalcSyntax.CommandLine.Options
import CalcSyntax.Diagnostic.Snippet
import CalcSyntax.Listing

/-!
# Host — running the analyzer on a file

A run needs little of its surroundings: to read a text, to write one, and
to print to two places. `Host` is that much, in any monad, so the same
run serves a real file system and one that is a value.

The order of what is printed is fixed. The output comes first, then a
failure to save it, which ends the run, and the snippets last.
-/

set_option autoImplicit false

namespace CalcSyntax

/-- Why a file cannot be read or written. -/
inductive FileFault where
  | notFound
  | isDirectory
  /-- A part of the path that should be a directory is none. -/
  | notDirectory
  /-- The bytes of the file are not a text. -/
  | notText
  /-- A reason in the words of the system. -/
  | other (reason : String)
deriving DecidableEq

namespace FileFault

/-- The words for a fault. -/
def message : FileFault → String
  | notFound => "No such file or directory (os error 2)"
  | isDirectory => "Is a directory (os error 21)"
  | notDirectory => "Not a directory (os error 20)"
  | notText => "stream did not contain valid UTF-8"
  | other reason => reason

end FileFault

/-- What a run needs of its surroundings. -/
structure Host (m : Type → Type) where
  read : String → m (Except FileFault String)
  write : String → String → m (Except FileFault Unit)
  /-- Prints to the standard output. -/
  print : String → m Unit
  /-- Prints to the standard error. -/
  warn : String → m Unit

/-- How a run ended. -/
inductive Status where
  /-- Nothing was wrong with the program. -/
  | clean
  /-- There were diagnostics. -/
  | diagnosed
  /-- A file could not be read or written. -/
  | failed
deriving DecidableEq

namespace Status

/-- The number a process reports. -/
def code : Status → Nat
  | clean => 0
  | diagnosed => 1
  | failed => 2

end Status

namespace Options

/-- The name of the saved output. -/
def savedName (o : Options) : String := o.input ++ ".out"

/-- The output of a run. -/
def output (o : Options) (source : String) (a : Analysis) : String :=
  let listed := if o.tokens then listing source .calculator ++ "\n" else ""
  listed ++ a.render o.form

end Options

/-- A text whose last line is ended. -/
def withNewline (text : String) : String :=
  if text.toList.getLast? = some '\n' then text else text ++ "\n"

/-- Runs the analyzer on the file that the options name. -/
def Options.run {m : Type → Type} [Monad m] (host : Host m) (o : Options) : m Status := do
  match ← host.read o.input with
  | .error fault =>
    host.warn s!"error: could not read {o.input}: {fault.message}\n"
    return .failed
  | .ok source =>
    let a := analyze source .calculator
    let output := o.output source a
    unless o.quiet do
      host.print (withNewline output)
    if o.write then
      match ← host.write o.savedName output with
      | .error fault =>
        host.warn s!"error: could not write {o.savedName}: {fault.message}\n"
        return .failed
      | .ok () => pure ()
    if a.isClean then return .clean
    host.warn ((snippets? (.ofSource o.input source) a.diagnostics).getD "")
    return .diagnosed

end CalcSyntax
