import CalcSyntax.Rendering

/-!
# Options — the words of a command line

A command line names one input and may ask for a form, a token listing,
silence, a saved copy and debug messages. Options have a long and a short
spelling, short ones may be run together, and `--` ends them.

Words are read from the left. The input and the value of the form option
are put aside when they are met and checked when the next option or input
comes, or at the end; so a value that is bad goes unnoticed if the very
next word is one that no command line may have. A missing value is
noticed before a repeated option, a repeated option before a bad value.
-/

set_option autoImplicit false

namespace CalcSyntax

/-- What a command line asks for. -/
structure Options where
  input : String
  form : Form
  /-- List the tokens first. -/
  tokens : Bool
  /-- Print nothing. -/
  quiet : Bool
  /-- Save the output beside the input. -/
  write : Bool
  /-- Show debug messages. -/
  debug : Bool
deriving DecidableEq

/-- Why a command line does not lead to a run. -/
inductive UsageStop where
  /-- No input is named. -/
  | missingInput
  /-- A word that is no option, or a second input. -/
  | unknownArgument
  /-- A value that is missing, empty, or none of the known ones. -/
  | invalidValue
  /-- An option is given twice. -/
  | repeated
  /-- A value for an option that takes none. -/
  | needlessValue
  /-- The help text is asked for. -/
  | help
  /-- The version is asked for. -/
  | version
deriving DecidableEq

/-- The options that are either given or not. -/
inductive Flag where
  | tokens
  | quiet
  | write
  | debug
deriving DecidableEq

/-- What an option does. -/
inductive Switch where
  | flag (flag : Flag)
  | form
  | help
  | version
deriving DecidableEq

namespace Switch

/-- The options with their short and long spellings. -/
def all : List (Char × String × Switch) :=
  [('e', "emit", form), ('t', "tokens", flag .tokens), ('q', "quiet", flag .quiet),
    ('w', "write", flag .write), ('d', "debug", flag .debug), ('h', "help", help),
    ('V', "version", version)]

/-- The option of a short spelling. -/
def ofShort? (c : Char) : Option Switch := (all.find? fun s => s.1 = c).map fun s => s.2.2

/-- The option of a long spelling, which may not be shortened. -/
def ofLong? (name : String) : Option Switch := (all.find? fun s => s.2.1 = name).map fun s => s.2.2

end Switch

/-- A value that is put aside until the next option or input. -/
inductive Pending where
  | input (word : String)
  /-- The value of the form option, if it has come. -/
  | form (word : Option String)
deriving DecidableEq

/-- What is known of a command line so far. -/
structure Draft where
  input : Option String
  form : Option Form
  flags : List Flag
  pending : Option Pending
deriving DecidableEq

namespace Draft

/-- Nothing is known yet. -/
def start : Draft := ⟨none, none, [], none⟩

/-- Checks the value that was put aside. -/
def settle (d : Draft) : Except UsageStop Draft :=
  match d.pending with
  | none => .ok d
  | some (.input word) =>
    if word.isEmpty then .error .invalidValue
    else .ok { d with input := some word, pending := none }
  | some (.form none) => .error .invalidValue
  | some (.form (some word)) =>
    if d.form.isSome then .error .repeated
    else
      match Form.ofWord? word with
      | none => .error .invalidValue
      | some form => .ok { d with form := some form, pending := none }

/-- Sets a flag. -/
def raise (d : Draft) (flag : Flag) : Except UsageStop Draft := do
  let d ← d.settle
  if flag ∈ d.flags then .error .repeated else .ok { d with flags := flag :: d.flags }

/-- Waits for the value of the form option. -/
def awaitForm (d : Draft) : Except UsageStop Draft := do
  let d ← d.settle
  .ok { d with pending := some (.form none) }

/-- Takes the value that is attached to the form option, and checks it. -/
def giveForm (d : Draft) (word : String) : Except UsageStop Draft := do
  let d ← d.settle
  settle { d with pending := some (.form (some word)) }

/-- Takes a word that is no option: the input, of which there is one. -/
def operand (d : Draft) (word : String) : Except UsageStop Draft :=
  let named := match d.pending with
    | some (.input _) => true
    | _ => d.input.isSome
  if named then .error .unknownArgument
  else do
    let d ← d.settle
    .ok { d with pending := some (.input word) }

/-- Stops for a reason, unless the value that was put aside is bad. -/
def stopFor (d : Draft) (reason : UsageStop) : Except UsageStop Draft := do
  let _ ← d.settle
  .error reason

/-- Takes short options that are run together. What follows the form option
is its value, with or without an equals sign. -/
def shorts (d : Draft) : List Char → Except UsageStop Draft
  | [] => .ok d
  | c :: cs =>
    match Switch.ofShort? c with
    | none => .error .unknownArgument
    | some (.flag flag) => do
      let d ← d.raise flag
      shorts d cs
    | some .help => d.stopFor .help
    | some .version => d.stopFor .version
    | some .form =>
      match cs with
      | [] => d.awaitForm
      | '=' :: value => d.giveForm (String.ofList value)
      | value => d.giveForm (String.ofList value)

/-- Takes a long option, with what follows its equals sign. -/
def long (d : Draft) (name : String) (value : Option String) : Except UsageStop Draft :=
  match Switch.ofLong? name, value with
  | none, _ => .error .unknownArgument
  | some .form, none => d.awaitForm
  | some .form, some word => d.giveForm word
  | some _, some _ => .error .needlessValue
  | some (.flag flag), none => d.raise flag
  | some .help, none => d.stopFor .help
  | some .version, none => d.stopFor .version

/-- Takes a long option without its dashes. -/
def longWord (d : Draft) (cs : List Char) : Except UsageStop Draft :=
  let name := String.ofList (cs.takeWhile (· != '='))
  match cs.dropWhile (· != '=') with
  | [] => d.long name none
  | _ :: value => d.long name (some (String.ofList value))

/-- Takes a word in front of the end of the options. A single dash is no
option. -/
def word (d : Draft) (w : String) : Except UsageStop Draft :=
  match w.toList with
  | '-' :: '-' :: cs => d.longWord cs
  | '-' :: c :: cs => d.shorts (c :: cs)
  | _ =>
    if d.pending = some (.form none) then .ok { d with pending := some (.form (some w)) }
    else d.operand w

/-- Takes words that are no options. -/
def operands (d : Draft) : List String → Except UsageStop Draft
  | [] => .ok d
  | w :: ws => do
    let d ← d.operand w
    operands d ws

/-- Takes the words of a command line. -/
def words (d : Draft) : List String → Except UsageStop Draft
  | [] => .ok d
  | w :: ws =>
    if w = "--" then d.operands ws
    else do
      let d ← d.word w
      words d ws

/-- The options of a settled draft. -/
def finish (d : Draft) : Except UsageStop Options := do
  let d ← d.settle
  match d.input with
  | none => .error .missingInput
  | some input =>
    .ok
      { input
        form := d.form.getD .tree
        tokens := .tokens ∈ d.flags
        quiet := .quiet ∈ d.flags
        write := .write ∈ d.flags
        debug := .debug ∈ d.flags }

end Draft

/-- Reads a command line, the program's own name left out. -/
def Options.ofWords (ws : List String) : Except UsageStop Options := do
  let d ← Draft.start.words ws
  d.finish

end CalcSyntax
