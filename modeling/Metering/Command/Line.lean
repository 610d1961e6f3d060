import Metering.Command.Usage

/-!
Reading a command line.

An argument that begins with a dash is an option with its value behind it, and each option is
given at most once. Asking for help counts only if nothing but more words follow that could be a
command; a command that is named after it answers instead. Behind two dashes nothing is an option
any more.
-/
namespace Metering

/-- Why reading a command line ends without a command to carry out. -/
inductive EarlyExit
  | help (text : String)
  | mistake (text : String)
deriving DecidableEq, Repr

/-- The values given to options, by their names. -/
abbrev OptionValues := List (String × OptionValue)

/-- A program of several commands. -/
structure Program where
  name : String
  help : String
  commands : List Command
deriving DecidableEq, Repr

namespace OptionValues

/-- The value of an option. -/
def get? (vs : OptionValues) (name : String) : Option OptionValue := vs.lookup name

/-- The text of an option. -/
def text? (vs : OptionValues) (name : String) : Option String :=
  match get? vs name with
  | some (.text s) => some s
  | _ => none

/-- The number of an option, if it is given. -/
def number (vs : OptionValues) (name : String) (otherwise : Nat) : Nat :=
  match get? vs name with
  | some (.number n) => n
  | _ => otherwise

/-- The truth value of an option, if it is given. -/
def truth (vs : OptionValues) (name : String) (otherwise : Bool) : Bool :=
  match get? vs name with
  | some (.truth b) => b
  | _ => otherwise

end OptionValues

namespace CommandLine

/-- What is said of an argument that stands for nothing. -/
def unrecognized (argument : String) : EarlyExit := .mistake s!"Unrecognized argument: {argument}\n"

/-- What is said of an option without a value. -/
def noValue (argument : String) : EarlyExit :=
  .mistake s!"No value provided for option '{argument}'.\n"

/-- What is said of a value that cannot be taken. -/
def badValue (argument value reason : String) : EarlyExit :=
  .mistake s!"Error parsing option '{argument}' with value '{value}': {reason}\n"

/-- Why a second value is not taken. -/
def duplicateReason : String := "duplicate values provided"

/-- What is said of options behind a call for help. -/
def trailing : EarlyExit := .mistake "Trailing arguments are not allowed after `help`."

/-- What ends the options. -/
def endOfOptions : String := "--"

/-- Takes a value for an option. -/
def takeValue (o : CommandOption) (argument value : String) (vs : OptionValues) :
    Except EarlyExit OptionValues :=
  if (OptionValues.get? vs o.name).isSome then .error (badValue argument value duplicateReason)
  else match o.form.read value with
    | .ok v => .ok (vs ++ [(o.name, v)])
    | .error reason => .error (badValue argument value reason)

/-- Reads the arguments of a command. `wantsHelp` tells whether help has been asked for, and
`isOpen` whether options may still come. -/
def readOptions (options : List CommandOption) (wantsHelp isOpen : Bool) (vs : OptionValues) :
    List String → Except EarlyExit (Bool × OptionValues)
  | [] => .ok (wantsHelp, vs)
  | a :: rest =>
    if isOpen && Usage.helpSpellings.contains a then readOptions options true isOpen vs rest
    else if isOpen && a == endOfOptions then readOptions options wantsHelp false vs rest
    else if isOpen && a.startsWith "-" then
      if wantsHelp then .error trailing
      else match options.find? fun o => o.isSpelled a with
        | none => .error (unrecognized a)
        | some o =>
          match rest with
          | [] => .error (noValue a)
          | value :: rest =>
            match takeValue o a value vs with
            | .ok vs => readOptions options wantsHelp isOpen vs rest
            | .error e => .error e
    else .error (unrecognized a)

/-- Reads the arguments of a command that has been named. -/
def readCommand (call : String) (c : Command) (wantsHelp : Bool) (arguments : List String) :
    Except EarlyExit OptionValues :=
  match readOptions c.options wantsHelp true [] arguments with
  | .error e => .error e
  | .ok (true, _) => .error (.help (Usage.ofCommand call c))
  | .ok (false, vs) => .ok vs

/-- Reads a command line up to the name of a command, and then the arguments of that command. -/
def readProgram (p : Program) (wantsHelp isOpen : Bool) :
    List String → Except EarlyExit (Command × OptionValues)
  | [] =>
    if wantsHelp then .error (.help (Usage.ofProgram p.name p.help p.commands))
    else .error (.mistake (Usage.noCommand p.commands))
  | a :: rest =>
    if isOpen && Usage.helpSpellings.contains a then readProgram p true isOpen rest
    else if isOpen && a == endOfOptions then readProgram p wantsHelp false rest
    else if isOpen && a.startsWith "-" then
      .error (if wantsHelp then trailing else unrecognized a)
    else match p.commands.find? fun c => c.name == a with
      | some c => (readCommand s!"{p.name} {c.name}" c wantsHelp rest).map (c, ·)
      | none => .error (unrecognized a)

end CommandLine

/-- Reads a command line. -/
def Program.read (p : Program) (arguments : List String) :
    Except EarlyExit (Command × OptionValues) :=
  CommandLine.readProgram p false true arguments

end Metering
