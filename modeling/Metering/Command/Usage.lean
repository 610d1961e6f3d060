import Metering.Command.Option

/-!
What a program says about itself when it is asked for help.

Names stand in one column and descriptions in another. A description is broken between words so
that no line is longer than eighty characters, unless a single word is.
-/
namespace Metering.Usage

/-- Where descriptions start. -/
def column : Nat := 20

/-- The greatest length of a line. -/
def width : Nat := 80

/-- A line filled up to the column of descriptions. -/
def fill (line : List Char) : List Char := line ++ List.replicate (column - line.length) ' '

/-- Puts words behind a line that has begun, and breaks it where the next word does not fit. -/
def wrap (line : List Char) : List (List Char) → List (List Char)
  | [] => [line]
  | w :: ws =>
    if line.length + w.length + 1 ≤ width then wrap (line ++ ' ' :: w) ws
    else line :: wrap (fill [] ++ w) ws

/-- The words of a description. -/
def words (s : String) : List (List Char) := (s.splitOn " ").map String.toList

/-- The lines of a name and its description. A name that reaches into the column of descriptions
has a line of its own. -/
def entry (name help : String) : List String :=
  let head := ' ' :: ' ' :: name.toList
  let (before, line) := if head.length < column then ([], fill head) else ([head], fill [])
  match words help with
  | [] => [String.ofList head]
  | w :: ws => (before ++ wrap (line ++ w) ws).map String.ofList

/-- Lines as one text. -/
def text (lines : List String) : String := String.join (lines.map (· ++ "\n"))

/-- The spellings that ask for help. -/
def helpSpellings : List String := ["--help", "help"]

/-- The entry about help itself. -/
def helpEntry : List String :=
  entry (", ".intercalate helpSpellings) "display usage information"

/-- One option in a summary. -/
def summary (o : CommandOption) : String := s!"[{o.first} <{o.name}>]"

/-- The help of a command, which is called as `call`. -/
def ofCommand (call : String) (c : Command) : String :=
  text <|
    ["Usage: " ++ " ".intercalate (call :: c.options.map summary), "", c.help, "", "Options:"] ++
      c.options.flatMap (fun o => entry o.spellings o.help) ++ helpEntry

/-- The help of a program of several commands. -/
def ofProgram (name help : String) (commands : List Command) : String :=
  text <|
    [s!"Usage: {name} <command> [<args>]", "", help, "", "Options:"] ++ helpEntry ++
      ["", "Commands:"] ++ commands.flatMap fun c => entry c.name c.help

/-- What is said when no command is given. -/
def noCommand (commands : List Command) : String :=
  text <| "One of the following subcommands must be present:" ::
    ("help" :: commands.map Command.name).map ("    " ++ ·)

end Metering.Usage
