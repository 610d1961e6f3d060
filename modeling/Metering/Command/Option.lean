import Metering.Number.Unsigned

/-!
Options of a command, and what their values look like.
-/
namespace Metering

/-- What the value of an option looks like. -/
inductive OptionForm
  | text
  | number
  | truth
deriving DecidableEq, Repr

/-- The value of an option. -/
inductive OptionValue
  | text (s : String)
  | number (n : Nat)
  | truth (b : Bool)
deriving DecidableEq, Repr

/-- An option with one value. -/
structure CommandOption where
  letter : Option Char
  name : String
  form : OptionForm
  help : String
deriving DecidableEq, Repr

/-- A command with its options. -/
structure Command where
  name : String
  help : String
  options : List CommandOption
deriving DecidableEq, Repr

namespace CommandOption

/-- The long spelling of an option. -/
def long (o : CommandOption) : String := "--" ++ o.name

/-- The short spelling of an option, if it has one. -/
def short? (o : CommandOption) : Option String := o.letter.map fun c => String.ofList ['-', c]

/-- The spelling that comes first. -/
def first (o : CommandOption) : String := o.short?.getD o.long

/-- Every spelling, separated by a comma. -/
def spellings (o : CommandOption) : String :=
  match o.short? with
  | some s => s!"{s}, {o.long}"
  | none => o.long

/-- Whether an argument spells the option. -/
def isSpelled (o : CommandOption) (argument : String) : Bool :=
  argument == o.long || o.short? == some argument

end CommandOption

namespace OptionForm

/-- Numbers are below this. -/
def numberLimit : Nat := 0x10000000000000000

/-- What is said of a text that is no truth value. -/
def truthReason : String := "provided string was not `true` or `false`"

/-- The value that a text spells, or what is said of it. -/
def read (form : OptionForm) (s : String) : Except String OptionValue :=
  match form with
  | text => .ok (.text s)
  | number => ((Unsigned.read numberLimit s).map OptionValue.number).mapError UnsignedFault.message
  | truth =>
    if s = "true" then .ok (.truth true)
    else if s = "false" then .ok (.truth false)
    else .error truthReason

end OptionForm
end Metering
