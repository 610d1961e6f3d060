import Metering.Command.Settings

/-!
The command line.

Help and mistakes are answered, and settings that cannot be used are refused. What is asked for
otherwise is stated setting by setting; carrying it out takes a network, which is not part of this
library.
-/
namespace Metering

/-- A setting and its value, on one line. -/
def settingLine (name value : String) : String := s!"{name}: {value}"

/-- A setting that may be left out. -/
def optionLine (name : String) (value : Option String) : String :=
  settingLine name (value.getD "(not set)")

/-- Milliseconds as seconds. -/
def secondsText (milliseconds : Nat) : String := s!"{milliseconds / 1000} s"

namespace Task

/-- The settings of a task, one on each line. -/
def lines : Task → List String
  | serve s =>
    [settingLine "address" s.address, optionLine "rpc-address" s.callAddress,
     settingLine "store-interval" (secondsText s.saveInterval),
     optionLine "file-storage-path" s.file, settingLine "restore" (toString s.restores),
     settingLine "database-dsn" (if s.database.isSome then "(set)" else "(not set)"),
     settingLine "key" (if s.signingKey.isSome then "(set)" else "(not set)"),
     optionLine "crypto-key" s.keyFile, optionLine "trusted-subnet" (s.network.map Network.text)]
  | collect s =>
    [settingLine "address" s.serverUrl, settingLine "report-interval" (secondsText s.reportInterval),
     settingLine "poll-interval" (secondsText s.pollInterval),
     settingLine "key" (if s.signingKey.isSome then "(set)" else "(not set)"),
     settingLine "rate-limit" (toString s.plan.width), optionLine "crypto-key" s.keyFile]

end Task
end Metering

open Metering in
def main (arguments : List String) : IO UInt32 := do
  match Invocation.ofArguments arguments with
  | .exit (.help text) =>
    IO.print text
    return 0
  | .exit (.mistake text) =>
    IO.eprint text
    return 1
  | .refused f =>
    IO.eprintln s!"Error: {f.message}"
    return 1
  | .task t =>
    for line in t.lines do
      IO.println line
    return 0
