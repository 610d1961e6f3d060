import Metering.Agent.Settings
import Metering.Command.Line
import Metering.Server.Settings

/-!
The commands of the program, and the settings that their options spell.

Options that are given but empty count as not given where they name a key, a database or a
network. Intervals are given in seconds.
-/
namespace Metering

/-- Why options spell no settings. -/
inductive SettingsFault
  | network (text : String) (f : Failure)
  | noInterval
  | serverAddress (f : Failure)
deriving DecidableEq, Repr

/-- What a command line asks for. -/
inductive Task
  | serve (s : ServerSettings)
  | collect (s : AgentSettings)

/-- What becomes of a command line. -/
inductive Invocation
  | task (t : Task)
  | exit (e : EarlyExit)
  | refused (f : SettingsFault)

namespace SettingsFault

def message : SettingsFault → String
  | network text f => s!"invalid trusted subnet '{text}': {f.message}"
  | noInterval => "poll and report intervals must be at least 1 second"
  | serverAddress f => s!"invalid server address: {f.message}"

end SettingsFault

namespace Command

/-- The command that starts a server. -/
def server : Command where
  name := "server"
  help := "start the ingestion server"
  options :=
    [⟨some 'a', "address", .text, "address for the HTTP listener"⟩,
     ⟨some 'i', "store-interval", .number,
      "seconds between snapshot file saves; 0 saves after every update"⟩,
     ⟨some 'f', "file-storage-path", .text, "snapshot file path; empty disables the file"⟩,
     ⟨some 'r', "restore", .truth, "load the snapshot file at startup"⟩,
     ⟨some 'd', "database-dsn", .text,
      "postgres connection string; replaces the in-memory store"⟩,
     ⟨some 'k', "key", .text, "key for HashSHA256 verification and response signing"⟩,
     ⟨none, "crypto-key", .text, "path to the PEM private key for X-Encrypted bodies"⟩,
     ⟨some 't', "trusted-subnet", .text,
      "subnet in CIDR form that X-Real-IP must fall in for updates"⟩,
     ⟨none, "rpc-address", .text, "address for the RPC listener"⟩]

/-- The command that starts an agent. -/
def agent : Command where
  name := "agent"
  help := "start the collection agent"
  options :=
    [⟨some 'a', "address", .text, "server address, host:port or http:// URL"⟩,
     ⟨some 'r', "report-interval", .number, "seconds between reports"⟩,
     ⟨some 'p', "poll-interval", .number, "seconds between samples"⟩,
     ⟨some 'k', "key", .text, "key for HashSHA256 request signing"⟩,
     ⟨some 'l', "rate-limit", .number,
      "concurrent outgoing requests; 1 sends one batch per report"⟩,
     ⟨none, "crypto-key", .text, "path to the PEM public key; encrypts every payload"⟩]

/-- The program. -/
def program : Program where
  name := "tally"
  help := "Tally - metrics collection and ingestion"
  commands := [server, agent]

/-- An option that counts only if it is not empty. -/
def filled? (vs : OptionValues) (name : String) : Option String :=
  (vs.text? name).filter (· != "")

/-- Seconds in milliseconds. -/
def seconds (n : Nat) : Nat := 1000 * n

end Command

namespace ServerSettings

/-- The network that an option names. -/
def readNetwork (text : String) : Except SettingsFault Network :=
  (Network.parse text).mapError (.network text)

/-- The settings that options spell. -/
def ofOptions (vs : OptionValues) : Except SettingsFault ServerSettings := do
  let path := Text.trim ((vs.text? "file-storage-path").getD (standard.file.getD ""))
  let network ← (Command.filled? vs "trusted-subnet").mapM readNetwork
  return {
    address := (vs.text? "address").getD standard.address
    callAddress := vs.text? "rpc-address"
    saveInterval := Command.seconds (vs.number "store-interval" 300)
    file := if path = "" then none else some path
    restores := vs.truth "restore" standard.restores
    database := Command.filled? vs "database-dsn"
    signingKey := Command.filled? vs "key"
    keyFile := vs.text? "crypto-key"
    network := network
    drainLimit := standard.drainLimit }

end ServerSettings

namespace AgentSettings

/-- The settings that options spell. -/
def ofOptions (vs : OptionValues) : Except SettingsFault AgentSettings := do
  let poll := vs.number "poll-interval" 2
  let report := vs.number "report-interval" 10
  if poll = 0 ∨ report = 0 then throw .noInterval
  let s : AgentSettings := {
    address := (vs.text? "address").getD standard.address
    pollInterval := Command.seconds poll
    reportInterval := Command.seconds report
    plan := ⟨vs.number "rate-limit" 1, .standard⟩
    signingKey := Command.filled? vs "key"
    keyFile := vs.text? "crypto-key" }
  s.validate.mapError .serverAddress
  return s

end AgentSettings

namespace Invocation

/-- What a command and its options ask for. -/
def ofCommand (c : Command) (vs : OptionValues) : Except SettingsFault Task :=
  if c = Command.server then (ServerSettings.ofOptions vs).map .serve
  else (AgentSettings.ofOptions vs).map .collect

/-- What becomes of the arguments of the program. -/
def ofArguments (arguments : List String) : Invocation :=
  match Command.program.read arguments with
  | .error e => .exit e
  | .ok (c, vs) =>
    match ofCommand c vs with
    | .ok t => .task t
    | .error f => .refused f

end Invocation
end Metering
