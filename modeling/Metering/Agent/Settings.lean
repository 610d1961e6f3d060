import Metering.Agent.Dispatch
import Metering.Failure.Basic

/-!
What an operator sets for an agent.

The server is named by a host and a port, or by an address that begins with `http://`. Requests
go to `serverUrl`; the place that a route is looked up for is `hostPort`.
-/
namespace Metering

/-- The settings of an agent. Times are in milliseconds. -/
structure AgentSettings where
  address : String
  pollInterval : Nat
  reportInterval : Nat
  plan : DispatchPlan
  signingKey : Option String
  keyFile : Option String
deriving DecidableEq

namespace AgentSettings

/-- The settings that hold where nothing is set. -/
def standard : AgentSettings where
  address := "localhost:8080"
  pollInterval := 2000
  reportInterval := 10000
  plan := .standard
  signingKey := none
  keyFile := none

/-- What stands between a scheme and the rest of an address. -/
def schemeMark : List Char := "://".toList

/-- The only scheme that is spoken. -/
def scheme : String := "http"

/-- The characters before the first scheme mark, if there is one. -/
def schemeOf? : List Char → Option (List Char)
  | [] => none
  | c :: cs =>
    if schemeMark.isPrefixOf (c :: cs) then some []
    else (schemeOf? cs).map (c :: ·)

/-- Refuses an address with another scheme. -/
def validate (s : AgentSettings) : Except Failure Unit :=
  match schemeOf? s.address.toList with
  | none => .ok ()
  | some name =>
    if String.ofList name = scheme then .ok ()
    else .error ⟨.transport, .scheme (String.ofList name) s.address⟩

/-- The beginning of an address with its scheme. -/
def lead : List Char := "http://".toList

/-- A text without the slashes at its end. -/
def withoutSlashes (cs : List Char) : List Char := (cs.reverse.dropWhile (· == '/')).reverse

/-- A text without any number of leads at its head. -/
def withoutLeads : List Char → List Char
  | 'h' :: 't' :: 't' :: 'p' :: ':' :: '/' :: '/' :: rest => withoutLeads rest
  | cs => cs

/-- The address that requests start with; it does not end in a slash. -/
def serverUrl (s : AgentSettings) : String :=
  let address := withoutSlashes s.address.toList
  String.ofList (if lead.isPrefixOf address then address else lead ++ address)

/-- The host and the port of the address. -/
def hostPort (s : AgentSettings) : String :=
  String.ofList ((withoutLeads s.address.toList).takeWhile (· != '/'))

end AgentSettings
end Metering
