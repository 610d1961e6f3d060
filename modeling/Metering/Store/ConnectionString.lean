import Metering.Net.Listener
import Metering.Http.Percent
import Metering.Text.Quoted

/-!
Where a database is, as it is written in the settings.

A connection string is a scheme and a colon. Two slashes lead in an authority: a user with an
optional password before an at sign, a host, and a port. A query at the end may name options. A
host in square brackets is an address of version 6; any other host is free of delimiters.
-/
namespace Metering

/-- Why a text is no connection string. -/
inductive ConnectionStringFault
  | noScheme
  | emptyHost
  | badPort
  | badAddress
  | badHostCharacter
  | unknownEncryption (value : String)
  | badNumber (fault : UnsignedFault)
  | badHostAddress
deriving DecidableEq, Repr

namespace ConnectionStringFault

def message : ConnectionStringFault → String
  | noScheme => "relative URL without a base"
  | emptyHost => "empty host"
  | badPort => "invalid port number"
  | badAddress => "invalid IPv6 address"
  | badHostCharacter => "invalid domain character"
  | unknownEncryption value =>
    s!"error with configuration: unknown value {Text.quoted value} for `ssl_mode`"
  | badNumber fault => fault.message
  | badHostAddress => "invalid IP address syntax"

end ConnectionStringFault

namespace ConnectionString

/-- Whether a character is skipped wherever it stands. -/
def isSkipped (c : Char) : Bool := c == '\t' || c == '\n' || c == '\r'

/-- Whether a character at an end of the text does not count. -/
def isPadding (c : Char) : Bool := c.toNat ≤ 0x20

/-- The characters of a text that count. -/
def relevant (s : String) : List Char :=
  (((s.toList.dropWhile isPadding).reverse.dropWhile isPadding).reverse).filter (!isSkipped ·)

/-- Whether a character can stand in a scheme behind its first letter. -/
def isSchemeChar (c : Char) : Bool := c.isAlphanum || c == '+' || c == '-' || c == '.'

/-- Splits the scheme and its colon off. -/
def splitScheme? (cs : List Char) : Option (String × List Char) :=
  let name := cs.takeWhile isSchemeChar
  match name, cs.drop name.length with
  | c :: _, ':' :: rest =>
    if c.isAlpha then some (Text.lower (String.ofList name), rest) else none
  | _, _ => none

/-- The schemes whose addresses always have a host. -/
def hostedSchemes : List String := ["http", "https", "ws", "wss", "ftp"]

/-- Whether a character ends an authority. -/
def endsAuthority (c : Char) : Bool := c == '/' || c == '?' || c == '#'

/-- Whether a character cannot stand in a host. -/
def isForbiddenInHost (c : Char) : Bool :=
  c.toNat == 0 || [' ', '#', '/', ':', '<', '>', '?', '@', '[', '\\', ']', '^', '|'].contains c

/-- The characters of a host: up to the first colon that is not in square brackets. -/
def takeHost : Bool → List Char → List Char
  | _, [] => []
  | inside, c :: cs =>
    if c = ':' ∧ !inside then []
    else c :: takeHost (if c = '[' then true else if c = ']' then false else inside) cs

/-- Checks a host. -/
def checkHost (host : List Char) : Except ConnectionStringFault Unit :=
  match host with
  | '[' :: rest =>
    if rest.getLast? ≠ some ']' then .error .badAddress
    else match IpAddress.whole (IpAddress.scanV6 IpAddress.strict) rest.dropLast with
      | some _ => .ok ()
      | none => .error .badAddress
  | _ => if host.any isForbiddenInHost then .error .badHostCharacter else .ok ()

/-- Checks what stands behind a host: nothing, or a colon and a port. -/
def checkPort (host rest : List Char) : Except ConnectionStringFault Unit :=
  match rest with
  | [] => .ok ()
  | _ :: digits =>
    if host = [] then .error .emptyHost
    else if digits.all Char.isDigit && decide (Digits.ofDigits digits < Listener.portLimit) then .ok ()
    else .error .badPort

/-- The part of an authority behind its last at sign, and whether there is one. -/
def splitUser (authority : List Char) : List Char × Bool :=
  let host := (authority.reverse.takeWhile (· != '@')).reverse
  (host, host.length != authority.length)

/-- Checks an authority. -/
def checkAuthority (scheme : String) (authority : List Char) : Except ConnectionStringFault Unit := do
  let (behind, hasUser) := splitUser authority
  let host := takeHost false behind
  if host = [] && (hostedSchemes.contains scheme || hasUser) then throw .emptyHost
  checkHost host
  checkPort host (behind.drop host.length)

/-- Checks a number below a limit. -/
def checkNumber (limit : Nat) (s : String) : Except ConnectionStringFault Unit :=
  match Unsigned.read limit s with
  | .ok _ => .ok ()
  | .error e => .error (.badNumber e)

/-- The ways in which a connection may be encrypted. -/
def encryptions : List String :=
  ["disable", "allow", "prefer", "require", "verify-ca", "verify-full"]

/-- Checks an option. -/
def checkOption (name value : String) : Except ConnectionStringFault Unit :=
  match name with
  | "sslmode" | "ssl-mode" =>
    if encryptions.contains (Text.lower value) then .ok () else .error (.unknownEncryption value)
  | "statement-cache-capacity" => checkNumber 0x10000000000000000 value
  | "port" => checkNumber Listener.portLimit value
  | "hostaddr" => if (IpAddress.ofText? value).isSome then .ok () else .error .badHostAddress
  | _ => .ok ()

/-- The text that a part of a query stands for. -/
def queryText (cs : List Char) : String :=
  let bytes := Percent.decode (Bytes.ofText (String.ofList (cs.map fun c => if c = '+' then ' ' else c)))
  (Bytes.toText? bytes).getD ""

/-- Checks the options of a query. -/
def checkQuery (query : List Char) : Except ConnectionStringFault Unit :=
  (Text.splitChars (· == '&') query).forM fun part =>
    let name := part.takeWhile (· != '=')
    checkOption (queryText name) (queryText (part.drop (name.length + 1)))

/-- Checks a connection string. -/
def check (s : String) : Except ConnectionStringFault Unit :=
  match splitScheme? (relevant s) with
  | none => .error .noScheme
  | some (scheme, rest) => do
    let rest := rest.takeWhile (· != '#')
    match rest with
    | '/' :: '/' :: more => checkAuthority scheme (more.takeWhile (!endsAuthority ·))
    | _ => if hostedSchemes.contains scheme && rest.all (· == '/') then throw .emptyHost
    checkQuery (rest.drop ((rest.takeWhile (· != '?')).length + 1))

end ConnectionString
end Metering
