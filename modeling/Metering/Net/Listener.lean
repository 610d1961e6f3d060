import Metering.Net.Address
import Metering.Text.Blank
import Metering.Number.Unsigned
import Metering.Failure.Basic

/-!
Places to listen at.

A place is given as an address and a port, or as the name of a host and a port behind the last
colon. Only addresses of this machine can be listened at, and the only name that is known without
asking anyone is that of this machine.
-/
namespace Metering

/-- Why nobody can listen at a place. -/
inductive ListenFault
  | noPort
  | badPort
  | unknownHost
  | foreignAddress
deriving DecidableEq, Repr

namespace ListenFault

def message : ListenFault → String
  | noPort => "invalid socket address"
  | badPort => "invalid port value"
  | unknownHost => "failed to lookup address information: Temporary failure in name resolution"
  | foreignAddress => "Cannot assign requested address (os error 99)"

end ListenFault

namespace Listener

/-- The name of this machine. -/
def ownName : String := "localhost"

/-- Whether an address belongs to this machine or stands for all of its addresses. -/
def isOwn : IpAddress → Bool
  | .v4 bits => bits == 0 || bits >>> 24 == 127
  | .v6 bits => bits == 0 || bits == 1

/-- The parts of a text before and behind its last colon. -/
def splitPort (s : String) : Option (String × String) :=
  let port := (s.toList.reverse.takeWhile (· != ':')).reverse
  if port.length = s.toList.length then none
  else some (String.ofList (s.toList.take (s.toList.length - port.length - 1)), String.ofList port)

/-- The ports are below this. -/
def portLimit : Nat := 65536

/-- Whether someone can listen at a place. -/
def check (place : String) : Except ListenFault Unit :=
  match SocketAddress.ofText? place with
  | some a => if isOwn a.address then .ok () else .error .foreignAddress
  | none =>
    match splitPort place with
    | none => .error .noPort
    | some (host, port) =>
      match Unsigned.read? portLimit port with
      | none => .error .badPort
      | some _ => if host = ownName then .ok () else .error .unknownHost

/-- Starts to listen at a place. -/
def bind (place : String) : Except Failure Unit :=
  (check place).mapError fun e => ⟨.connection, .bind place e.message⟩

end Listener
end Metering
