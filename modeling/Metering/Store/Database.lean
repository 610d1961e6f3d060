import Metering.Store.Fault

/-!
Faults of a database server, sorted into those of a store.

A lost connection is transient, whether the server reports it by a state code of class 08 or the
client notices it. A number out of range is a counter overflow. Everything else is fatal.
-/
namespace Metering

/-- What a database client reports. -/
inductive DatabaseFault
  | server (code : Option String) (text : String)
  | io (text : String)
  | poolTimedOut
  | poolClosed
  | rowNotFound
  | workerCrashed
  | protocol (text : String)
  | columnNotFound (name : String)
deriving DecidableEq, Repr

namespace DatabaseFault

/-- The wording of each fault. -/
def message : DatabaseFault → String
  | server _ text => s!"error returned from database: {text}"
  | io text => s!"error communicating with database: {text}"
  | poolTimedOut => "pool timed out while waiting for an open connection"
  | poolClosed => "attempted to acquire a connection on a closed pool"
  | rowNotFound =>
    "no rows returned by a query that expected to return at least one row"
  | workerCrashed => "attempted to communicate with a crashed background worker"
  | protocol text => s!"encountered unexpected or invalid data: {text}"
  | columnNotFound name => s!"no column found for name: {name}"

/-- The state codes of a lost or refused connection. -/
def connectionCodes : List String :=
  ["08000", "08003", "08006", "08001", "08004", "08007", "08P01"]

/-- Whether a state code tells of a connection that may come back. -/
def isTransientCode (code : String) : Bool := connectionCodes.contains code

/-- The kind of fault that a store reports. -/
def kind : DatabaseFault → StoreFaultKind
  | server (some code) _ =>
    if isTransientCode code then .transient
    else if code = "22003" then .counterOverflow
    else .fatal
  | io _ | poolTimedOut => .transient
  | _ => .fatal

/-- The fault that a store reports. -/
def toStoreFault (f : DatabaseFault) : StoreFault := ⟨f.kind, .stated f.message⟩

end DatabaseFault
end Metering
