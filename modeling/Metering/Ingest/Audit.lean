import Metering.Json.Reader
import Metering.Json.Shape

/-!
The audit trail: one event for each write, delivered to every listener.

An event names the metrics that were written, in the order of the request and with repetitions,
and the caller's address. Every listener has an inbox of its own, and an event goes to the end of
each of them.
-/
namespace Metering

/-- What a write did, and for whom. The time is in seconds. -/
structure AuditEvent where
  time : Int64
  metrics : List String
  source : String
deriving DecidableEq, Repr

/-- The events that each listener has received, oldest first. -/
abbrev Inboxes := List (List AuditEvent)

namespace Inboxes

/-- `count` listeners that have received nothing. -/
def empty (count : Nat) : Inboxes := List.replicate count []

/-- Delivers an event to every listener. -/
def publish (inboxes : Inboxes) (event : AuditEvent) : Inboxes := inboxes.map (· ++ [event])

end Inboxes

namespace AuditEvent

def toJson (e : AuditEvent) : Json :=
  .object [("ts", .int e.time.toInt), ("metrics", .list (e.metrics.map .text)),
    ("ip_address", .text e.source)]

def encode (e : AuditEvent) : Bytes := e.toJson.write

/-- What of an event has been read so far. -/
structure Draft where
  time : Option Int64
  metrics : Option (List String)
  source : Option String

namespace Draft

def blank : Draft := ⟨none, none, none⟩

/-- The event of a draft, or the name of the first field that it lacks. -/
def build (d : Draft) : Except String AuditEvent :=
  match d.time, d.metrics, d.source with
  | none, _, _ => .error "ts"
  | _, none, _ => .error "metrics"
  | _, _, none => .error "ip_address"
  | some time, some metrics, some source => .ok ⟨time, metrics, source⟩

end Draft

open JsonReader in
/-- How an event is read. -/
def shape : RecordShape Draft AuditEvent where
  name := "AuditEvent"
  fields :=
    [⟨"ts", fun d => d.time.isSome, fun d => do
        return { d with time := some (← numberOf "i64" Json.acceptInt64) }⟩,
     ⟨"metrics", fun d => d.metrics.isSome, fun d => do
        return { d with metrics := some (← list text) }⟩,
     ⟨"ip_address", fun d => d.source.isSome, fun d => do
        return { d with source := some (← text) }⟩]
  least := 3
  blank := Draft.blank
  build := Draft.build

/-- The event that a text holds. -/
def decode (text : Bytes) : Except JsonFault AuditEvent :=
  JsonReader.run (JsonReader.record shape) text

end AuditEvent
end Metering
