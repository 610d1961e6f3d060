import Metering.Metric.Basic
import Metering.Store.Table

/-!
What an agent has measured.

The collector keeps the latest reading of every gauge and the number of polls since the last
snapshot. A snapshot lists the gauges by id and then the polls as one counter, and starts the
count again; it changes no gauge.
-/
namespace Metering

/-- The readings of one pass of a sampler, in the order in which they were taken. -/
abbrev Readings := List (String × Binary64)

/-- The latest readings, and the polls since the last snapshot. -/
structure Collector where
  gauges : Table Binary64
  polls : Int64
deriving DecidableEq

/-- What is handed over for delivery. -/
structure Snapshot where
  metrics : List Update
deriving DecidableEq, Repr

/-- The id of the counter of polls. -/
def pollCountId : String := "PollCount"

namespace Collector

/-- A collector that has measured nothing. -/
def empty : Collector := ⟨.empty, 0⟩

/-- One poll more; the greatest count stays. -/
def countUp (polls : Int64) : Int64 := (Counter.add? polls 1).getD polls

/-- Puts readings in, later ones over earlier ones, and counts a poll if told to. -/
def record (c : Collector) (readings : Readings) (isPoll : Bool) : Collector where
  gauges := readings.foldl (fun t r => t.put r.1 r.2) c.gauges
  polls := if isPoll then countUp c.polls else c.polls

/-- The gauges by id and the count of polls, which is never shown below zero. -/
def listing (c : Collector) : List Update :=
  c.gauges.entries.map (fun e => ⟨e.1, .gauge e.2⟩) ++
    [⟨pollCountId, .counter (if c.polls < 0 then 0 else c.polls)⟩]

/-- Takes a snapshot; the count starts again. -/
def snapshot (c : Collector) : Snapshot × Collector := (⟨c.listing⟩, { c with polls := 0 })

/-- The latest reading of a gauge. -/
def gauge? (c : Collector) (id : String) : Option Binary64 := c.gauges.get? id

theorem polls_record (c : Collector) (readings : Readings) (isPoll : Bool) :
    (c.record readings isPoll).polls = if isPoll then countUp c.polls else c.polls := rfl

end Collector

namespace Snapshot

/-- The count in the first entry of that id, if that entry is a counter. -/
def pollCount (s : Snapshot) : Int64 :=
  match s.metrics.find? fun u => u.id == pollCountId with
  | some ⟨_, .counter d⟩ => d
  | _ => 0

end Snapshot
end Metering
