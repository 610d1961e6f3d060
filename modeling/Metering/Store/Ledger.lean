import Metering.Metric.Record
import Metering.Store.Fault
import Metering.Store.Table

/-!
The ledger: what is known of every metric.

A gauge is replaced by its latest reading and a counter is the sum of its differences. A sum that
leaves the range of counters is refused and changes nothing. A batch is applied as a whole: all
its counters are added up before anything is written (`stage`).
-/
namespace Metering

/-- The readings of the gauges and the totals of the counters. -/
structure Ledger where
  gauges : Table Binary64
  counters : Table Int64
deriving DecidableEq

namespace Ledger

/-- The ledger that knows no metric. -/
def empty : Ledger := ⟨.empty, .empty⟩

instance : Inhabited Ledger := ⟨empty⟩

/-- Replaces a gauge. -/
def setGauge (l : Ledger) (id : String) (reading : Binary64) : Ledger :=
  { l with gauges := l.gauges.put id reading }

/-- The total of a counter after a difference; a counter that is not known stands at zero. -/
def total (counters : Table Int64) (id : String) (delta : Int64) : Except StoreFault Int64 :=
  let current := (counters.get? id).getD 0
  match Counter.add? current delta with
  | some sum => .ok sum
  | none => .error (.overflow id current delta)

/-- Adds to a counter. -/
def addCounter (l : Ledger) (id : String) (delta : Int64) : Except StoreFault Ledger := do
  let sum ← total l.counters id delta
  return { l with counters := l.counters.put id sum }

/-- One update. -/
def apply (l : Ledger) (u : Update) : Except StoreFault Ledger :=
  match u.value with
  | .gauge x => .ok (l.setGauge u.id x)
  | .counter d => l.addCounter u.id d

/-- The counters of a batch added up in order. -/
def stage (counters : Table Int64) : List Update → Except StoreFault (Table Int64)
  | [] => .ok counters
  | u :: us =>
    match u.value with
    | .gauge _ => stage counters us
    | .counter d =>
      match total counters u.id d with
      | .ok sum => stage (counters.put u.id sum) us
      | .error e => .error e

/-- The gauges of a batch put in order. -/
def putGauges (gauges : Table Binary64) : List Update → Table Binary64
  | [] => gauges
  | u :: us =>
    match u.value with
    | .gauge x => putGauges (gauges.put u.id x) us
    | .counter _ => putGauges gauges us

/-- A whole batch, or nothing of it. -/
def applyAll (l : Ledger) (us : List Update) : Except StoreFault Ledger :=
  match stage l.counters us with
  | .ok counters => .ok ⟨putGauges l.gauges us, counters⟩
  | .error e => .error e

/-- The value of a metric. -/
def get? (l : Ledger) (kind : Kind) (id : String) : Option Value :=
  match kind with
  | .gauge => (l.gauges.get? id).map .gauge
  | .counter => (l.counters.get? id).map .counter

/-- The records of gauges and then of counters, each by increasing id. -/
def records (gauges : List (String × Binary64)) (counters : List (String × Int64)) :
    List Metric :=
  gauges.map (fun e => Metric.ofUpdate ⟨e.1, .gauge e.2⟩) ++
    counters.map (fun e => Metric.ofUpdate ⟨e.1, .counter e.2⟩)

/-- Every metric as a record. -/
def toRecords (l : Ledger) : List Metric := records l.gauges.entries l.counters.entries

end Ledger
end Metering
