import Metering.Agent.Collector

/-!
Sources of readings.

A sampler is asked for readings in passes. A pass can break down; a sampler that has broken down
is not asked again. Only the passes of some samplers count as polls.

The agent has two samplers of its own: one looks at the process, the other at the machine. Which
gauges they report is stated here, and not what they measure.
-/
namespace Metering

/-- What one pass gives: readings, or nothing because it broke down. -/
abbrev Pass := Option Readings

/-- A sampler with its passes to come; the last one repeats. -/
structure Sampler where
  countsPolls : Bool
  passes : List Pass
deriving DecidableEq

namespace Sampler

/-- The next pass, and the sampler after it. -/
def next (s : Sampler) : Pass × Sampler :=
  match s.passes with
  | [] => (some [], s)
  | [p] => (p, s)
  | p :: more => (p, { s with passes := more })

end Sampler

namespace Collector

/-- One pass of a sampler; without a result where it breaks down. -/
def poll (c : Collector) (s : Sampler) : Option Collector × Sampler :=
  let (pass, s) := s.next
  (pass.map fun readings => c.record readings s.countsPolls, s)

end Collector

/-- The samplers of an agent. -/
inductive OwnSampler
  | process
  | machine
deriving DecidableEq, Repr

namespace OwnSampler

def name : OwnSampler → String
  | process => "runtime"
  | machine => "host"

/-- Whether its passes count as polls. -/
def countsPolls : OwnSampler → Bool
  | process => true
  | machine => false

/-- The gauges that tell of the process. -/
def processGauges : List String :=
  ["ProcessResidentMemory", "ProcessVirtualMemory", "ProcessCpuUsage", "ProcessRunTime",
   "ProcessDiskRead", "ProcessDiskWritten", "ProcessTotalDiskRead", "ProcessTotalDiskWritten"]

/-- The gauges that tell of the scheduler, which can be asked only by one of its tasks. -/
def schedulerGauges : List String := ["RuntimeWorkers", "RuntimeAliveTasks"]

/-- The gauge of a random number from zero to below one. -/
def randomGauge : String := "RandomValue"

/-- The gauges of the memory. -/
def memoryGauges : List String := ["TotalMemory", "FreeMemory"]

/-- The gauge of a processor; they are numbered from one. -/
def processorGauge (index : Nat) : String := s!"CPUutilization{index + 1}"

/-- The gauges of a pass, on a machine with `processors` processors. -/
def gauges (s : OwnSampler) (isTask : Bool) (processors : Nat) : List String :=
  match s with
  | process => processGauges ++ (if isTask then schedulerGauges else []) ++ [randomGauge]
  | machine => memoryGauges ++ (List.range processors).map processorGauge

/-- Whether a random number is among the readings. -/
def isRandom (s : OwnSampler) : Bool := s == process

end OwnSampler
end Metering
