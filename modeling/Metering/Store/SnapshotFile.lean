import Metering.Store.Repository
import Metering.Store.Disk

/-!
The snapshot file: every metric of a store as an indented JSON list of records.

Saving lists the store, writes a temporary file in the same folder and moves it into place, so
the file is always one whole listing. A missing or blank file stands for no metrics. Restoring
turns every record into an update and applies them as one batch, to a store that is empty.
-/
namespace Metering

/-- A snapshot file, by its path. -/
structure SnapshotFile where
  path : String
deriving DecidableEq, Repr

namespace SnapshotFile

/-- The blanks of a file that stands for no metrics. -/
def isBlank (b : UInt8) : Bool :=
  b == 0x20 || b == 0x09 || b == 0x0a || b == 0x0c || b == 0x0d

/-- The contents that record a list of metrics. -/
def contents (ms : List Metric) : Bytes := (Metric.listToJson ms).writeIndented 0

/-- Replaces the file. -/
def install (file : SnapshotFile) (data : Bytes) (disk : Disk) : Except StoreFault Disk :=
  let folder := Disk.parent file.path
  let temporary := folder ++ "/.tmp"
  match disk.reach temporary with
  | .error e => .error (.snapshot (.temporaryFile folder temporary e))
  | .ok () =>
    match disk.replace file.path data with
    | .error e => .error (.snapshot (.replaceFile file.path e))
    | .ok disk => .ok disk

/-- Saves a store; the answer is the number of metrics. -/
def save (file : SnapshotFile) (store : Store σ) (s : σ) (disk : Disk) :
    Except StoreFault Nat × σ × Disk :=
  match StoreTask.listing.run store s with
  | (.error e, s) => (.error e, s, disk)
  | (.ok ms, s) =>
    match file.install (contents ms) disk with
    | .error e => (.error e, s, disk)
    | .ok disk => (.ok ms.length, s, disk)

/-- The records that the contents of the file hold. -/
def parse (file : SnapshotFile) (data : Bytes) : Except StoreFault (List Metric) :=
  if data.all isBlank then .ok []
  else match Metric.decodeList data with
    | .ok ms => .ok ms
    | .error e => .error (.snapshot (.parseFile file.path e))

/-- The records of the file. -/
def load (file : SnapshotFile) (disk : Disk) : Except StoreFault (List Metric) :=
  match disk.read file.path with
  | .ok data => file.parse data
  | .error .noSuchFile => .ok []
  | .error e => .error (.snapshot (.readFile file.path e))

/-- The updates that the file asks for. -/
def updates (file : SnapshotFile) (disk : Disk) : Except StoreFault (List Update) := do
  let ms ← file.load disk
  match ms.mapM Metric.toUpdate with
  | .ok us => return us
  | .error e => throw (.snapshot (.badRecord file.path e))

/-- Applies the file to a store; the answer is the number of metrics. -/
def restore (file : SnapshotFile) (store : Store σ) (s : σ) (disk : Disk) :
    Except StoreFault Nat × σ :=
  match file.updates disk with
  | .error e => (.error e, s)
  | .ok us =>
    match store.call (.batch us) s with
    | (.ok (), s) => (.ok us.length, s)
    | (.error e, s) => (.error e, s)

end SnapshotFile

/-- A clock that asks for a save at every multiple of an interval, until it is stopped. -/
structure SaveClock where
  interval : Nat
  now : Nat
  running : Bool
deriving DecidableEq, Repr

namespace SaveClock

/-- A clock at time zero, with its first save one interval away. -/
def start (interval : Nat) : SaveClock := ⟨interval, 0, true⟩

/-- Lets time pass; the answer is the number of saves that came due. -/
def advance (c : SaveClock) (milliseconds : Nat) : SaveClock × Nat :=
  let later := c.now + milliseconds
  let due := if c.running then later / c.interval - c.now / c.interval else 0
  ({ c with now := later }, due)

def stop (c : SaveClock) : SaveClock := { c with running := false }

end SaveClock
end Metering
