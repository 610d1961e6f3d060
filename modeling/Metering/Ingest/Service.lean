import Metering.Ingest.Refusal
import Metering.Ingest.Task

/-!
Writing and reading metrics.

A write that the store accepts is followed by a save, if saving after every write is set, and by
an event for the audit trail. Neither can undo the write or turn its answer into a refusal.
-/
namespace Metering

/-- How a service follows up on writes. -/
structure Service where
  savesTo : Option SnapshotFile
  audits : Bool
deriving DecidableEq

namespace Service

/-- What follows a write. -/
def afterWrite (v : Service) (ids : List String) (source : Option String) : ServerTask Unit :=
  let audit : ServerTask Unit :=
    if v.audits then .single (.publish ids (source.getD "")) else .done ()
  match v.savesTo with
  | some file => file.saveTask.andThen fun _ => audit
  | none => audit

/-- A write of the metrics `ids`, made by a task of the store. -/
def write (v : Service) (task : StoreTask Unit) (ids : List String) (source : Option String) :
    ServerTask (Except Refusal Unit) :=
  (ServerTask.ofStore task).andThen fun
    | .error e => .done (.error (.fault e))
    | .ok () => (v.afterWrite ids source).map .ok

/-- Applies one update. -/
def update (v : Service) (u : Update) (source : Option String) :
    ServerTask (Except Refusal Unit) :=
  v.write (.apply u) [u.id] source

/-- Applies a batch as a whole. -/
def updateAll (v : Service) (us : List Update) (source : Option String) :
    ServerTask (Except Refusal Unit) :=
  v.write (.single (.batch us)) (us.map Update.id) source

/-- The value of a metric. -/
def read (kind : Kind) (id : String) : ServerTask (Except Refusal Value) :=
  (ServerTask.ofStore (.read kind id)).map fun
    | .error e => .error (.fault e)
    | .ok none => .error (.failure ⟨.notFound, .metric kind.name id⟩)
    | .ok (some v) => .ok v

/-- Asks the store whether it is there. -/
def ping : ServerTask (Except Refusal Unit) :=
  (ServerTask.ofStore (.single .ping)).map (Except.mapError .fault)

end Service
end Metering
