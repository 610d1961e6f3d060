import Metering.Ingest.Endpoints
import Metering.Rpc.Envelope

/-!
Calls over the other transport.

There is one method, which applies a list of records as a batch. Entries that are `null` or have
an empty id are passed over, and with nothing left the call succeeds without a write. The trusted
network is asked about every call, whatever its method.
-/
namespace Metering.Ingest

/-- The one method. -/
def updateMethod : String := "UpdateMetrics"

/-- A record, or `null`. -/
def entry (j : Json) : Except JsonReason (Option Metric) := JsonShape.optional Metric.ofJson j

/-- The entries that the arguments of a call hold. -/
def entries (args : Json) : Except JsonReason (List (Option Metric)) :=
  JsonShape.record "UpdateMetricsRequest" 0
    [("metrics", fun _ v => do
        return some (← (← JsonShape.list v).mapM entry))]
    none (fun d => .ok (d.getD [])) args

/-- The entries that count. -/
def counted (es : List (Option Metric)) : List Metric :=
  (es.filterMap id).filter fun m => m.id != ""

/-- The reply to a call that a refusal stopped. -/
def refusedReply (id : UInt64) (r : Refusal) : RpcReply :=
  .failed id (if r.status < 500 then .invalidArgument else .internal) r.message

/-- The result of a call that wrote. -/
def emptyResult : Json := .object []

/-- Applies the entries of a call. -/
def updateCall (i : Ingest) (c : RpcCall) : ServerTask RpcReply :=
  match entries c.args with
  | .error e => .done (.failed c.id .invalidArgument e.message)
  | .ok es =>
    match (counted es).mapM Metric.toUpdate with
    | .error f => .done (.failed c.id .invalidArgument f.message)
    | .ok [] => .done (.success c.id emptyResult)
    | .ok us => (i.service.updateAll us c.realIp).map fun
      | .ok () => .success c.id emptyResult
      | .error r => refusedReply c.id r

/-- Answers a call. -/
def call (i : Ingest) (c : RpcCall) : ServerTask RpcReply :=
  let admitted := match i.network with
    | some network => network.check c.realIp
    | none => .ok ()
  match admitted with
  | .error f => .done (.failed c.id .permissionDenied f.message)
  | .ok () =>
    if c.method = updateMethod then i.updateCall c
    else .done (.failed c.id .unimplemented s!"unknown method '{c.method}'")

end Metering.Ingest
