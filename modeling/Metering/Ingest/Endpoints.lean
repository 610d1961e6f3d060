import Metering.Http.Request
import Metering.Http.Response
import Metering.Ingest.Route
import Metering.Ingest.Service
import Metering.Net.Network

/-!
The answers of the resources.

An endpoint works on a request whose body is plain: what is sealed or compressed has been undone
before. A body is at most two megabytes long, its signature is checked before it is read, and it
is read as a record or a list of records. Updates by path carry no body and are not signed.
-/
namespace Metering

/-- What a server holds: its keys, its trusted network and its way of following up on writes. -/
structure Ingest where
  keys : WireKeys
  network : Option Network
  service : Service

/-- The answer that reports a refusal. -/
def Refusal.response (r : Refusal) : HttpResponse := .plain r.status r.message

namespace Ingest

/-- The greatest length of a plain body. -/
def maxBody : Nat := 2 * 1024 * 1024

/-- What is said of a longer body. -/
def longBodyReason : String := "Failed to buffer the request body: length limit exceeded"

/-- Answers with what a task gives, or with its refusal. -/
def answering (t : ServerTask (Except Refusal α)) (f : α → HttpResponse) : ServerTask HttpResponse :=
  t.map fun
    | .ok a => f a
    | .error e => e.response

/-- An answer that takes no steps. -/
def refuse (f : Failure) : ServerTask HttpResponse := .done (Refusal.failure f).response

/-- The caller's address, as the request states it. -/
def source (r : HttpRequest) : Option String := r.headers.text? Headers.realIp

/-- Reads a plain body, if its signature is good. -/
def readBody (i : Ingest) (r : HttpRequest) (decode : Bytes → Except JsonFault α) :
    Except Failure α := do
  i.keys.verify r.body (r.headers.text? Headers.signature)
  match decode r.body with
  | .ok a => return a
  | .error e => throw (.invalid (.body e))

/-- Goes on with a body that is not too long and can be read. -/
def withBody (i : Ingest) (r : HttpRequest) (decode : Bytes → Except JsonFault α)
    (next : α → ServerTask HttpResponse) : ServerTask HttpResponse :=
  if maxBody < r.body.length then .done (.plain 413 longBodyReason)
  else match i.readBody r decode with
    | .ok a => next a
    | .error f => refuse f

/-- The update that three parts of a path spell. -/
def updateOfParts (kind id value : String) : Except Failure Update := do
  if id = "" then throw ⟨.notFound, .emptyId⟩
  let kind ← Kind.parse kind
  return ⟨id, ← Value.parse kind value⟩

/-- Applies the update that a path spells. -/
def updateAt (i : Ingest) (r : HttpRequest) (kind id value : String) : ServerTask HttpResponse :=
  match (do return (← Resource.part "kind" kind, ← Resource.part "id" id,
      ← Resource.part "value" value) : Except String _) with
  | .error reason => .done (.plain 400 reason)
  | .ok (kind, id, value) =>
    match updateOfParts kind id value with
    | .error f => refuse f
    | .ok u => answering (i.service.update u (source r)) fun _ => .plain 200 ""

/-- Applies one record and repeats it. -/
def update (i : Ingest) (r : HttpRequest) : ServerTask HttpResponse :=
  i.withBody r Metric.decode fun m =>
    match m.toUpdate with
    | .error f => refuse f
    | .ok u => answering (i.service.update u (source r)) fun _ => .json m.encode

/-- Applies a list of records, which must not be empty, and repeats it. -/
def updates (i : Ingest) (r : HttpRequest) : ServerTask HttpResponse :=
  i.withBody r Metric.decodeList fun ms =>
    if ms = [] then refuse (.invalid .emptyBatch)
    else match ms.mapM Metric.toUpdate with
      | .error f => refuse f
      | .ok us => answering (i.service.updateAll us (source r)) fun _ => .json (Metric.encodeList ms)

/-- The value that two parts of a path name, as a text. -/
def valueAt (kind id : String) : ServerTask HttpResponse :=
  match (do return (← Resource.part "kind" kind, ← Resource.part "id" id) : Except String _) with
  | .error reason => .done (.plain 400 reason)
  | .ok (kind, id) =>
    match Kind.parse kind with
    | .error f => refuse f
    | .ok kind => answering (Service.read kind id) fun v => .plain 200 v.text

/-- The value that a record asks for, as a record. -/
def value (i : Ingest) (r : HttpRequest) : ServerTask HttpResponse :=
  i.withBody r Metric.decode fun m =>
    if m.id = "" then refuse (.invalid .emptyId)
    else answering (Service.read m.kind m.id) fun v => .json (Metric.ofUpdate ⟨m.id, v⟩).encode

/-- The answer of a resource. -/
def endpoint (i : Ingest) (r : HttpRequest) : Resource → ServerTask HttpResponse
  | .updateAt kind id v => i.updateAt r kind id v
  | .update => i.update r
  | .updates => i.updates r
  | .valueAt kind id => valueAt kind id
  | .value => i.value r
  | .ping => answering Service.ping fun _ => .plain 200 "OK"

end Ingest
end Metering
