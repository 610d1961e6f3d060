import Metering.Agent.Settings
import Metering.Http.Request
import Metering.Http.Response
import Metering.Http.Status
import Metering.Key.File
import Metering.Metric.Record

/-!
Sending metrics as requests.

A batch goes to one resource as a list of records, a single metric to another as one record. The
body carries all layers for which the sender has keys. An attempt is accepted when the answer
reports success, and it crashes when the body cannot be sealed. How a request is carried is left
open (`Carrier`).
-/
namespace Metering

/-- An end that sends metrics. -/
structure HttpSender where
  /-- The address that the paths of resources are put behind. -/
  base : String
  keys : WireKeys
  /-- The address that the sender states as its own. -/
  caller : Option IpAddress

/-- Why a request is not carried at all. -/
inductive CarrierFault
  | noConnection
  | noTarget
deriving DecidableEq, Repr

/-- How requests are carried to an answer. -/
abbrev Carrier (σ : Type) := HttpRequest → σ → Except CarrierFault HttpResponse × σ

namespace CarrierFault

def message : CarrierFault → String
  | noConnection => "client error (Connect)"
  | noTarget => "client error (UserAbsoluteUriRequired)"

end CarrierFault

namespace HttpSender

/-- Where batches go. -/
def batchPath : String := "/updates/"

/-- Where single metrics go. -/
def singlePath : String := "/update"

/-- The sender that settings ask for. The address that it states as its own is that of the route
to the server, if there is one. -/
def ofSettings (s : AgentSettings) (disk : Disk) (route : String → Option IpAddress) :
    Except Failure HttpSender := do
  s.validate
  let sealing ← s.keyFile.mapM (PublicKey.load disk)
  return ⟨s.serverUrl, ⟨s.signingKey.map fun k => ⟨Bytes.ofText k⟩, sealing, none⟩,
    route s.hostPort⟩

/-- The request that carries a document. -/
def request (s : HttpSender) (source : PaddingSource) (path : String) (document : Bytes) :
    Except SealFault HttpRequest :=
  match s.keys.encode source document with
  | .error e => .error e
  | .ok payload => (HttpRequest.post (s.base ++ path) payload s.caller).mapError .refused

/-- What an answer, or the lack of one, means for the sender. -/
def judge (uri : String) : Except CarrierFault HttpResponse → Except Failure Unit
  | .error e => .error ⟨.connection, .post uri e.message⟩
  | .ok r =>
    if r.isSuccess then .ok ()
    else .error ⟨.invalidResponse, .postStatus uri (HttpStatus.text r.status)⟩

/-- Carries a document; a request without a scheme has no target. -/
def post (s : HttpSender) (source : PaddingSource) (carrier : Carrier σ) (path : String)
    (document : Bytes) (state : σ) : Except SealFault Unit × σ :=
  match s.request source path document with
  | .error e => (.error e, state)
  | .ok r =>
    let (answer, state) :=
      if r.uri.scheme = none then (.error .noTarget, state) else carrier r state
    ((judge (s.base ++ path) answer).mapError .refused, state)

/-- Sends a batch. -/
def sendBatch (s : HttpSender) (source : PaddingSource) (carrier : Carrier σ)
    (metrics : List Update) (state : σ) : Except SealFault Unit × σ :=
  s.post source carrier batchPath (Metric.encodeList (metrics.map Metric.ofUpdate)) state

/-- Sends one metric. -/
def sendOne (s : HttpSender) (source : PaddingSource) (carrier : Carrier σ) (metric : Update)
    (state : σ) : Except SealFault Unit × σ :=
  s.post source carrier singlePath (Metric.ofUpdate metric).encode state

/-- What sending comes to as an attempt. -/
def attempt : Except SealFault Unit → Attempt
  | .ok () => .accepted
  | .error (.refused _) => .refused
  | .error .stops => .crashed

/-- Attempts by requests that take no time. -/
def sender (s : HttpSender) (source : PaddingSource) (carrier : Carrier σ) : Sender σ where
  batch metrics state :=
    let (r, state) := s.sendBatch source carrier metrics state
    ((attempt r, 0), state)
  one metric state :=
    let (r, state) := s.sendOne source carrier metric state
    ((attempt r, 0), state)

end HttpSender
end Metering
