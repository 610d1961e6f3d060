import Metering.Ingest.Endpoints

/-!
The layers around the endpoints.

From the outside in: callers outside the trusted network are refused where a request may write,
sealed bodies are opened, compressed bodies are inflated. Around the endpoint itself, the answer
is signed and, if the caller takes it and the type is worth it, compressed. What an outer layer
refuses is therefore not signed. The layers also surround the answers for paths and methods that
lead nowhere.
-/
namespace Metering.Ingest

/-- The path that writing resources start with. -/
def writePath : String := "/update"

/-- Whether a request may write. -/
def mayWrite (r : HttpRequest) : Bool := r.method == "POST" && r.uri.path.startsWith writePath

/-- Refuses a caller outside the trusted network, where the request may write. -/
def checkCaller (i : Ingest) (r : HttpRequest) : Except Failure Unit :=
  match i.network with
  | some network => if mayWrite r then network.check (source r) else .ok ()
  | none => .ok ()

/-- A body that is not too long to be worked on. -/
def buffered (body : Bytes) : Except Failure Bytes :=
  if maxMessageSize < body.length then .error (.invalid (.unreadBody "length limit exceeded"))
  else .ok body

/-- The request without the fields of a given name. -/
def without (r : HttpRequest) (name : String) (body : Bytes) : HttpRequest :=
  { r with headers := r.headers.filter fun e => e.1 != name, body := body }

/-- Opens a sealed body. -/
def opened (i : Ingest) (r : HttpRequest) : Except Failure HttpRequest :=
  if i.keys.opening.isSome && r.headers.isSealed then do
    let plain ← i.keys.openSealed (← buffered r.body) true
    return without r Headers.sealed plain
  else .ok r

/-- Inflates a compressed body. -/
def inflated (r : HttpRequest) : Except Failure HttpRequest :=
  if r.headers.isGzip then do
    let plain ← WireKeys.inflate (← buffered r.body)
    return without r Headers.contentEncoding plain
  else .ok r

/-- The request as the endpoint sees it. -/
def received (i : Ingest) (r : HttpRequest) : Except Failure HttpRequest := do
  i.checkCaller r
  inflated (← i.opened r)

/-- The answer with its signature, and compressed if that is due. -/
def finish (i : Ingest) (acceptsGzip : Bool) (a : HttpResponse) : HttpResponse :=
  let signed := match i.keys.sign a.body with
    | some s => a.headers.add Headers.signature s
    | none => a.headers
  if acceptsGzip && Headers.isCompressible (a.headers.text? Headers.contentType) then
    { a with
      headers := (signed.add Headers.contentEncoding Headers.gzip).add Headers.vary
        Headers.acceptEncoding
      body := Gzip.compress a.body }
  else { a with headers := signed }

/-- The answer of an endpoint, or of the lack of one. -/
def dispatch (i : Ingest) (r : HttpRequest) : ServerTask HttpResponse :=
  match Resource.ofPath? r.uri.path with
  | none => .done (.empty 404)
  | some resource =>
    if resource.takes r.method then i.endpoint r resource else .done (.empty 405)

/-- What is done to an answer outside of all layers: the methods are listed where the method is
none of them, and `HEAD` keeps the body back. -/
def present (r : HttpRequest) (a : HttpResponse) : HttpResponse :=
  match Resource.ofPath? r.uri.path with
  | none => a
  | some resource =>
    if resource.takes r.method then
      if r.method = "HEAD" then { a with body := [] } else a
    else { a with headers := a.headers.add Headers.allow resource.allowed }

/-- Handles a request. -/
def handle (i : Ingest) (r : HttpRequest) : ServerTask HttpResponse :=
  (match i.received r with
    | .error f => refuse f
    | .ok inner => (i.dispatch inner).map (i.finish inner.headers.acceptsGzip)).map (present r)

end Metering.Ingest
