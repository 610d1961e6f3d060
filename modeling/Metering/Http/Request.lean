import Metering.Http.Headers
import Metering.Http.Uri

/-!
Requests, and how a payload becomes one.
-/
namespace Metering

/-- A request. -/
structure HttpRequest where
  method : String
  uri : Uri
  headers : Headers
  body : Bytes
deriving DecidableEq

namespace HttpRequest

/-- What is said of a value that no header field can have. -/
def valueReason : String := "failed to parse header value"

/-- A request that carries a payload to an address, on behalf of a caller. -/
def post (uri : String) (p : Payload) (caller : Option IpAddress) : Except Failure HttpRequest :=
  match Uri.parse uri with
  | .error e => .error ⟨.transport, .httpPart e.message⟩
  | .ok u =>
    let headers := Headers.describe p caller
    if headers.all fun e => e.2.all Headers.isValueByte then .ok ⟨"POST", u, headers, p.body⟩
    else .error ⟨.transport, .httpPart valueReason⟩

end HttpRequest
end Metering
