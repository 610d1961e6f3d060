import Metering.Http.Headers

/-!
Answers to requests.
-/
namespace Metering

/-- An answer. -/
structure HttpResponse where
  status : Nat
  headers : Headers
  body : Bytes
deriving DecidableEq

namespace HttpResponse

/-- An answer in plain text. -/
def plain (status : Nat) (text : String) : HttpResponse :=
  ⟨status, [(Headers.contentType, Bytes.ofText Headers.plain)], Bytes.ofText text⟩

/-- An answer that is a document. -/
def json (document : Bytes) : HttpResponse :=
  ⟨200, [(Headers.contentType, Bytes.ofText Headers.json)], document⟩

/-- An answer without a body. -/
def empty (status : Nat) : HttpResponse := ⟨status, [], []⟩

/-- Whether the answer reports success. -/
def isSuccess (r : HttpResponse) : Bool := 200 ≤ r.status && r.status < 300

end HttpResponse
end Metering
