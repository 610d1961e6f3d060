/-!
Statuses of answers.
-/
namespace Metering.HttpStatus

/-- The phrase that goes with a status. -/
def phrase : Nat → String
  | 200 => "OK"
  | 201 => "Created"
  | 202 => "Accepted"
  | 204 => "No Content"
  | 400 => "Bad Request"
  | 401 => "Unauthorized"
  | 403 => "Forbidden"
  | 404 => "Not Found"
  | 405 => "Method Not Allowed"
  | 408 => "Request Timeout"
  | 413 => "Payload Too Large"
  | 429 => "Too Many Requests"
  | 500 => "Internal Server Error"
  | 502 => "Bad Gateway"
  | 503 => "Service Unavailable"
  | 504 => "Gateway Timeout"
  | _ => "<unknown status code>"

/-- A status as it is shown. -/
def text (status : Nat) : String := s!"{status} {phrase status}"

end Metering.HttpStatus
