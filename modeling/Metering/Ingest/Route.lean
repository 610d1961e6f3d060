import Metering.Http.Percent
import Metering.Metric.Basic
import Metering.Text.Blank

/-!
What a request asks for, by its path and method.

A path names a resource, and each resource takes one method. The parts of a path that name a
kind, a metric and a value may be empty except for the last one.
-/
namespace Metering

/-- What a path names. Parts stand as they were written in the path. -/
inductive Resource
  | updateAt (kind id value : String)
  | update
  | updates
  | valueAt (kind id : String)
  | value
  | ping
deriving DecidableEq, Repr

namespace Resource

/-- The resource of a path. -/
def ofPath? (path : String) : Option Resource :=
  match Text.split (· == '/') path with
  | ["", "update", kind, id, v] => if v = "" then none else some (.updateAt kind id v)
  | ["", "update"] | ["", "update", ""] => some .update
  | ["", "updates"] | ["", "updates", ""] => some .updates
  | ["", "value", kind, id] => if id = "" then none else some (.valueAt kind id)
  | ["", "value"] | ["", "value", ""] => some .value
  | ["", "ping"] => some .ping
  | _ => none

/-- Whether the resource is read with `GET`; the others take `POST`. -/
def isRead : Resource → Bool
  | valueAt _ _ | ping => true
  | _ => false

/-- The methods that the resource takes, as an answer lists them. -/
def allowed (r : Resource) : String := if r.isRead then "GET,HEAD" else "POST"

/-- Whether the resource takes a method. -/
def takes (r : Resource) (method : String) : Bool :=
  if r.isRead then method == "GET" || method == "HEAD" else method == "POST"

/-- What is said of a part of a path that is no text. -/
def partReason (name : String) : String := s!"Invalid URL: Invalid UTF-8 in `{name}`"

/-- The text of a part of a path. -/
def part (name raw : String) : Except String String :=
  match Bytes.toText? (Percent.decode (Bytes.ofText raw)) with
  | some s => .ok s
  | none => .error (partReason name)

end Resource
end Metering
