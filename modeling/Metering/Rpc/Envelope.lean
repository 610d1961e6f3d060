import Metering.Json.Reader
import Metering.Json.Shape

/-!
Calls and replies.

A call has a number, the name of a method, arguments of any form and entries of metadata. A reply
repeats the number and has a result or a text about what went wrong, with a status. A result that
is `null` is read as none.
-/
namespace Metering

/-- A call. Metadata is sorted by name. -/
structure RpcCall where
  id : UInt64
  method : String
  args : Json
  metadata : List (String × String)

/-- How a call went. -/
inductive RpcStatus
  | ok
  | invalidArgument
  | permissionDenied
  | unimplemented
  | internal
deriving DecidableEq, Repr

/-- A reply. -/
structure RpcReply where
  id : UInt64
  result : Option Json
  error : Option String
  status : RpcStatus

namespace RpcStatus

def name : RpcStatus → String
  | ok => "ok"
  | invalidArgument => "invalid_argument"
  | permissionDenied => "permission_denied"
  | unimplemented => "unimplemented"
  | internal => "internal"

/-- The statuses in the order in which they are listed. -/
def list : List RpcStatus := [ok, invalidArgument, permissionDenied, unimplemented, internal]

def ofName? (s : String) : Option RpcStatus := list.find? fun status => status.name == s

theorem ofName?_name (s : RpcStatus) : ofName? s.name = some s := by cases s <;> decide

end RpcStatus

/-- Puts an entry in its place by name; an equal name gets the new value. -/
def insertEntry (name value : String) : List (String × String) → List (String × String)
  | [] => [(name, value)]
  | (k, v) :: rest =>
    if name < k then (name, value) :: (k, v) :: rest
    else if k < name then (k, v) :: insertEntry name value rest
    else (name, value) :: rest

namespace RpcCall

/-- The name of the entry that carries the caller's address. -/
def realIpKey : String := "x-real-ip"

/-- The caller's address. -/
def realIp (c : RpcCall) : Option String :=
  (c.metadata.find? fun e => e.1 == realIpKey).map Prod.snd

def toJson (c : RpcCall) : Json :=
  .object [("id", .nat c.id.toNat), ("method", .text c.method), ("args", c.args),
    ("metadata", .object (c.metadata.map fun e => (e.1, .text e.2)))]

def encode (c : RpcCall) : Bytes := c.toJson.write

/-- What of a call has been read so far. -/
structure Draft where
  id : Option UInt64
  method : Option String
  args : Option Json
  metadata : Option (List (String × String))

namespace Draft

def blank : Draft := ⟨none, none, none, none⟩

/-- The call of a draft, or the name of the first field that it lacks. -/
def build (d : Draft) : Except String RpcCall :=
  match d.id, d.method, d.args with
  | none, _, _ => .error "id"
  | _, none, _ => .error "method"
  | _, _, none => .error "args"
  | some id, some method, some args => .ok ⟨id, method, args, d.metadata.getD []⟩

end Draft

open JsonReader in
/-- How a call is read. -/
def shape : RecordShape Draft RpcCall where
  name := "Request"
  fields :=
    [⟨"id", fun d => d.id.isSome, fun d => do
        return { d with id := some (← numberOf "u64" Json.acceptUInt64) }⟩,
     ⟨"method", fun d => d.method.isSome, fun d => do return { d with method := some (← text) }⟩,
     ⟨"args", fun d => d.args.isSome, fun d => do
        return { d with args := some (← value (depthLimit - 1)) }⟩,
     ⟨"metadata", fun d => d.metadata.isSome, fun d => do
        let entries ← object (fun acc key => do
          colon
          return insertEntry key (← text) acc) []
        return { d with metadata := some entries }⟩]
  least := 3
  blank := Draft.blank
  build := Draft.build

/-- The call that a text holds. -/
def decode (text : Bytes) : Except JsonFault RpcCall :=
  JsonReader.run (JsonReader.record shape) text

end RpcCall

namespace RpcReply

/-- The reply to a call that went well. -/
def success (id : UInt64) (result : Json) : RpcReply := ⟨id, some result, none, .ok⟩

/-- The reply to a call that did not. -/
def failed (id : UInt64) (status : RpcStatus) (error : String) : RpcReply :=
  ⟨id, none, some error, status⟩

def isSuccess (r : RpcReply) : Bool := r.status == .ok

def toJson (r : RpcReply) : Json :=
  .object [("id", .nat r.id.toNat), ("result", r.result.getD .null),
    ("error", (r.error.map Json.text).getD .null), ("status", .text r.status.name)]

def encode (r : RpcReply) : Bytes := r.toJson.write

/-- What of a reply has been read so far. -/
structure Draft where
  id : Option UInt64
  result : Option (Option Json)
  error : Option (Option String)
  status : Option RpcStatus

namespace Draft

def blank : Draft := ⟨none, none, none, none⟩

/-- The reply of a draft, or the name of the first field that it lacks. -/
def build (d : Draft) : Except String RpcReply :=
  match d.id, d.status with
  | none, _ => .error "id"
  | _, none => .error "status"
  | some id, some status => .ok ⟨id, d.result.join, d.error.join, status⟩

end Draft

open JsonReader in
/-- How a reply is read. -/
def shape : RecordShape Draft RpcReply where
  name := "Response"
  fields :=
    [⟨"id", fun d => d.id.isSome, fun d => do
        return { d with id := some (← numberOf "u64" Json.acceptUInt64) }⟩,
     ⟨"result", fun d => d.result.isSome, fun d => do
        return { d with result := some (← optional (value (depthLimit - 1))) }⟩,
     ⟨"error", fun d => d.error.isSome, fun d => do
        return { d with error := some (← optional text) }⟩,
     ⟨"status", fun d => d.status.isSome, fun d => do
        let name ← variant (RpcStatus.list.map RpcStatus.name)
        return { d with status := RpcStatus.ofName? name }⟩]
  least := 4
  blank := Draft.blank
  build := Draft.build

/-- The reply that a text holds. -/
def decode (text : Bytes) : Except JsonFault RpcReply :=
  JsonReader.run (JsonReader.record shape) text

end RpcReply
end Metering
