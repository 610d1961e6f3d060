import Metering.Json.Fault

/-!
Why a request, a message or a key is refused.

A failure has a kind, which decides who is to blame and how an answer is marked, and a cause,
which carries the values that its wording needs. All wordings stand in this module.
-/
namespace Metering

/-- What the operating system refuses. -/
inductive IoFault
  | noSuchFile
  | isDirectory
  | notDirectory
  | networkUnreachable
  | stated (text : String)
deriving DecidableEq, Repr

namespace IoFault

def message : IoFault → String
  | noSuchFile => "No such file or directory (os error 2)"
  | isDirectory => "Is a directory (os error 21)"
  | notDirectory => "Not a directory (os error 20)"
  | networkUnreachable => "Network is unreachable (os error 101)"
  | stated text => text

end IoFault

/-- The kinds of failure that a peer or an operator is told apart by. -/
inductive FailureKind
  | invalidMetric
  | notFound
  | forbidden
  | integrity
  | decryption
  | encryption
  | unsupportedValue
  | compression
  | key
  | transport
  | connection
  | invalidResponse
  | json
  | io
deriving DecidableEq, Repr

namespace FailureKind

/-- The opening words of every failure of the kind. -/
def title : FailureKind → String
  | invalidMetric => "Invalid metric"
  | notFound => "Metric not found"
  | forbidden => "Forbidden"
  | integrity => "Integrity check failed"
  | decryption => "Decryption failed"
  | encryption => "Encryption failed"
  | unsupportedValue => "Unsupported metric value"
  | compression => "Compression error"
  | key => "Key error"
  | transport => "Transport error"
  | connection => "Connection error"
  | invalidResponse => "Invalid response"
  | json => "JSON serialization error"
  | io => "IO error"

/-- Whether what the peer sent is to blame, and not this process. -/
def blamesPeer : FailureKind → Bool
  | invalidMetric | integrity | decryption | compression | unsupportedValue | json => true
  | _ => false

end FailureKind

/-- The greatest length of a framed message and of a request body, in bytes. -/
def maxMessageSize : Nat := 100 * 1024 * 1024

/-- What a failure is about. -/
inductive Cause
  /-- A text that comes from outside and is passed on. -/
  | stated (text : String)
  | unknownKind (name : String)
  | gaugeText (raw : String)
  | counterText (raw : String)
  | emptyId
  | gaugeWithoutValue (id : String)
  | counterWithoutDelta (id : String)
  | networkText (text : String) (reason : String)
  | body (fault : JsonFault)
  | unreadBody (reason : String)
  | emptyBatch
  | metric (kind id : String)
  | missingAddress
  | badAddress (raw : String)
  | outsideNetwork (address network : String)
  | missingTag
  | malformedTag
  | otherTag
  | sealedLength (length block : Nat)
  | sealedBlock (index : Nat) (reason : String)
  | sealing (reason : String)
  | gzip (reason : String)
  | publicKey (reason : String)
  | privateKey (reason : String)
  | keyFile (path : String) (fault : IoFault)
  | scheme (name address : String)
  | messageTooLarge (size : Nat)
  | socketAddress (reason : String)
  | httpPart (reason : String)
  | bind (address : String) (reason : String)
  | connect (address : String) (fault : IoFault)
  | frameCutShort
  | closedBeforeReply
  | post (uri : String) (reason : String)
  | postStatus (uri : String) (status : String)
  | replyId (reply request : Nat)
  | timedOut (milliseconds : Nat)
  | json (fault : JsonFault)
  | io (fault : IoFault)
deriving DecidableEq, Repr

/-- A span of time as it is shown: in seconds from one second on, else in milliseconds. -/
def shownDuration (milliseconds : Nat) : String :=
  if milliseconds = 0 then "0ns"
  else if milliseconds < 1000 then s!"{milliseconds}ms"
  else
    let fraction := Digits.toDigits (1000 + milliseconds % 1000)
    let places := ((fraction.drop 1).reverse.dropWhile (· == '0')).reverse
    let tail := if places = [] then "" else "." ++ String.ofList places
    s!"{milliseconds / 1000}{tail}s"

namespace Cause

/-- The wording of each cause. -/
def message : Cause → String
  | stated text => text
  | unknownKind name => s!"unknown metric type '{name}'"
  | gaugeText raw => s!"invalid gauge value '{raw}'"
  | counterText raw => s!"invalid counter value '{raw}'"
  | emptyId => "metric id is empty"
  | gaugeWithoutValue id => s!"gauge '{id}' has no value"
  | counterWithoutDelta id => s!"counter '{id}' has no delta"
  | networkText text reason => s!"invalid CIDR '{text}': {reason}"
  | body fault => s!"invalid JSON body: {fault.message}"
  | unreadBody reason => s!"failed to read body: {reason}"
  | emptyBatch => "empty batch"
  | metric kind id => s!"{kind} '{id}'"
  | missingAddress => "missing real ip"
  | badAddress raw => s!"invalid real ip '{raw}'"
  | outsideNetwork address network => s!"{address} is outside {network}"
  | missingTag => "missing HashSHA256 header"
  | malformedTag => "malformed HashSHA256 header"
  | otherTag => "HashSHA256 mismatch"
  | sealedLength length block => s!"body length {length} is not a multiple of {block}"
  | sealedBlock index reason => s!"block {index}: {reason}"
  | sealing reason => reason
  | gzip reason => s!"invalid gzip body: {reason}"
  | publicKey reason => s!"invalid public key: {reason}"
  | privateKey reason => s!"invalid private key: {reason}"
  | keyFile path fault => s!"failed to read {path}: {fault.message}"
  | scheme name address => s!"unsupported scheme '{name}' in server address {address}"
  | messageTooLarge size => s!"Message too large: {size} bytes (max {maxMessageSize} bytes)"
  | socketAddress reason => reason
  | httpPart reason => reason
  | bind address reason => s!"Failed to bind to {address}: {reason}"
  | connect address fault => s!"Failed to connect to {address}: {fault.message}"
  | frameCutShort => "Failed to read data: early eof"
  | closedBeforeReply => "connection closed before response"
  | post uri reason => s!"POST {uri}: {reason}"
  | postStatus uri status => s!"POST {uri} returned {status}"
  | replyId reply request => s!"response id {reply} does not match request id {request}"
  | timedOut milliseconds => s!"RPC timed out after {shownDuration milliseconds}"
  | json fault => fault.message
  | io fault => fault.message

end Cause

/-- A refusal: its kind and what it is about. -/
structure Failure where
  kind : FailureKind
  cause : Cause
deriving DecidableEq, Repr

namespace Failure

/-- The whole text of a failure. -/
def message (f : Failure) : String := s!"{f.kind.title}: {f.cause.message}"

def invalid (cause : Cause) : Failure := ⟨.invalidMetric, cause⟩
def forbidden (cause : Cause) : Failure := ⟨.forbidden, cause⟩
def json (fault : JsonFault) : Failure := ⟨.json, .json fault⟩

end Failure
end Metering
