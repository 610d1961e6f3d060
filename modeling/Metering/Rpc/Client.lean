import Metering.Rpc.Session

/-!
Calls from the other end of a connection.

A call sends one frame and waits for one frame, and one limit of time holds for both. A call that
runs out of time while it sends has sent a part of its frame, and the next call goes on behind that
part. What arrives too late stays on the connection and is the first thing that the next call reads.
A reply counts as the answer to a call if it bears the number of the call, or zero. A call that runs
out of time in the middle of a frame has taken the part that had arrived, and that part is lost.

A `RpcLine` is a connection with both of its ends, and a `LineMove` one thing that can happen on it.
Calls follow one another, but the server takes its turns whenever it likes.
-/
namespace Metering

/-- The end of a connection that makes calls. The time for each call is in milliseconds. -/
structure RpcClient where
  patience : Nat
deriving DecidableEq, Repr

/-- The frames that wait to be read, and whether the other end has closed the connection. -/
structure Arrivals where
  bytes : Bytes
  isClosed : Bool
deriving DecidableEq, Repr

namespace RpcClient

/-- An end with the usual patience. -/
def standard : RpcClient := ⟨5000⟩

/-- The failure of a connection that could not be made. -/
def unreachable (address : String) (fault : IoFault) : Failure :=
  ⟨.connection, .connect address fault⟩

/-- The failure of a call that has run out of time. -/
def late (client : RpcClient) : Failure := ⟨.transport, .timedOut client.patience⟩

/-- Reads a reply to the call of number `id` from its bytes. -/
def accept (id : UInt64) (message : Bytes) : Except Failure RpcReply :=
  match RpcReply.decode message with
  | .error e => .error (.json e)
  | .ok r =>
    if r.id = id ∨ r.id = 0 then .ok r
    else .error ⟨.invalidResponse, .replyId r.id.toNat id.toNat⟩

/-- Reads the answer to the call of number `id` from what arrives in time. What is left over stays
for the next call. -/
def receive (client : RpcClient) (id : UInt64) (a : Arrivals) : Except Failure RpcReply × Bytes :=
  match Frame.read [a.bytes] with
  | .frame message left => (accept id message, left.flatten)
  | .ended =>
    (.error (if a.isClosed then ⟨.connection, .closedBeforeReply⟩ else client.late), [])
  | .fault f =>
    if f.kind = .invalidResponse then (.error f, a.bytes.drop Frame.lengthWidth)
    else (.error (if a.isClosed then f else client.late), [])

end RpcClient

/-- A call, and how many bytes of its frame have been sent. -/
structure SentCall where
  call : RpcCall
  sent : Nat

namespace SentCall

def frame (c : SentCall) : Bytes := Frame.framed c.call.encode

/-- What has been sent of the frame. -/
def bytes (c : SentCall) : Bytes := c.frame.take c.sent

/-- Whether the whole frame has been sent. -/
def isWhole (c : SentCall) : Bool := c.frame.length ≤ c.sent

end SentCall

/-- A call that is over, and what it came to. -/
structure CallMade extends SentCall where
  answer : Except Failure RpcReply

/-- A connection with both ends: the server's end, the calls that are over, the one that is being
made, and how many of the bytes that the server has written were read. -/
structure RpcLine (σ : Type) where
  session : Session σ
  made : List CallMade
  current : Option SentCall
  read : Nat

/-- What can happen on a connection: a call is made, more of its frame gets through to the server,
the server takes a turn, is asked to stop or gives the connection up, and the call ends. It ends
with the answer that it finds in the bytes that arrive in time, or with its time, or because the
connection fails under it, and then it may have taken some bytes. -/
inductive LineMove
  | begin (c : RpcCall)
  | send (count : Nat)
  | turn
  | stop
  | quit
  | finish (inTime : Nat)
  | fail (fault : Failure) (taken : Nat)

namespace RpcLine

/-- A line on which nothing has been said. -/
def fresh (s : σ) : RpcLine σ := ⟨.start s, [], none, 0⟩

/-- All calls, with the one that is being made, in order. -/
def sentCalls (line : RpcLine σ) : List SentCall :=
  line.made.map CallMade.toSentCall ++ line.current.toList

/-- What the server has written and nobody has read. -/
def onTheWay (line : RpcLine σ) : Bytes :=
  (line.session.replies.flatMap fun r => Frame.framed r.encode).drop line.read

/-- Whether the server has closed the connection. -/
def isClosed (line : RpcLine σ) : Bool :=
  match line.session.phase with
  | .ended _ _ => true
  | _ => false

/-- Begins a call. A message that is too long is refused before anything is sent. -/
def begin? (line : RpcLine σ) (c : RpcCall) : Option (RpcLine σ) :=
  match line.current, Frame.write c.encode with
  | some _, _ => none
  | none, .error f => some { line with made := line.made ++ [⟨⟨c, 0⟩, .error f⟩] }
  | none, .ok _ => some { line with current := some ⟨c, 0⟩ }

/-- Ends a call with an answer, of which `taken` bytes were read. -/
def ended (line : RpcLine σ) (c : SentCall) (answer : Except Failure RpcReply) (taken : Nat) :
    RpcLine σ :=
  { line with
    made := line.made ++ [⟨c, answer⟩]
    current := none
    read := line.read + taken }

/-- What arrives in time. -/
def arriving (line : RpcLine σ) (inTime : Nat) : Arrivals :=
  ⟨line.onTheWay.take inTime, line.isClosed && decide (line.onTheWay.length ≤ inTime)⟩

/-- Ends a call whose frame was sent: it reads what arrives in time. -/
def hear (client : RpcClient) (line : RpcLine σ) (c : SentCall) (inTime : Nat) : RpcLine σ :=
  let arrived := line.arriving inTime
  let heard := client.receive c.call.id arrived
  line.ended c heard.1 (arrived.bytes.length - heard.2.length)

/-- Makes a move, if it can be made. -/
def step? (handler : CallHandler σ) (client : RpcClient) (line : RpcLine σ) :
    LineMove → Option (RpcLine σ)
  | .begin c => line.begin? c
  | .send count => do
    let c ← line.current
    let session ← line.session.step? handler (.arrive ((c.frame.drop c.sent).take count))
    return { line with session, current := some { c with sent := c.sent + count } }
  | .turn => do return { line with session := ← line.session.step? handler .turn }
  | .stop => do return { line with session := ← line.session.step? handler .stop }
  | .quit => do return { line with session := ← line.session.step? handler .quit }
  | .finish inTime => do
    let c ← line.current
    return if c.isWhole then line.hear client c inTime else line.ended c (.error client.late) 0
  | .fail fault taken => do return line.ended (← line.current) (.error fault) taken

/-- Makes moves one after another. -/
def run? (handler : CallHandler σ) (client : RpcClient) (line : RpcLine σ) :
    List LineMove → Option (RpcLine σ)
  | [] => some line
  | m :: ms =>
    match line.step? handler client m with
    | some line => line.run? handler client ms
    | none => none

end RpcLine
end Metering
