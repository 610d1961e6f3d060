import Metering.Ingest.Calls
import Metering.Rpc.Connection

/-!
One connection of the server for calls, in time.

A conversation says what a connection comes to once its whole stream is known. Here the stream
arrives piece by piece, the caller may end it, and the server may be asked to stop at any moment.
The server's own turns are to take a whole frame, to handle the message in it and to write the
reply. Only while it waits for a frame does it look at whether it should stop, and then it may as
well take a frame that is there (`quit` and `turn` are both open). A length without its data is
cut short only once the stream has ended; until then the rest may still arrive.
-/
namespace Metering

/-- Where the server stands. A connection can end with a message whose reply was too long. -/
inductive SessionPhase
  | reading
  | handling (message : Bytes)
  | writing (message : Bytes) (reply : RpcReply)
  | ended (ending : ConversationEnd) (unanswered : Option Bytes)

/-- What the server did on the stream. -/
inductive SessionEvent
  | took (message : Bytes)
  | wrote (reply : RpcReply)

namespace SessionEvent

def message? : SessionEvent → Option Bytes
  | took message => some message
  | wrote _ => none

def reply? : SessionEvent → Option RpcReply
  | took _ => none
  | wrote r => some r

end SessionEvent

/-- A connection while it is served. -/
structure Session (σ : Type) where
  phase : SessionPhase
  unread : Bytes
  isClosed : Bool
  isStopping : Bool
  log : List SessionEvent
  state : σ

/-- What can happen next: bytes arrive, the caller ends the stream, the server is asked to stop,
it takes its turn, or it gives the connection up. -/
inductive SessionMove
  | arrive (piece : Bytes)
  | close
  | stop
  | turn
  | quit
deriving DecidableEq, Repr

namespace Session

/-- A connection that was just accepted. -/
def start (s : σ) : Session σ := ⟨.reading, [], false, false, [], s⟩

/-- Takes a frame, if a whole one is there; waits for it, or finds that there will be none. -/
def take? (c : Session σ) : Option (Session σ) :=
  match Frame.read [c.unread] with
  | .frame message left =>
    some { c with
      phase := .handling message
      unread := left.flatten
      log := c.log ++ [.took message] }
  | .ended => if c.isClosed then some { c with phase := .ended .closed none } else none
  | .fault f =>
    if f.kind = .connection ∧ c.isClosed = false then none
    else some { c with phase := .ended (.fault f) none }

/-- The server's turn. -/
def turn? (handler : CallHandler σ) (c : Session σ) : Option (Session σ) :=
  match c.phase with
  | .reading => c.take?
  | .handling message =>
    let (r, s) := Conversation.reply handler message c.state
    some { c with phase := .writing message r, state := s }
  | .writing message r =>
    match Frame.write r.encode with
    | .ok _ => some { c with phase := .reading, log := c.log ++ [.wrote r] }
    | .error f => some { c with phase := .ended (.fault f) (some message) }
  | .ended _ _ => none

/-- Makes a move, if it can be made. -/
def step? (handler : CallHandler σ) (c : Session σ) : SessionMove → Option (Session σ)
  | .arrive piece => if c.isClosed then none else some { c with unread := c.unread ++ piece }
  | .close => some { c with isClosed := true }
  | .stop => some { c with isStopping := true }
  | .turn => c.turn? handler
  | .quit =>
    match c.phase, c.isStopping with
    | .reading, true => some { c with phase := .ended .stopped none }
    | _, _ => none

/-- Makes moves one after another. -/
def run? (handler : CallHandler σ) (c : Session σ) : List SessionMove → Option (Session σ)
  | [] => some c
  | m :: ms =>
    match c.step? handler m with
    | some c => c.run? handler ms
    | none => none

/-- The messages that were taken. -/
def taken (c : Session σ) : List Bytes := c.log.filterMap SessionEvent.message?

/-- The replies that were written. -/
def replies (c : Session σ) : List RpcReply := c.log.filterMap SessionEvent.reply?

/-- The bytes that arrive in a row of moves, wherever they are cut. -/
def arrived (ms : List SessionMove) : Bytes :=
  ms.flatMap fun
    | .arrive piece => piece
    | _ => []

end Session

/-- How a server answers calls over a store. -/
def Ingest.answerCall (i : Ingest) (store : Store σ) : CallHandler (ServerState σ) := fun c s =>
  (i.call c).run store s

end Metering
