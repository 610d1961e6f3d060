import Metering.Ingest.Calls
import Metering.Ingest.Pool
import Metering.Server.Startup

/-!
A server at work, and how it stops.

Requests, calls and the saves of the clock are tasks of one pool. When the server is told to stop
it goes through phases, and it leaves a phase only when no task of that phase is under way: first
the requests end, then the calls, then the saves of the clock. The last save runs alone, and with
its end the server has returned. New tasks of a kind are taken up until their phase is over.

A client that goes away cancels its request; a call is always carried through.
-/
namespace Metering

/-- What a task of a server is for. -/
inductive ServingRole
  | request
  | call
  | clock
deriving DecidableEq, Repr

/-- What a task of a server gives. -/
inductive ServingAnswer
  | response (r : HttpResponse)
  | reply (r : RpcReply)
  | saved (r : Except StoreFault Unit)

/-- How far a server is on its way to the end. -/
inductive ServingPhase
  | open
  | endingRequests
  | endingCalls
  | endingClock
  | lastSave
  | returned
deriving DecidableEq, Repr

namespace ServingPhase

/-- The place of a phase among all phases. -/
def rank : ServingPhase → Nat
  | «open» => 0
  | endingRequests => 1
  | endingCalls => 2
  | endingClock => 3
  | lastSave => 4
  | returned => 5

/-- Whether a task of a kind may still begin. -/
def accepts (p : ServingPhase) : ServingRole → Bool
  | .request => p.rank ≤ 1
  | .call => p.rank ≤ 2
  | .clock => p.rank ≤ 3

end ServingPhase

/-- A server with its tasks; `roles` says what each task of the pool is for. -/
structure Serving (σ : Type) where
  server : Server
  pool : ServerPool ServingAnswer σ
  roles : List ServingRole
  phase : ServingPhase

/-- What can happen to a server at work. -/
inductive ServingMove : Type
  | request (r : HttpRequest)
  | call (c : RpcCall)
  | tick
  | turn (task : Nat)
  | land (write : Nat)
  | fail (write : Nat) (fault : StoreFault)
  | leave (task : Nat)
  | next

namespace Serving

/-- A server that begins its work. -/
def begin (server : Server) (s : ServerState σ) : Serving σ := ⟨server, .ofState s, [], .open⟩

/-- The tasks of a kind. -/
def tasksOf (v : Serving σ) (role : ServingRole) : List (PoolTask ServingAnswer) :=
  (v.pool.tasks.zip v.roles).filterMap fun e => if e.2 = role then some e.1 else none

/-- Whether no task of a kind is under way. -/
def isIdle (v : Serving σ) (role : ServingRole) : Bool :=
  (v.tasksOf role).all PoolTask.hasEnded

/-- Begins a task, if tasks of its kind may begin. -/
def take (store : Store σ) (v : Serving σ) (role : ServingRole) (task : ServerTask ServingAnswer) :
    Serving σ :=
  if v.phase.accepts role then
    { v with pool := v.pool.step store (.start task), roles := v.roles ++ [role] }
  else v

/-- The save that the clock asks for, if it is the clock that asks. -/
def clockSave (v : Serving σ) : ServerTask ServingAnswer :=
  if v.server.settings.savesEveryWrite then .done (.saved (.ok ()))
  else v.server.finalSave.map .saved

/-- Goes on to the next phase, if nothing of this one is under way. -/
def next (store : Store σ) (v : Serving σ) : Serving σ :=
  match v.phase with
  | .open => { v with phase := .endingRequests }
  | .endingRequests => if v.isIdle .request then { v with phase := .endingCalls } else v
  | .endingCalls => if v.isIdle .call then { v with phase := .endingClock } else v
  | .endingClock =>
    if v.isIdle .clock then
      { v with
        pool := v.pool.step store (.start (v.server.finalSave.map .saved))
        phase := .lastSave }
    else v
  | .lastSave => if v.pool.tasks.all PoolTask.hasEnded then { v with phase := .returned } else v
  | .returned => v

/-- Whether a task can be left by the one who asked for it. -/
def canBeLeft (v : Serving σ) (task : Nat) : Bool := v.roles[task]? == some .request

/-- One thing that happens. -/
def step (store : Store σ) (v : Serving σ) : ServingMove → Serving σ
  | .request r => v.take store .request ((v.server.ingest.handle r).map .response)
  | .call c => v.take store .call ((v.server.ingest.call c).map .reply)
  | .tick => v.take store .clock v.clockSave
  | .turn task => { v with pool := v.pool.step store (.turn task) }
  | .land write => { v with pool := v.pool.step store (.land write) }
  | .fail write fault => { v with pool := v.pool.step store (.fail write fault) }
  | .leave task =>
    if v.canBeLeft task then { v with pool := v.pool.step store (.cancel task) } else v
  | .next => v.next store

/-- A course of events. -/
def run (store : Store σ) (v : Serving σ) (moves : List ServingMove) : Serving σ :=
  moves.foldl (step store) v

end Serving
end Metering
