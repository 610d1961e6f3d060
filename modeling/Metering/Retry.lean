/-!
Trying again on a fixed schedule.

A schedule is a list of waits in milliseconds. A call that fails with a fault worth retrying is
made again after the next wait, until the list is used up; the last answer counts.
-/
namespace Metering

/-- The waits between the calls of one run, in milliseconds. -/
structure RetrySchedule where
  waits : List Nat
deriving DecidableEq, Repr

namespace RetrySchedule

/-- Four calls, with growing waits between them. -/
def standard : RetrySchedule := ⟨[1000, 3000, 5000]⟩

/-- One call. -/
def once : RetrySchedule := ⟨[]⟩

/-- The greatest number of calls. -/
def maxCalls (s : RetrySchedule) : Nat := s.waits.length + 1

end RetrySchedule

/-- How a run went: its last answer, the state it left and the waits it took. -/
structure RetryRun (ε α σ : Type) where
  answer : Except ε α
  state : σ
  waited : List Nat

namespace RetryRun

/-- How many calls were made. -/
def calls (r : RetryRun ε α σ) : Nat := r.waited.length + 1

/-- How long the run waited in all. -/
def elapsed (r : RetryRun ε α σ) : Nat := r.waited.foldr (· + ·) 0

/-- The running sums of a list of waits, from a given time on. -/
def times (start : Nat) : List Nat → List Nat
  | [] => [start]
  | w :: ws => start :: times (start + w) ws

/-- When each call was made, if calls take no time. -/
def callTimes (r : RetryRun ε α σ) : List Nat := times 0 r.waited

end RetryRun

/-- Makes a call, and again after each wait while its fault is worth it. What a wait does to the
state, such as moving its clock, is up to `pause`. -/
def retry (worth : ε → Bool) (pause : Nat → σ → σ) (call : σ → Except ε α × σ) :
    List Nat → σ → RetryRun ε α σ
  | [], s =>
    let (answer, s) := call s
    ⟨answer, s, []⟩
  | w :: ws, s =>
    match call s with
    | (.ok a, s) => ⟨.ok a, s, []⟩
    | (.error e, s) =>
      if worth e then
        let rest := retry worth pause call ws (pause w s)
        ⟨rest.answer, rest.state, w :: rest.waited⟩
      else ⟨.error e, s, []⟩

/-- A state on which waiting leaves no trace. -/
def untimed (_ : Nat) (s : σ) : σ := s

end Metering
