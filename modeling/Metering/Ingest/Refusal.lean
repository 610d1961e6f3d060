import Metering.Store.Fault

/-!
Why a request is not carried out, and the status of the answer.

A request is refused for what was sent or for what the store reports. What the peer sent is the
peer's fault (status 400), with statuses of their own for a metric that is not known and for a
caller who may not. A counter that would leave its range is the peer's fault as well; every other
fault is this side's.
-/
namespace Metering

/-- Why a request is not carried out. -/
inductive Refusal
  | failure (f : Failure)
  | fault (f : StoreFault)
deriving DecidableEq, Repr

namespace Refusal

def message : Refusal → String
  | failure f => f.message
  | fault f => f.message

/-- The status of an answer that reports a failure. -/
def statusOf (f : Failure) : Nat :=
  match f.kind with
  | .notFound => 404
  | .forbidden => 403
  | kind => if kind.blamesPeer then 400 else 500

/-- The status of the answer. -/
def status : Refusal → Nat
  | failure f => statusOf f
  | fault f => if f.kind = .counterOverflow then 400 else 500

/-- A refusal is never answered as a success. -/
theorem status_ge (r : Refusal) : 400 ≤ r.status := by
  cases r with
  | failure f =>
    simp only [status, statusOf]
    split
    · decide
    · decide
    · split <;> decide
  | fault f =>
    simp only [status]
    split <;> decide

end Refusal
end Metering
