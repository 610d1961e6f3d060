import Metering.Failure.Basic

/-!
Why a store or its snapshot file fails.

Only a transient fault may pass when the call is made again. The counters that would leave their
range are named with both numbers.
-/
namespace Metering

/-- What can be done about a fault of a store. -/
inductive StoreFaultKind
  | transient
  | fatal
  | counterOverflow
  | snapshot
deriving DecidableEq, Repr

/-- What a fault of a store is about. -/
inductive StoreCause
  /-- A text that comes from outside and is passed on. -/
  | stated (text : String)
  | overflow (id : String) (current delta : Int64)
  | readFile (path : String) (fault : IoFault)
  | parseFile (path : String) (fault : JsonFault)
  | badRecord (path : String) (failure : Failure)
  | temporaryFile (folder temporary : String) (fault : IoFault)
  | replaceFile (path : String) (fault : IoFault)
  | badConnectionString (reason : String)
deriving DecidableEq, Repr

/-- A fault of a store. -/
structure StoreFault where
  kind : StoreFaultKind
  cause : StoreCause
deriving DecidableEq, Repr

namespace StoreFaultKind

/-- The opening words of every fault of the kind. -/
def title : StoreFaultKind → String
  | transient => "Transient storage error"
  | fatal => "Storage error"
  | counterOverflow => "Counter overflow"
  | snapshot => "Snapshot file error"

end StoreFaultKind

namespace StoreCause

/-- A counter in decimal. -/
def shown (d : Int64) : String := String.ofList (Digits.ofInt d.toInt)

/-- The wording of each cause. -/
def message : StoreCause → String
  | stated text => text
  | overflow id current delta => s!"{id}: {shown current} + {shown delta} exceeds i64"
  | readFile path fault => s!"read {path}: {fault.message}"
  | parseFile path fault => s!"parse {path}: {fault.message}"
  | badRecord path failure => s!"{path}: {failure.message}"
  | temporaryFile folder temporary fault =>
    s!"create temp file in {folder}: {fault.message} at path {Text.quoted temporary}"
  | replaceFile path fault => s!"persist {path}: {fault.message}"
  | badConnectionString reason => s!"error with configuration: {reason}"

end StoreCause

namespace StoreFault

def message (f : StoreFault) : String := s!"{f.kind.title}: {f.cause.message}"

/-- Whether making the call again may help. -/
def isTransient (f : StoreFault) : Bool := f.kind == .transient

def overflow (id : String) (current delta : Int64) : StoreFault :=
  ⟨.counterOverflow, .overflow id current delta⟩

def snapshot (cause : StoreCause) : StoreFault := ⟨.snapshot, cause⟩

end StoreFault
end Metering
