import Metering.Failure.Basic
import Metering.Number.Text

/-!
Metrics: gauges that are replaced and counters that add up.

The two kinds are namespaces of their own, so an id can name a gauge and a counter at once. An
update carries a reading for a gauge or a difference for a counter. Main statement: the text of
an update's value is read back as that value, for every counter (`parse_text_counter`).
-/
namespace Metering

/-- The two namespaces. -/
inductive Kind
  | gauge
  | counter
deriving DecidableEq, Repr

namespace Kind

def name : Kind → String
  | gauge => "gauge"
  | counter => "counter"

/-- The names that a kind can have, in the order in which they are listed. -/
def names : List String := ["gauge", "counter"]

/-- The kind of a given name. -/
def ofName? (s : String) : Option Kind :=
  if s = "gauge" then some gauge else if s = "counter" then some counter else none

/-- The kind that a request names. -/
def parse (s : String) : Except Failure Kind :=
  match ofName? s with
  | some k => .ok k
  | none => .error (.invalid (.unknownKind s))

theorem ofName?_name (k : Kind) : ofName? k.name = some k := by cases k <;> rfl

end Kind

/-- A reading that replaces a gauge, or a difference that is added to a counter. -/
inductive Value
  | gauge (reading : Binary64)
  | counter (delta : Int64)
deriving DecidableEq, Repr

namespace Counter

/-- Whether a whole number is within the range of counters. -/
def fits (i : Int) : Bool := decide (-0x8000000000000000 ≤ i ∧ i < 0x8000000000000000)

/-- A whole number as a counter, if it is within their range. -/
def ofInt? (i : Int) : Option Int64 := if fits i then some (.ofInt i) else none

/-- The sum, if it is within the range of counters. -/
def add? (a b : Int64) : Option Int64 := ofInt? (a.toInt + b.toInt)

theorem ofInt?_toInt (d : Int64) : ofInt? d.toInt = some d := by
  have h1 := d.le_toInt
  have h2 := d.toInt_lt
  simp only [ofInt?, fits, decide_eq_true_eq]
  rw [if_pos ⟨by omega, by omega⟩]
  simp

theorem toInt_of_ofInt? {i : Int} {d : Int64} (h : ofInt? i = some d) : d.toInt = i := by
  simp only [ofInt?, fits, decide_eq_true_eq] at h
  split at h
  · rename_i hi
    obtain rfl := Option.some.inj h
    exact Int64.toInt_ofInt_of_le (by omega) (by omega)
  · simp at h

end Counter

namespace Value

def kind : Value → Kind
  | gauge _ => .gauge
  | counter _ => .counter

/-- The value that a text spells for a kind. A gauge must be finite. -/
def parse (kind : Kind) (raw : String) : Except Failure Value :=
  match kind with
  | .gauge =>
    match Binary64.ofText? raw with
    | some x => if x.isFinite then .ok (gauge x) else .error (.invalid (.gaugeText raw))
    | none => .error (.invalid (.gaugeText raw))
  | .counter =>
    match (Digits.readInt? raw.toList).bind Counter.ofInt? with
    | some d => .ok (counter d)
    | none => .error (.invalid (.counterText raw))

/-- The shortest text that is read back as the value. -/
def text : Value → String
  | gauge x => x.text
  | counter d => String.ofList (Digits.ofInt d.toInt)

/-- Whether JSON can carry the value: it has no form for infinity. -/
def isEncodable : Value → Bool
  | gauge x => x.isFinite
  | counter _ => true

end Value

/-- A value for the metric of a given id. -/
structure Update where
  id : String
  value : Value
deriving DecidableEq, Repr

theorem Value.parse_text_counter (d : Int64) :
    Value.parse .counter (Value.counter d).text = .ok (.counter d) := by
  simp [Value.parse, Value.text, Digits.readInt?_ofInt, Counter.ofInt?_toInt]

end Metering
