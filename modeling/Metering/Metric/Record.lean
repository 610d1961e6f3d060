import Metering.Metric.Basic
import Metering.Json.Reader
import Metering.Json.Shape

/-!
The record that carries a metric in JSON.

A gauge has its reading in `value`, a counter its difference in `delta`, and a question about a
metric has neither. The record admits any mixture of the two fields; only `toUpdate` says which
one its kind needs.

Main statements: the record of an update becomes that update again, if its id is not empty
(`toUpdate_ofUpdate`), and no other update (`toUpdate_eq_ok`).
-/
namespace Metering

/-- A metric as it is sent, stored in the file and answered. -/
structure Metric where
  id : String
  kind : Kind
  delta : Option Int64
  value : Option Binary64
deriving DecidableEq, Repr

namespace Metric

/-- A question about a metric: no value. -/
def query (id : String) (kind : Kind) : Metric := ⟨id, kind, none, none⟩

/-- The record of an update. -/
def ofUpdate (u : Update) : Metric :=
  match u.value with
  | .gauge x => ⟨u.id, .gauge, none, some x⟩
  | .counter d => ⟨u.id, .counter, some d, none⟩

/-- The update that a record asks for. The empty id is refused first. -/
def toUpdate (m : Metric) : Except Failure Update :=
  if m.id = "" then .error (.invalid .emptyId)
  else match m.kind with
    | .gauge =>
      match m.value with
      | some x => .ok ⟨m.id, .gauge x⟩
      | none => .error (.invalid (.gaugeWithoutValue m.id))
    | .counter =>
      match m.delta with
      | some d => .ok ⟨m.id, .counter d⟩
      | none => .error (.invalid (.counterWithoutDelta m.id))

/-- Equality of what the records say, with readings compared as numbers. -/
def sameAs (a b : Metric) : Bool :=
  a.id == b.id && a.kind == b.kind && a.delta == b.delta &&
    match a.value, b.value with
    | none, none => true
    | some x, some y => x.sameValue y
    | _, _ => false

/-! ## JSON -/

/-- The document of a record; a field that is not set is left out. -/
def toJson (m : Metric) : Json :=
  .object <|
    [("id", .text m.id), ("type", .text m.kind.name)] ++
      (m.delta.map fun d => ("delta", Json.int d.toInt)).toList ++
      (m.value.map fun x => ("value", Json.binary x)).toList

/-- The document of a list of records. -/
def listToJson (ms : List Metric) : Json := .list (ms.map toJson)

/-- What of a record has been read so far. A field that was `null` counts as read. -/
structure Draft where
  id : Option String
  kind : Option Kind
  delta : Option (Option Int64)
  value : Option (Option Binary64)

namespace Draft

def blank : Draft := ⟨none, none, none, none⟩

/-- The record of a draft, or the name of the first field that it lacks. -/
def build (d : Draft) : Except String Metric :=
  match d.id, d.kind with
  | none, _ => .error "id"
  | _, none => .error "type"
  | some id, some kind => .ok ⟨id, kind, d.delta.join, d.value.join⟩

end Draft

/-- The whole number that a counter's difference must be. -/
def acceptDelta (n : JsonNumber) : Except JsonReason Int64 := Json.acceptInt64 n

/-- The number of a reading. -/
def acceptReading (n : JsonNumber) : Except JsonReason Binary64 := .ok (Json.acceptBinary n)

open JsonReader in
/-- How a record is read from a text. -/
def shape : RecordShape Draft Metric where
  name := "Metric"
  fields :=
    [⟨"id", fun d => d.id.isSome, fun d => do return { d with id := some (← text) }⟩,
     ⟨"type", fun d => d.kind.isSome, fun d => do
        let name ← variant Kind.names
        return { d with kind := Kind.ofName? name }⟩,
     ⟨"delta", fun d => d.delta.isSome, fun d => do
        return { d with delta := some (← optional (numberOf "i64" acceptDelta)) }⟩,
     ⟨"value", fun d => d.value.isSome, fun d => do
        return { d with value := some (← optional (numberOf "f64" acceptReading)) }⟩]
  least := 2
  blank := Draft.blank
  build := Draft.build

/-- Reads a record. -/
def reader : JsonReader Metric := JsonReader.record shape

/-- The record that a text holds. -/
def decode (text : Bytes) : Except JsonFault Metric := JsonReader.run reader text

/-- The list of records that a text holds. -/
def decodeList (text : Bytes) : Except JsonFault (List Metric) :=
  JsonReader.run (JsonReader.list reader) text

/-- A record as a text. -/
def encode (m : Metric) : Bytes := m.toJson.write

/-- A list of records as a text. -/
def encodeList (ms : List Metric) : Bytes := (listToJson ms).write

/-- The record that a document holds, without places in its faults. Members are looked at in the
order of the document. -/
def ofJson (j : Json) : Except JsonReason Metric :=
  JsonShape.record "Metric" 2
    [("id", fun d v => do return { d with id := some (← JsonShape.text v) }),
     ("type", fun d v => do
        let name ← JsonShape.variant Kind.names v
        return { d with kind := Kind.ofName? name }),
     ("delta", fun d v => do
        return { d with delta := some (← JsonShape.optional (JsonShape.numberOf "i64" acceptDelta) v) }),
     ("value", fun d v => do
        return { d with value := some (← JsonShape.optional (JsonShape.numberOf "f64" acceptReading) v) })]
    Draft.blank Draft.build j

/-! ## Laws -/

theorem toUpdate_ofUpdate {u : Update} (h : u.id ≠ "") : (ofUpdate u).toUpdate = .ok u := by
  obtain ⟨id, value⟩ := u
  cases value <;> simp_all [ofUpdate, toUpdate]

theorem toUpdate_eq_ok {m : Metric} {u : Update} (h : m.toUpdate = .ok u) :
    u.id = m.id ∧ u.value.kind = m.kind ∧ m.id ≠ "" := by
  unfold toUpdate at h
  split at h
  · simp at h
  · rename_i hid
    split at h <;> split at h <;> simp at h <;> subst h <;> simp_all [Value.kind]

end Metric
end Metering
