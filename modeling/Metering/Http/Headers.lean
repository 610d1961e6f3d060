import Metering.Net.Address
import Metering.Wire.Payload

/-!
Header fields, and the marks of a payload among them.

A field has a name without regard to case and a value of any bytes but control characters. A
value can be used as text only if it is plain ASCII (`text?`). Where a field is repeated the
first value counts, except for the codings that a caller accepts.

Main statement: a payload with a plain signature is read back from the fields that describe it
(`payload_describe`).
-/
namespace Metering

/-- Header fields in order, with names in lower case. -/
abbrev Headers := List (String × Bytes)

namespace Headers

def contentType : String := "content-type"
def contentEncoding : String := "content-encoding"
def acceptEncoding : String := "accept-encoding"
def signature : String := "hashsha256"
def sealed : String := "x-encrypted"
def realIp : String := "x-real-ip"
def vary : String := "vary"
def allow : String := "allow"

def gzip : String := "gzip"
def json : String := "application/json"
def html : String := "text/html"
def plain : String := "text/plain; charset=utf-8"

/-- Whether a byte can stand in a value. -/
def isValueByte (b : UInt8) : Bool := (0x20 ≤ b && b != 0x7f) || b == 0x09

/-- Whether a byte of a value is plain text. -/
def isTextByte (b : UInt8) : Bool := (0x20 ≤ b && b < 0x7f) || b == 0x09

/-- The text of a value, if it is plain. -/
def plainText? (value : Bytes) : Option String :=
  if value.all isTextByte then some (String.ofList (value.map fun b => Char.ofNat b.toNat)) else none

/-- All values of a field. -/
def values (h : Headers) (name : String) : List Bytes :=
  h.filterMap fun e => if e.1 = name then some e.2 else none

/-- The first value of a field. -/
def get? (h : Headers) (name : String) : Option Bytes := (h.values name).head?

/-- The first value of a field, if it is plain text. -/
def text? (h : Headers) (name : String) : Option String := (h.get? name).bind plainText?

/-- Adds a field at the end. -/
def add (h : Headers) (name : String) (value : String) : Headers :=
  h ++ [(name, Bytes.ofText value)]

/-- Whether the body is marked as sealed. -/
def isSealed (h : Headers) : Bool := h.text? sealed == some "1"

/-- Whether gzip is among the codings of the body. -/
def isGzip (h : Headers) : Bool :=
  match h.text? contentEncoding with
  | some v => (Text.split (· == ',') v).any fun t => Text.lower (Text.trim t) == gzip
  | none => false

/-- Whether a text has another one inside. -/
def mentions (part : List Char) : List Char → Bool
  | [] => part.isEmpty
  | c :: cs => part.isPrefixOf (c :: cs) || mentions part cs

/-- Whether the caller takes gzip. -/
def acceptsGzip (h : Headers) : Bool :=
  (h.values acceptEncoding).any fun v =>
    match plainText? v with
    | some s => mentions gzip.toList s.toList
    | none => false

/-- Whether a body of a given type is worth compressing. -/
def isCompressible (type : Option String) : Bool :=
  match type with
  | none => false
  | some t =>
    let essence := Text.lower (Text.trim (String.ofList (t.toList.takeWhile (· != ';'))))
    essence == json || essence == html

/-- The payload that the fields describe. -/
def payload (h : Headers) (body : Bytes) : Payload :=
  ⟨body, h.text? signature, h.isGzip, h.isSealed⟩

/-- The fields that describe a payload in a request. -/
def describe (p : Payload) (address : Option IpAddress) : Headers :=
  [(contentType, Bytes.ofText json), (acceptEncoding, Bytes.ofText gzip)] ++
    (if p.isCompressed then [(contentEncoding, Bytes.ofText gzip)] else []) ++
    (match p.signature with
      | some s => [(signature, Bytes.ofText s)]
      | none => []) ++
    (if p.isSealed then [(sealed, Bytes.ofText "1")] else []) ++
    (match address with
      | some a => [(realIp, Bytes.ofText a.text)]
      | none => [])

theorem values_add (h : Headers) (added value name : String) :
    (h.add added value).values name =
      h.values name ++ if added = name then [Bytes.ofText value] else [] := by
  unfold add values
  rw [List.filterMap_append]
  split <;> simp [*]

/-- A field that is there once is read as its text. -/
theorem text?_of_values {h : Headers} {name s : String} (hvalues : h.values name = [Bytes.ofText s])
    (hplain : plainText? (Bytes.ofText s) = some s) : h.text? name = some s := by
  unfold text? get?
  rw [hvalues]
  exact hplain

theorem payload_describe {p : Payload} {address : Option IpAddress}
    (h : ∀ s, p.signature = some s → plainText? (Bytes.ofText s) = some s) :
    payload (describe p address) p.body = p := by
  obtain ⟨body, mark, isCompressed, isSealed⟩ := p
  have hone : plainText? (Bytes.ofText "1") = some "1" := by decide +kernel
  have hgz : (Text.split (· == ',') "gzip").any (fun t => Text.lower (Text.trim t) == "gzip") := by
    decide +kernel
  have hgzip : plainText? (Bytes.ofText "gzip") = some "gzip" := by decide +kernel
  cases isCompressed <;> cases isSealed <;> cases mark <;> cases address <;>
    simp [payload, describe, text?, get?, values, Headers.isGzip, Headers.isSealed, contentType,
      acceptEncoding, contentEncoding, signature, sealed, realIp, gzip, hone, hgzip, hgz] <;>
    exact h _ rfl

end Headers
end Metering
