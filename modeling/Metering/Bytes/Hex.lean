import Metering.Bytes.Basic

/-!
Hexadecimal text.

Each byte is two digits, the high half first. Writing uses small letters and reading takes either
case. Main statement: `decode_encode`.
-/
namespace Metering.Hex

/-- The digit of a value below sixteen, in small letters. -/
def digit (n : Nat) : Char :=
  if n < 10 then Char.ofNat (48 + n) else Char.ofNat (87 + n)

/-- The value of a digit, in either case. -/
def value? (c : Char) : Option Nat :=
  if '0' ≤ c ∧ c ≤ '9' then some (c.toNat - 48)
  else if 'a' ≤ c ∧ c ≤ 'f' then some (c.toNat - 87)
  else if 'A' ≤ c ∧ c ≤ 'F' then some (c.toNat - 55)
  else none

/-- Two digits for each byte. -/
def encode (b : Bytes) : List Char :=
  b.flatMap fun x => [digit (x.toNat / 16), digit (x.toNat % 16)]

/-- The bytes that an even number of digits spells. -/
def decode? : List Char → Option Bytes
  | [] => some []
  | [_] => none
  | h :: l :: rest =>
    match value? h, value? l, decode? rest with
    | some a, some b, some bs => some (UInt8.ofNat (16 * a + b) :: bs)
    | _, _, _ => none

/-- The written form as a text. -/
def text (b : Bytes) : String := String.ofList (encode b)

theorem value?_digit {n : Nat} (h : n < 16) : value? (digit n) = some n := by
  rcases n with _ | _ | _ | _ | _ | _ | _ | _ | _ | _ | _ | _ | _ | _ | _ | _ | n
  all_goals first | rfl | omega

theorem decode_encode (b : Bytes) : decode? (encode b) = some b := by
  induction b with
  | nil => rfl
  | cons x rest ih =>
    have hx : x.toNat < 256 := x.toNat_lt
    have hh : value? (digit (x.toNat / 16)) = some (x.toNat / 16) := value?_digit (by omega)
    have hl : value? (digit (x.toNat % 16)) = some (x.toNat % 16) := value?_digit (by omega)
    have hs : 16 * (x.toNat / 16) + x.toNat % 16 = x.toNat := by omega
    simp only [encode, List.flatMap_cons, List.cons_append, List.nil_append, decode?] at ih ⊢
    simp [hh, hl, ih, hs]

end Metering.Hex
