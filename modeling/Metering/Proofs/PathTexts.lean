import Metering.Ingest.Route
import Metering.Proofs.RequestMarks
import Metering.Proofs.ValueTexts

/-!
Texts in paths.

A part of a path can spell any text: bytes that mean something in a path are written with a percent
sign (`Percent.escape`), and there may be many spellings of one text.

Results:
1. `Percent.decode_encode`: bytes are read back from their escapes.
2. `Resource.spells_escape`: every text has a spelling without slashes.
3. `Resource.ofPath?_valuePath`: where a path with such a spelling leads.
4. `Uri.parse_valuePath`: the path with the escapes is an address, if it is not too long.
-/
namespace Metering

/-! ## 1. Escapes -/

namespace Percent

/-- A byte that stands for itself in a part of a path: a letter, a digit or one of `-._~`. -/
def isUnreserved (b : UInt8) : Bool :=
  Uri.isAlphanumeric b || b == 0x2d || b == 0x2e || b == 0x5f || b == 0x7e

/-- A byte as itself, or as a percent sign and two digits. -/
def encodeByte (b : UInt8) : List Char :=
  if isUnreserved b then [Char.ofNat b.toNat]
  else ['%', Hex.digit (b.toNat / 16), Hex.digit (b.toNat % 16)]

def encode (b : Bytes) : List Char := b.flatMap encodeByte

/-- A text as a part of a path. -/
def escape (s : String) : String := String.ofList (encode (Bytes.ofText s))

/-- A character that can stand in a path and does not end a part of it. -/
def IsPartChar (c : Char) : Prop :=
  c.toNat < 0x7f ∧ c ≠ '/' ∧ Uri.isPathByte (UInt8.ofNat c.toNat) = true

instance (c : Char) : Decidable (IsPartChar c) := instDecidableAnd

/-- The characters of an escape can stand in a path, and none is a slash. -/
theorem encodeByte_chars (b : UInt8) : ∀ c ∈ encodeByte b, IsPartChar c := by
  have hall : ∀ b, (encodeByte b).all (fun c => decide (IsPartChar c)) = true :=
    Bytes.forall_byte (by decide +kernel)
  exact fun c hc => of_decide_eq_true (List.all_eq_true.mp (hall b) c hc)

theorem encode_chars (b : Bytes) : ∀ c ∈ encode b, IsPartChar c := by
  intro c hc
  obtain ⟨x, -, hx⟩ := List.mem_flatMap.mp hc
  exact encodeByte_chars x c hx

/-- No byte gets lost among its escapes. -/
theorem length_le_encode (b : Bytes) : b.length ≤ (encode b).length := by
  induction b with
  | nil => exact Nat.le_refl _
  | cons x b ih =>
    have hpos : 0 < (encodeByte x).length := by
      unfold encodeByte
      split <;> exact Nat.succ_pos _
    have hcons : encode (x :: b) = encodeByte x ++ encode b := rfl
    rw [hcons, List.length_append, List.length_cons]
    omega

/-- A byte stands for itself and is not the percent sign, or two digits spell it. -/
theorem encodeByte_cases (b : UInt8) :
    ((encodeByte b).map (fun c => UInt8.ofNat c.toNat) = [b] ∧ b ≠ 0x25) ∨
      ∃ h l x y, (encodeByte b).map (fun c => UInt8.ofNat c.toNat) = [0x25, h, l] ∧
        digit? h = some x ∧ digit? l = some y ∧ UInt8.ofNat (16 * x + y) = b := by
  have hall : ∀ n < 256,
      ((encodeByte (UInt8.ofNat n)).map (fun c => UInt8.ofNat c.toNat) = [UInt8.ofNat n] ∧
        UInt8.ofNat n ≠ 0x25) ∨
      ((encodeByte (UInt8.ofNat n)).map (fun c => UInt8.ofNat c.toNat) =
          [0x25, UInt8.ofNat (Hex.digit (n / 16)).toNat, UInt8.ofNat (Hex.digit (n % 16)).toNat] ∧
        digit? (UInt8.ofNat (Hex.digit (n / 16)).toNat) = some (n / 16) ∧
        digit? (UInt8.ofNat (Hex.digit (n % 16)).toNat) = some (n % 16) ∧
        UInt8.ofNat (16 * (n / 16) + n % 16) = UInt8.ofNat n) := by decide +kernel
  have hb := hall b.toNat b.toNat_lt
  rw [UInt8.ofNat_toNat] at hb
  rcases hb with hself | ⟨htext, hhigh, hlow, hvalue⟩
  · exact .inl hself
  · exact .inr ⟨_, _, _, _, htext, hhigh, hlow, hvalue⟩

theorem decode_of_ne {b : UInt8} (h : b ≠ 0x25) (rest : Bytes) :
    decode (b :: rest) = b :: decode rest := by
  rw [decode.eq_def]
  split
  next heq => exact absurd (List.cons.inj heq).1 h
  next heq =>
    obtain ⟨rfl, rfl⟩ := List.cons.inj heq
    rfl
  next heq => cases heq

theorem decode_of_digits {h l : UInt8} {x y : Nat} (hx : digit? h = some x)
    (hy : digit? l = some y) (rest : Bytes) :
    decode (0x25 :: h :: l :: rest) = UInt8.ofNat (16 * x + y) :: decode rest := by
  rw [decode, hx, hy]

/-- Bytes are read back from their escapes. -/
theorem decode_encode (b : Bytes) : decode ((encode b).map fun c => UInt8.ofNat c.toNat) = b := by
  induction b with
  | nil => rw [encode, List.flatMap_nil, List.map_nil, decode]
  | cons x b ih =>
    have hcons : encode (x :: b) = encodeByte x ++ encode b := rfl
    rw [hcons, List.map_append]
    rcases encodeByte_cases x with ⟨hself, hne⟩ | ⟨h, l, high, low, htext, hhigh, hlow, hvalue⟩
    · rw [hself, List.singleton_append, decode_of_ne hne, ih]
    · rw [htext, List.cons_append, List.cons_append, List.cons_append, List.nil_append,
        decode_of_digits hhigh hlow, hvalue, ih]

theorem ofText_escape (s : String) :
    Bytes.ofText (escape s) = (encode (Bytes.ofText s)).map fun c => UInt8.ofNat c.toNat :=
  Text.ofText_ofList _ fun c hc => (encode_chars _ c hc).1

end Percent

/-! ## 2. Parts of paths -/

namespace Text

/-- The first part of a text ends at the first separator. -/
theorem splitChars_append {p : Char → Bool} {part : List Char} (hpart : ∀ c ∈ part, p c = false)
    {c : Char} (hc : p c = true) (rest : List Char) :
    splitChars p (part ++ c :: rest) = part :: splitChars p rest := by
  induction part with
  | nil => exact if_pos hc
  | cons d part ih =>
    obtain ⟨hd, hpart⟩ := List.forall_mem_cons.mp hpart
    rw [List.cons_append, splitChars, if_neg (by rw [hd]; decide), ih hpart]

/-- Without a separator there is one part. -/
theorem splitChars_self {p : Char → Bool} {part : List Char} (hpart : ∀ c ∈ part, p c = false) :
    splitChars p part = [part] := by
  induction part with
  | nil => rfl
  | cons d part ih =>
    obtain ⟨hd, hpart⟩ := List.forall_mem_cons.mp hpart
    rw [splitChars, if_neg (by rw [hd]; decide), ih hpart]

end Text

namespace Resource

/-- A part of a path spells a text: it has no slash, and it stands for the bytes of the text. -/
structure Spells (raw s : String) : Prop where
  noSlash : '/' ∉ raw.toList
  part_eq (name : String) : part name raw = .ok s

/-- Every text has a spelling. -/
theorem spells_escape (s : String) : Spells (Percent.escape s) s where
  noSlash h := by
    rw [Percent.escape, String.toList_ofList] at h
    exact (Percent.encode_chars _ _ h).2.1 rfl
  part_eq name := by
    unfold part
    rw [Percent.ofText_escape, Percent.decode_encode, Bytes.toText?_ofText]

/-- Only the empty part spells the empty text. -/
theorem Spells.ne_empty {raw s : String} (h : Spells raw s) (hs : s ≠ "") : raw ≠ "" := by
  rintro rfl
  have hempty : part "id" "" = .ok "" := by decide +kernel
  exact hs (Except.ok.inj ((h.part_eq "id").symm.trans hempty))

/-- The name of a kind spells itself. -/
theorem part_name (kind : Kind) (name : String) : part name kind.name = .ok kind.name := by
  have htext : Bytes.toText? (Percent.decode (Bytes.ofText kind.name)) = some kind.name := by
    cases kind <;> decide +kernel
  unfold part
  rw [htext]

/-- The path of the value of a metric. -/
def valuePath (kind : Kind) (raw : String) : String := "/value/" ++ kind.name ++ "/" ++ raw

theorem split_valuePath (kind : Kind) {raw : String} (h : '/' ∉ raw.toList) :
    Text.split (· == '/') (valuePath kind raw) = ["", "value", kind.name, raw] := by
  have hraw : ∀ c ∈ raw.toList, (c == '/') = false := fun c hc =>
    beq_eq_false_iff_ne.mpr fun heq => h (heq ▸ hc)
  have hname : ∀ c ∈ kind.name.toList, (c == '/') = false := by cases kind <;> simp [Kind.name]
  have hvalue : ∀ c ∈ ['v', 'a', 'l', 'u', 'e'], (c == '/') = false := by simp
  have hnone : ∀ c ∈ ([] : List Char), (c == '/') = false := fun c hc => nomatch hc
  have hpath : (valuePath kind raw).toList =
      [] ++ '/' :: (['v', 'a', 'l', 'u', 'e'] ++
        '/' :: (kind.name.toList ++ '/' :: raw.toList)) := by
    unfold valuePath
    simp
  unfold Text.split
  rw [hpath, Text.splitChars_append hnone rfl, Text.splitChars_append hvalue rfl,
    Text.splitChars_append hname rfl, Text.splitChars_self hraw]
  simp

/-- Where the path of a value leads. -/
theorem ofPath?_valuePath (kind : Kind) {raw id : String} (h : Spells raw id) (hid : id ≠ "") :
    ofPath? (valuePath kind raw) = some (.valueAt kind.name raw) := by
  unfold ofPath?
  rw [split_valuePath kind h.noSlash]
  cases kind <;> simp [Kind.name, h.ne_empty hid]

/-- The characters in front of the id can all stand in a path. -/
theorem valueFront_chars (kind : Kind) : ∀ c ∈ ("/value/" ++ kind.name ++ "/").toList,
    c.toNat < 0x7f ∧ Uri.isPathByte (UInt8.ofNat c.toNat) = true := by
  have hall : ("/value/" ++ kind.name ++ "/").toList.all (fun c =>
      decide (c.toNat < 0x7f) && Uri.isPathByte (UInt8.ofNat c.toNat)) = true := by
    cases kind <;> decide
  intro c hc
  have hboth := Bool.and_eq_true_iff.mp (List.all_eq_true.mp hall c hc)
  exact ⟨of_decide_eq_true hboth.1, hboth.2⟩

/-- The bytes of the path of a value. -/
theorem ofText_valuePath (kind : Kind) (id : String) :
    Bytes.ofText (valuePath kind (Percent.escape id)) =
      (("/value/" ++ kind.name ++ "/").toList ++ Percent.encode (Bytes.ofText id)).map
        fun c => UInt8.ofNat c.toNat := by
  have hchars : valuePath kind (Percent.escape id) =
      String.ofList (("/value/" ++ kind.name ++ "/").toList ++
        Percent.encode (Bytes.ofText id)) := by
    rw [String.ofList_append, String.ofList_toList]
    rfl
  rw [hchars]
  refine Text.ofText_ofList _ fun c hc => ?_
  rcases List.mem_append.mp hc with hc | hc
  · exact (valueFront_chars kind c hc).1
  · exact (Percent.encode_chars _ c hc).1

theorem isPathByte_valuePath (kind : Kind) (id : String) :
    ∀ b ∈ Bytes.ofText (valuePath kind (Percent.escape id)), Uri.isPathByte b = true := by
  rw [ofText_valuePath]
  intro b hb
  obtain ⟨c, hc, rfl⟩ := List.mem_map.mp hb
  rcases List.mem_append.mp hc with hc | hc
  · exact (valueFront_chars kind c hc).2
  · exact (Percent.encode_chars _ c hc).2.2

end Resource

namespace Uri

/-- What ends a path is not part of it. -/
theorem ne_of_isPathByte {b : UInt8} (h : isPathByte b = true) :
    (b != 0x3f && b != 0x23) = true := by
  have hall : ∀ b, isPathByte b = true → (b != 0x3f && b != 0x23) = true :=
    Bytes.forall_byte (by decide +kernel)
  exact hall b h

/-- A path without a query. -/
theorem pathAndQuery_of_isPathByte {s : String}
    (h : ∀ b ∈ Bytes.ofText s, isPathByte b = true) :
    pathAndQuery (Bytes.ofText s) = .ok (s, none) := by
  have hpath : (Bytes.ofText s).takeWhile (fun x => x != 0x3f && x != 0x23) = Bytes.ofText s := by
    have hstop : ∀ x : UInt8, ([] : Bytes).head? = some x → (x != 0x3f && x != 0x23) = false :=
      fun x hx => nomatch hx
    have hrun := HeadRuns.takeWhile_append (fun b hb => ne_of_isPathByte (h b hb)) hstop
    rwa [List.append_nil] at hrun
  have hall : (Bytes.ofText s).all isPathByte = true := List.all_eq_true.mpr h
  have htext : textOf (Bytes.ofText s) = .ok s := by
    unfold textOf
    rw [Bytes.toText?_ofText]
  unfold pathAndQuery
  simp only [hpath, hall, List.drop_length, htext]
  rfl

/-- The path of a value is an address, if it is not too long. -/
theorem parse_valuePath (kind : Kind) (id : String)
    (h : (Bytes.ofText (Resource.valuePath kind (Percent.escape id))).length ≤ maxLength) :
    parse (Resource.valuePath kind (Percent.escape id)) =
      .ok ⟨none, "", Resource.valuePath kind (Percent.escape id), none⟩ := by
  have hpath := pathAndQuery_of_isPathByte (Resource.isPathByte_valuePath kind id)
  have hhead : (Bytes.ofText (Resource.valuePath kind (Percent.escape id))).head? =
      some 0x2f := by
    rw [Resource.ofText_valuePath]
    cases kind <;> rfl
  generalize Resource.valuePath kind (Percent.escape id) = path at h hpath hhead ⊢
  unfold parse
  cases hbytes : Bytes.ofText path with
  | nil =>
    rw [hbytes] at hhead
    cases hhead
  | cons b bs =>
    rw [hbytes] at h hpath hhead
    have hstar : b :: bs ≠ [0x2a] := by
      rintro heq
      rw [heq] at hhead
      cases hhead
    simp only [if_neg (Nat.not_lt.mpr h), if_neg (List.cons_ne_nil b bs), if_neg hstar,
      if_pos hhead, hpath]
    rfl

end Uri
end Metering
