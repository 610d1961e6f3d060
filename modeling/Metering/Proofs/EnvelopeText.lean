import Metering.Proofs.JsonDocuments
import Metering.Proofs.JsonYields
import Metering.Rpc.Envelope

/-!
The texts of calls and replies.

A text that was written without blanks has no byte below the blank, and the text of a reply starts
with the key of its number. A text that does not start with a bracket holds no record. What is
read back may be refused, since arguments and results can nest deeper than a reader goes; but if
it is not, it bears the number that was written.

Results:
1. `Json.visible_write`: no control character stands in a written document.
2. `JsonReader.of_first_member`: what the first member of a record settles.
3. `RpcCall.id_of_decode_encode`, `RpcReply.id_of_decode_encode`: the number survives.
4. `RpcReply.encode_head`, `RpcReply.not_decode_of_head`: where the text of a reply can start.
-/
namespace Metering

open JsonReader

/-! ## 1. Bytes of a document -/

namespace Json

/-- No byte stands below the blank. -/
def Visible (b : Bytes) : Prop := ∀ x ∈ b, 0x20 ≤ x

instance (b : Bytes) : Decidable (Visible b) := List.decidableBAll (fun x => 0x20 ≤ x) b

theorem Visible.append {a b : Bytes} (ha : Visible a) (hb : Visible b) : Visible (a ++ b) :=
  List.forall_mem_append.mpr ⟨ha, hb⟩

theorem Visible.cons {x : UInt8} {b : Bytes} (hx : 0x20 ≤ x) (hb : Visible b) :
    Visible (x :: b) := List.forall_mem_cons.mpr ⟨hx, hb⟩

theorem visible_escapeByte : ∀ b, Visible (escapeByte b) := Bytes.forall_byte (by decide +kernel)

theorem visible_quote (s : String) : Visible (quote s) := by
  have hbody : Visible ((Bytes.ofText s).flatMap escapeByte) := by
    intro x hx
    obtain ⟨b, -, hx⟩ := List.mem_flatMap.mp hx
    exact visible_escapeByte b x hx
  exact .cons (by decide) (hbody.append (.cons (by decide) fun _ h => nomatch h))

/-- The characters of numbers and of the word for none. -/
def numberChars : List Char := ['-', '+', '.', 'e', 'n', 'u', 'l']

end Json

/-- The characters of a number that is not whole. -/
theorem NumberParts.Sound.mem_text {p : NumberParts} (hp : p.Sound) {c : Char} (hc : c ∈ p.text) :
    c.isDigit = true ∨ c ∈ Json.numberChars := by
  unfold NumberParts.text at hc
  rcases List.mem_append.mp hc with hc | hexponent
  · rcases List.mem_append.mp hc with hwhole | hfraction
    · exact .inl (hp.isDigit_whole c hwhole)
    · unfold NumberParts.fractionText at hfraction
      split at hfraction
      next => cases hfraction
      next =>
        rcases List.mem_cons.mp hfraction with rfl | hdigit
        · exact .inr (by decide)
        · exact .inl (hp.isDigit_fraction c hdigit)
  · unfold NumberParts.exponentText at hexponent
    split at hexponent
    next => cases hexponent
    next =>
      rcases List.mem_cons.mp hexponent with rfl | hexponent
      · exact .inr (by decide)
      rcases List.mem_cons.mp hexponent with rfl | hdigit
      · split <;> exact .inr (by decide)
      · exact .inl (Digits.isDigit_of_mem_toDigits hdigit)

namespace Json

theorem mem_numberText {n : JsonNumber} {c : Char} (hc : c ∈ numberText n) :
    c.isDigit = true ∨ c ∈ numberChars := by
  cases n with
  | natural k => exact .inl (Digits.isDigit_of_mem_toDigits hc)
  | negative i =>
    cases i with
    | ofNat k => exact .inl (Digits.isDigit_of_mem_toDigits hc)
    | negSucc k =>
      rcases List.mem_cons.mp hc with rfl | hc
      · exact .inr (by decide)
      · exact .inl (Digits.isDigit_of_mem_toDigits hc)
  | binary x =>
    rw [numberText] at hc
    split at hc
    next hx =>
      obtain ⟨p, htext, hsound, -⟩ := NumberStyle.finite_parts numberStyle hx
      rw [htext] at hc
      rcases List.mem_append.mp hc with hsign | hc
      · split at hsign
        next =>
          obtain rfl := List.mem_singleton.mp hsign
          exact .inr (by decide)
        next => cases hsign
      · exact hsound.mem_text hc
    next =>
      have hnull : ['n', 'u', 'l', 'l'].all (numberChars.contains ·) := by decide
      exact .inr (List.contains_iff_mem.mp (List.all_eq_true.mp hnull c hc))

/-- What holds of the digits and of the other characters of numbers holds of every byte of a
number. -/
theorem forall_numberText {P : UInt8 → Prop} [DecidablePred P]
    (hdigit : ∀ b, JsonReader.isDigit b = true → P b)
    (hchars : numberChars.all (fun c => decide (P (UInt8.ofNat c.toNat))) = true)
    (n : JsonNumber) : ∀ b ∈ ascii (numberText n), P b := by
  intro b hb
  obtain ⟨c, hc, rfl⟩ := List.mem_map.mp hb
  rcases mem_numberText hc with hc | hc
  · exact hdigit _ (digit_byte hc).1
  · exact of_decide_eq_true (List.all_eq_true.mp hchars c hc)

theorem visible_numberText (n : JsonNumber) : Visible (ascii (numberText n)) := by
  refine forall_numberText (fun b hb => ?_) (by decide) n
  unfold JsonReader.isDigit at hb
  rw [Bool.and_eq_true] at hb
  exact UInt8.le_trans (by decide) (of_decide_eq_true hb.1)

mutual

/-- A document is written without control characters. -/
theorem visible_write : ∀ j : Json, Visible j.write
  | .null => by unfold write; decide
  | .bool true => by unfold write; decide
  | .bool false => by unfold write; decide
  | .number n => by rw [write]; exact visible_numberText n
  | .text s => by rw [write]; exact visible_quote s
  | .list [] => by unfold write; decide
  | .list (x :: xs) => by
    rw [write]
    exact .append (.cons (by decide) (visible_write x)) (visible_writeItems xs)
  | .object [] => by unfold write; decide
  | .object ((k, v) :: ms) => by
    rw [write]
    exact .append (.append (.cons (by decide) (visible_quote k))
      (.cons (by decide) (visible_write v))) (visible_writeMembers ms)

theorem visible_writeItems : ∀ xs : List Json, Visible (writeItems xs)
  | [] => by unfold writeItems; decide
  | x :: xs => by
    rw [writeItems]
    exact .append (.cons (by decide) (visible_write x)) (visible_writeItems xs)

theorem visible_writeMembers : ∀ ms : List (String × Json), Visible (writeMembers ms)
  | [] => by unfold writeMembers; decide
  | (k, v) :: ms => by
    rw [writeMembers]
    exact .append (.append (.cons (by decide) (visible_quote k))
      (.cons (by decide) (visible_write v))) (visible_writeMembers ms)

end

end Json

/-! ## 2. Records by their first bytes -/

namespace JsonReader

/-- Whatever the reader makes of a text that starts like this has the property. -/
def YieldsOn (p : JsonReader α) (text : Bytes) (P : α → Prop) : Prop :=
  ∀ c a c', c.rest = text → p c = .ok (a, c') → P a

namespace YieldsOn

variable {P : α → Prop} {Q : β → Prop}

theorem of_yields {p : JsonReader α} (h : Yields p P) (text : Bytes) : YieldsOn p text P :=
  fun c a c' _ hp => h c a c' hp

/-- What is known to be read first makes way for what follows. -/
theorem after {p : JsonReader α} {f : α → JsonReader β} {b rest : Bytes} {a : α}
    (hp : Reads p b a rest) (hf : YieldsOn (f a) rest Q) : YieldsOn (p >>= f) (b ++ rest) Q := by
  intro c b' c' hc h
  obtain ⟨c₁, hread, hrest⟩ := hp c hc
  exact hf c₁ b' c' hrest ((Chaining.bind_of_ok hread).symm.trans h)

/-- A look ahead takes nothing. -/
theorem after_look {p : JsonReader α} {f : α → JsonReader β} {text : Bytes} {a : α}
    (hp : Reads p [] a text) (hf : YieldsOn (f a) text Q) : YieldsOn (p >>= f) text Q :=
  after (b := []) hp hf

theorem bind {p : JsonReader α} {f : α → JsonReader β} {text : Bytes} (hp : YieldsOn p text P)
    (hf : ∀ a, P a → Yields (f a) Q) : YieldsOn (p >>= f) text Q := by
  intro c b c' hc h
  obtain ⟨⟨a, c₁⟩, hread, hfa⟩ := Chaining.ok_of_bind h
  exact hf a (hp c a c₁ hc hread) c₁ b c' hfa

theorem run {p : JsonReader α} {text : Bytes} (hp : YieldsOn p text P) {a : α}
    (h : JsonReader.run p text = .ok a) : P a := by
  unfold JsonReader.run at h
  split at h
  next => cases h
  next a' c' hread =>
    dsimp only at h
    split at h
    next => exact Except.ok.inj h ▸ hp _ _ _ rfl hread
    next => cases h

end YieldsOn

/-- What the first member of a record has settled, and every other member keeps, holds of the
record that is built. -/
theorem of_first_member {shape : RecordShape σ α} {I : σ → Prop} {P : α → Prop} (key : String)
    (draft : σ) {t rest : Bytes}
    (hfirst : Reads (takeMember shape.fields shape.blank key) (0x3a :: t) draft rest)
    (hdraft : I draft) (hkept : ∀ d key, I d → Yields (takeMember shape.fields d key) I)
    (hbuild : ∀ d a, I d → shape.build d = .ok a → P a) :
    YieldsOn (record shape) (0x7b :: (Json.quote key ++ (0x3a :: t ++ rest))) P := by
  unfold record
  refine .after_look (reads_start gap_nil (by decide) _) ?_
  refine .after (Reads.bump_self _ _) (.after_look (Reads.steps_self _) ?_)
  refine .bind (P := I) ?_ fun d hd => ?_
  · unfold members
    refine .after (b := [0x22]) (reads_moreMembers_first gap_nil _) ?_
    rw [if_pos rfl]
    refine .after (reads_textBody key _) (.after hfirst ?_)
    exact .of_yields (yields_members hkept _ false hdraft) _
  · cases ha : shape.build d with
    | ok a => exact .after fun _ => .pure (hbuild d a hd ha)
    | error name => exact .failObject _

/-- What starts with no bracket is no record. -/
theorem not_record_of_head {shape : RecordShape σ α} {b : UInt8} {rest : Bytes}
    (hblank : JsonCursor.isBlank b = false) (hlist : b ≠ 0x5b) (hobject : b ≠ 0x7b) :
    YieldsOn (record shape) (b :: rest) fun _ => False := by
  unfold record
  refine .after_look (reads_start gap_nil hblank _) ?_
  split
  next => exact absurd rfl hlist
  next => exact absurd rfl hobject
  next => exact .of_yields (.refuse _) _

end JsonReader

/-! ## 3. Numbers of calls and replies -/

theorem Json.ends_writeMembers (m : String × Json) (ms : List (String × Json)) :
    Ends (Json.writeMembers (m :: ms)) := by
  obtain ⟨k, v⟩ := m
  rw [Json.writeMembers]
  exact ends_cons (.inr (.inl rfl)) _

theorem Json.acceptUInt64_natural (id : UInt64) :
    Json.acceptUInt64 (.natural id.toNat) = .ok id := by
  show Except.ok (UInt64.ofNat id.toNat) = _
  rw [UInt64.ofNat_toNat]

/-- The number in front of other members is read back. -/
theorem reads_identifier {expected : String} (id : UInt64) (m : String × Json)
    (ms : List (String × Json)) :
    Reads (numberOf expected Json.acceptUInt64) (Json.ascii (Json.numberText (.natural id.toNat)))
      id (Json.writeMembers (m :: ms)) :=
  reads_numberOf (n := .natural id.toNat) id.toNat_lt (Json.acceptUInt64_natural id)
    (Json.ends_writeMembers m ms)

namespace RpcCall

/-- What is read back from the text of a call bears its number. -/
theorem id_of_decode_encode {c c' : RpcCall} (h : decode c.encode = .ok c') : c'.id = c.id := by
  refine YieldsOn.run (P := fun c' => c'.id = c.id) (of_first_member
    (I := fun d => d.id = some c.id) "id" ⟨some c.id, none, none, none⟩ ?_ rfl ?_ ?_) h
  · refine reads_takeMember rfl rfl (Reads.bind_last ?_ (Reads.pure _ _))
    exact reads_identifier c.id _ _
  · refine yields_takeMember_new fun f hf draft hdraft hnew => ?_
    simp only [shape, List.mem_cons, List.not_mem_nil, or_false] at hf
    rcases hf with rfl | rfl | rfl | rfl
    · simp [hdraft] at hnew
    · exact .after fun _ => .pure hdraft
    · exact .after fun _ => .pure hdraft
    · exact .after fun _ => .pure hdraft
  · intro d c' hd hbuild
    have hbuild : d.build = .ok c' := hbuild
    unfold Draft.build at hbuild
    split at hbuild
    next => cases hbuild
    next => cases hbuild
    next => cases hbuild
    next id method args hid hmethod hargs =>
      obtain rfl := Except.ok.inj hbuild
      exact Option.some.inj (hid.symm.trans hd)

end RpcCall

namespace RpcReply

/-- What is read back from the text of a reply bears its number. -/
theorem id_of_decode_encode {r r' : RpcReply} (h : decode r.encode = .ok r') : r'.id = r.id := by
  refine YieldsOn.run (P := fun r' => r'.id = r.id) (of_first_member
    (I := fun d => d.id = some r.id) "id" ⟨some r.id, none, none, none⟩ ?_ rfl ?_ ?_) h
  · refine reads_takeMember rfl rfl (Reads.bind_last ?_ (Reads.pure _ _))
    exact reads_identifier r.id _ _
  · refine yields_takeMember_new fun f hf draft hdraft hnew => ?_
    simp only [shape, List.mem_cons, List.not_mem_nil, or_false] at hf
    rcases hf with rfl | rfl | rfl | rfl
    · simp [hdraft] at hnew
    · exact .after fun _ => .pure hdraft
    · exact .after fun _ => .pure hdraft
    · exact .after fun _ => .pure hdraft
  · intro d r' hd hbuild
    have hbuild : d.build = .ok r' := hbuild
    unfold Draft.build at hbuild
    split at hbuild
    next => cases hbuild
    next => cases hbuild
    next id status hid hstatus =>
      obtain rfl := Except.ok.inj hbuild
      exact Option.some.inj (hid.symm.trans hd)

/-! ## 4. Where a reply can start -/

/-- The text of a reply starts with the key of its number. -/
theorem encode_head (r : RpcReply) : ∃ more, r.encode = 0x7b :: 0x22 :: 0x69 :: 0x64 :: more :=
  ⟨_, rfl⟩

theorem visible_encode (r : RpcReply) : Json.Visible r.encode := Json.visible_write r.toJson

/-- What starts with none of the brackets is no reply. -/
theorem not_decode_of_head {b : UInt8} {rest : Bytes} (hblank : JsonCursor.isBlank b = false)
    (hlist : b ≠ 0x5b) (hobject : b ≠ 0x7b) (r : RpcReply) : decode (b :: rest) ≠ .ok r := fun h =>
  (not_record_of_head hblank hlist hobject).run h

end RpcReply
end Metering
