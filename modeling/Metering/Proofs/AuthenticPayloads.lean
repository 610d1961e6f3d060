import Metering.Proofs.Chaining
import Metering.Wire.Payload

/-!
Which payloads an end with a signing key takes, and why it refuses the others.

A payload comes with a body, marks and a text for a signature, all of which an adversary may have
chosen. It is taken exactly if its outer layers come off and the text spells the tag of what is
under them: two hexadecimal digits for each of the 32 bytes, in either case, perhaps between
blanks. Else there is one fault, and an outer layer has its fault whatever the text is.

Results:
1. `Hex.decode?_eq_some_iff`: a text is read as some bytes if in small letters it is their text.
2. `SigningKey.verify_eq_error_iff`: the three faults of a signature.
3. `WireKeys.kind_of_openSealed_error`, `WireKeys.kind_of_inflate_error`: the outer layers have
   faults of their own kinds.
4. `WireKeys.decode_authentic`: what becomes of any payload.
-/
namespace Metering

/-! ## 1. Hexadecimal digits of either case -/

namespace Hex

/-- A digit stands for a value if in small letters it is the digit of that value. -/
theorem value?_eq_some_iff {c : Char} {n : Nat} :
    value? c = some n ↔ n < 16 ∧ c.toLower = digit n := by
  by_cases hc : c.toNat ≤ 'f'.toNat
  · have hsmall : ∀ k ≤ 'f'.toNat, (value? (Char.ofNat k)).all (· < 16) = true ∧
        ∀ m < 16, (value? (Char.ofNat k) = some m ↔ (Char.ofNat k).toLower = digit m) := by
      decide +kernel
    obtain ⟨hlt, hiff⟩ := hsmall c.toNat hc
    rw [Char.ofNat_toNat] at hlt hiff
    constructor
    · intro h
      have hn : n < 16 := by simpa [h] using hlt
      exact ⟨hn, (hiff n hn).mp h⟩
    · rintro ⟨hn, h⟩
      exact (hiff n hn).mpr h
  · -- Behind the last digit there is none, and no letter that has a small form.
    have hbehind (d : Char) (hd : d.toNat ≤ 'f'.toNat) : ¬ c ≤ d := by
      rw [Char.le_def, UInt32.le_iff_toNat_le]
      exact fun h => hc (Nat.le_trans h hd)
    have hnone : value? c = none := by
      unfold value?
      rw [if_neg fun h => hbehind '9' (by decide) h.2, if_neg fun h => hbehind 'f' (by decide) h.2,
        if_neg fun h => hbehind 'F' (by decide) h.2]
    have hsame : c.toLower = c := by
      unfold Char.toLower
      rw [dif_neg fun h => hbehind 'Z' (by decide) h.2]
    have hdigits : ∀ m < 16, (digit m).toNat ≤ 'f'.toNat := by decide
    rw [hnone, hsame]
    constructor
    · intro h
      cases h
    · rintro ⟨hn, rfl⟩
      exact absurd (hdigits n hn) hc

theorem encode_cons (x : UInt8) (b : Bytes) :
    encode (x :: b) = digit (x.toNat / 16) :: digit (x.toNat % 16) :: encode b := rfl

theorem length_encode (b : Bytes) : (encode b).length = 2 * b.length := by
  induction b with
  | nil => rfl
  | cons x rest ih =>
    rw [encode_cons, List.length_cons, List.length_cons, List.length_cons, ih]
    omega

/-- What is read as some bytes is their text, up to the case of its digits. -/
theorem decode?_eq_some_iff {cs : List Char} {b : Bytes} :
    decode? cs = some b ↔ cs.map Char.toLower = encode b := by
  constructor
  · intro h
    induction cs using decode?.induct generalizing b with
    | case1 =>
      obtain rfl := Option.some.inj h
      rfl
    | case2 => cases h
    | case3 hi lo rest high low bs hrest hlow hhigh ih =>
      simp only [decode?, hrest, hlow, hhigh, Option.some.injEq] at h
      subst h
      obtain ⟨hhigh, hhi⟩ := value?_eq_some_iff.mp hhigh
      obtain ⟨hlow, hlo⟩ := value?_eq_some_iff.mp hlow
      have hx : (UInt8.ofNat (16 * high + low)).toNat = 16 * high + low := by
        rw [UInt8.toNat_ofNat']
        omega
      rw [List.map_cons, List.map_cons, ih hrest, hhi, hlo, encode_cons, hx,
        show (16 * high + low) / 16 = high by omega, show (16 * high + low) % 16 = low by omega]
    | case4 hi lo rest hnot =>
      rw [decode?] at h
      split at h
      next high low bs hhigh hlow hrest => exact (hnot high low bs hhigh hlow hrest).elim
      next => cases h
  · intro h
    induction b generalizing cs with
    | nil =>
      obtain rfl := List.map_eq_nil_iff.mp h
      rfl
    | cons x rest ih =>
      rw [encode_cons] at h
      obtain ⟨hi, cs, rfl, hhi, h⟩ := List.map_eq_cons_iff.mp h
      obtain ⟨lo, cs, rfl, hlo, h⟩ := List.map_eq_cons_iff.mp h
      have hx : x.toNat < 256 := x.toNat_lt
      have hhigh : value? hi = some (x.toNat / 16) := value?_eq_some_iff.mpr ⟨by omega, hhi⟩
      have hlow : value? lo = some (x.toNat % 16) := value?_eq_some_iff.mpr ⟨by omega, hlo⟩
      have hbyte : UInt8.ofNat (16 * (x.toNat / 16) + x.toNat % 16) = x := by
        rw [Nat.div_add_mod, UInt8.ofNat_toNat]
      rw [decode?, hhigh, hlow, ih h]
      dsimp only
      rw [hbyte]

theorem decode?_toList {s : String} {b : Bytes} :
    decode? s.toList = some b ↔ Text.lower s = text b := by
  rw [decode?_eq_some_iff, Text.lower, text, String.ofList_inj]

/-- A text of some bytes has two characters for each of them. -/
theorem length_of_lower {s : String} {b : Bytes} (h : Text.lower s = text b) :
    s.length = 2 * b.length := by
  have hlength := congrArg String.length h
  rwa [Text.lower, text, String.length_ofList, String.length_ofList, List.length_map,
    String.length_toList, length_encode] at hlength

end Hex

/-! ## 2. Faults of a signature -/

namespace SigningKey

variable {key : SigningKey} {body : Bytes} {tag : Option String}

/-- What is wrong with the signature of a body: there is none, it is no text of any bytes, or it is
the text of other bytes than the tag. -/
inductive TagFault (key : SigningKey) (body : Bytes) : Option String → Cause → Prop
  | missing : TagFault key body none .missingTag
  | malformed {given : String} : (∀ b, Text.lower (Text.trim given) ≠ Hex.text b) →
    TagFault key body (some given) .malformedTag
  | other {given : String} {b : Bytes} : Text.lower (Text.trim given) = Hex.text b →
    b ≠ Hmac.tag key.secret body → TagFault key body (some given) .otherTag

theorem verify_eq_ok_iff_lower :
    key.verify body tag = .ok () ↔
      ∃ given, tag = some given ∧
        Text.lower (Text.trim given) = Hex.text (Hmac.tag key.secret body) := by
  simp only [verify_eq_ok_iff, Hex.decode?_toList]

theorem verify_eq_error_iff {f : Failure} :
    key.verify body tag = .error f ↔
      ∃ cause, TagFault key body tag cause ∧ f = ⟨.integrity, cause⟩ := by
  constructor
  · intro h
    cases tag with
    | none =>
      obtain rfl := Except.error.inj h
      exact ⟨_, .missing, rfl⟩
    | some given =>
      unfold verify at h
      dsimp only at h
      split at h
      next hnone =>
        obtain rfl := Except.error.inj h
        refine ⟨_, .malformed fun b hb => ?_, rfl⟩
        cases hnone.symm.trans (Hex.decode?_toList.mpr hb)
      next b hb =>
        split at h
        next => cases h
        next hother =>
          obtain rfl := Except.error.inj h
          exact ⟨_, .other (Hex.decode?_toList.mp hb) hother, rfl⟩
  · rintro ⟨cause, hfault, rfl⟩
    cases hfault with
    | missing => rfl
    | @malformed given hnone =>
      have hdecode : Hex.decode? (Text.trim given).toList = none :=
        Option.eq_none_iff_forall_ne_some.mpr fun b hb => hnone b (Hex.decode?_toList.mp hb)
      simp only [verify, hdecode]
    | other hb hother => simp only [verify, Hex.decode?_toList.mpr hb, if_neg hother]

end SigningKey

/-! ## 3. Faults of the outer layers -/

theorem PrivateKey.kind_of_openBlocks_error {k : PrivateKey} {index : Nat} {blocks : List Bytes}
    {f : Failure} (h : k.openBlocks index blocks = .error f) : f.kind = .decryption := by
  induction blocks generalizing index with
  | nil => cases h
  | cons block more ih =>
    rw [openBlocks] at h
    split at h
    next =>
      obtain rfl := Except.error.inj h
      rfl
    next =>
      split at h
      next => cases h
      next e hmore =>
        obtain rfl := Except.error.inj h
        exact ih hmore

namespace WireKeys

variable {k : WireKeys} {key : SigningKey}

theorem kind_of_openSealed_error {body : Bytes} {isSealed : Bool} {f : Failure}
    (h : k.openSealed body isSealed = .error f) : f.kind = .decryption := by
  unfold openSealed at h
  split at h
  next opening _ =>
    unfold PrivateKey.openBody at h
    split at h
    next =>
      obtain rfl := Except.error.inj h
      rfl
    next => exact PrivateKey.kind_of_openBlocks_error h
  next => cases h

theorem kind_of_inflate_error {body : Bytes} {f : Failure} (h : inflate body = .error f) :
    f.kind = .compression := by
  unfold inflate at h
  split at h
  next => cases h
  next =>
    obtain rfl := Except.error.inj h
    rfl

/-- The outer layers come off if each of them that is marked does. -/
theorem unwrap_eq_ok_iff {p : Payload} {plain : Bytes} :
    k.unwrap p = .ok plain ↔ ∃ body, k.openSealed p.body p.isSealed = .ok body ∧
      if p.isCompressed then inflate body = .ok plain else body = plain := by
  unfold unwrap
  cases hopen : k.openSealed p.body p.isSealed with
  | error e => exact ⟨fun h => (nomatch h), fun ⟨_, h, _⟩ => (nomatch h)⟩
  | ok body =>
    simp only [Except.ok.injEq, exists_eq_left']
    show (if p.isCompressed then inflate body else .ok body) = .ok plain ↔ _
    by_cases hcompressed : p.isCompressed = true
    · rw [if_pos hcompressed, if_pos hcompressed]
    · rw [if_neg hcompressed, if_neg hcompressed, Except.ok.injEq]

theorem unwrap_of_openSealed_error {p : Payload} {f : Failure}
    (h : k.openSealed p.body p.isSealed = .error f) : k.unwrap p = .error f := by
  unfold unwrap
  rw [Chaining.bind_of_error h]

theorem unwrap_of_inflate_error {p : Payload} {body : Bytes} {f : Failure}
    (hopen : k.openSealed p.body p.isSealed = .ok body) (hcompressed : p.isCompressed = true)
    (h : inflate body = .error f) : k.unwrap p = .error f := by
  unfold unwrap
  rw [Chaining.bind_of_ok hopen, if_pos hcompressed, h]

/-- A payload whose outer layers do not come off is refused for them, whatever it is signed with. -/
theorem decode_of_unwrap_error {p : Payload} {f : Failure} (h : k.unwrap p = .error f)
    (tag : Option String) : k.decode { p with signature := tag } = .error f :=
  Chaining.bind_of_error h

theorem verify_of_signing (hkey : k.signing = some key) (plain : Bytes) (tag : Option String) :
    k.verify plain tag = key.verify plain tag := by
  unfold verify
  rw [hkey]

/-- A payload whose outer layers come off has the faults of its signature and no others. -/
theorem decode_eq_error_iff (hkey : k.signing = some key) {p : Payload} {plain : Bytes}
    (h : k.unwrap p = .ok plain) {f : Failure} :
    k.decode p = .error f ↔
      ∃ cause, key.TagFault plain p.signature cause ∧ f = ⟨.integrity, cause⟩ := by
  rw [decode_of_unwrap h, verify_of_signing hkey, ← SigningKey.verify_eq_error_iff]
  cases key.verify plain p.signature with
  | error e =>
    show (.error e : Except Failure Bytes) = .error f ↔ (.error e : Except Failure Unit) = .error f
    rw [Except.error.injEq, Except.error.injEq]
  | ok => exact ⟨fun h => (nomatch h), fun h => (nomatch h)⟩

/-! ## 4. Payloads of any origin -/

/-- What an end with a signing key makes of a payload, whatever stands in it.

* It gets `plain` out of the payload exactly if the layers that are marked come off and leave
  `plain`, and the text of the signature, without blanks at its ends and in small letters, is the
  text of the whole tag of `plain`.
* If the body cannot be opened or inflated, that is the answer, and with any other signature in its
  place it would be the answer as well.
* Otherwise a refusal has to do with the signature alone, and says what is wrong with it.
* In particular no text of more or fewer than 64 characters passes. -/
theorem decode_authentic (hkey : k.signing = some key) (p : Payload) :
    (∀ plain, k.decode p = .ok plain ↔
      (∃ body, k.openSealed p.body p.isSealed = .ok body ∧
        if p.isCompressed then inflate body = .ok plain else body = plain) ∧
      ∃ given, p.signature = some given ∧
        Text.lower (Text.trim given) = Hex.text (Hmac.tag key.secret plain)) ∧
    (∀ f, k.openSealed p.body p.isSealed = .error f →
      f.kind = .decryption ∧ ∀ tag, k.decode { p with signature := tag } = .error f) ∧
    (∀ body f, k.openSealed p.body p.isSealed = .ok body → p.isCompressed = true →
      inflate body = .error f →
      f.kind = .compression ∧ ∀ tag, k.decode { p with signature := tag } = .error f) ∧
    (∀ plain f, k.unwrap p = .ok plain → (k.decode p = .error f ↔
      ∃ cause, key.TagFault plain p.signature cause ∧ f = ⟨.integrity, cause⟩)) ∧
    ∀ plain given, k.unwrap p = .ok plain → p.signature = some given →
      (Text.trim given).length ≠ 2 * 32 → ∃ cause, k.decode p = .error ⟨.integrity, cause⟩ := by
  have haccept (plain : Bytes) : k.decode p = .ok plain ↔
      (∃ body, k.openSealed p.body p.isSealed = .ok body ∧
        if p.isCompressed then inflate body = .ok plain else body = plain) ∧
      ∃ given, p.signature = some given ∧
        Text.lower (Text.trim given) = Hex.text (Hmac.tag key.secret plain) := by
    rw [decode_eq_ok_iff, unwrap_eq_ok_iff, verify_of_signing hkey, SigningKey.verify_eq_ok_iff_lower]
  refine ⟨haccept, ?_, ?_, fun plain f h => decode_eq_error_iff hkey h, ?_⟩
  · intro f hopen
    exact ⟨kind_of_openSealed_error hopen,
      decode_of_unwrap_error (unwrap_of_openSealed_error hopen)⟩
  · intro body f hopen hcompressed hinflate
    exact ⟨kind_of_inflate_error hinflate,
      decode_of_unwrap_error (unwrap_of_inflate_error hopen hcompressed hinflate)⟩
  · intro plain given hunwrap hgiven hlength
    cases hdecode : k.decode p with
    | error f =>
      obtain ⟨cause, -, rfl⟩ := (decode_eq_error_iff hkey hunwrap).mp hdecode
      exact ⟨cause, rfl⟩
    | ok plain' =>
      obtain ⟨-, given', hgiven', htext⟩ := (haccept plain').mp hdecode
      obtain rfl := Option.some.inj (hgiven.symm.trans hgiven')
      have htag := Hex.length_of_lower htext
      rw [Hmac.length_tag] at htag
      exact absurd htag hlength

/-- The tag of `[]` under the key `secret`, in capital letters and between blanks; and the first
half of it. -/
theorem decode_authentic_capitals :
    let k : WireKeys := ⟨some ⟨Bytes.ofText "secret"⟩, .none, .none⟩
    let plain : Bytes := Bytes.ofText "[]"
    let capitals := " 53364A07FCC563E712F42CFC9DE1E28E1E2D39F236CEE430F112203E557AEA3F\n"
    let half := "53364a07fcc563e712f42cfc9de1e28e"
    k.decode ⟨plain, some capitals, false, true⟩ = .ok plain ∧
      ∃ cause, k.decode ⟨plain, some half, false, true⟩ = .error ⟨.integrity, cause⟩ := by
  intro k plain capitals half
  have htext : Text.lower (Text.trim capitals) =
      Hex.text (Hmac.tag (Bytes.ofText "secret") plain) := by decide +kernel
  have hshort : (Text.trim half).length ≠ 2 * 32 := by decide +kernel
  obtain ⟨haccept, -⟩ := decode_authentic (k := k) rfl ⟨plain, some capitals, false, true⟩
  obtain ⟨-, -, -, -, hlength⟩ := decode_authentic (k := k) rfl ⟨plain, some half, false, true⟩
  exact ⟨(haccept plain).mpr ⟨⟨plain, rfl, rfl⟩, capitals, rfl, htext⟩,
    hlength plain half rfl rfl hshort⟩

end WireKeys
end Metering
