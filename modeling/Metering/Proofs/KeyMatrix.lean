import Metering.Proofs.PayloadLayers

/-!
Which ends understand each other.

An end has a key for signing, a key for sealing and a key for opening, or any of them is missing.
Two ends are `Matched` if the far one can open what the near one seals; the other keys may be
anything. Sealing and compressing are undone whatever the signing keys are, so these decide alone
what becomes of a payload: without a key at the far end everything is accepted, and with one the
tags of the two keys have to be the same.

Results:
1. `Matched.unwrap_encode`: matched ends take off what they put on.
2. `verify_sign_cases`: the far end's check of the near end's signature, for each pair of keys.
3. `decode_encode_cases`: the two together, for each pair of ends.
-/
namespace Metering.WireKeys

variable {near far : WireKeys}

/-- The far end holds the private half of the key that the near end seals with: a block has room
for a piece, and each block that the public half seals is opened. -/
def Matched (near far : WireKeys) : Prop :=
  ∀ key, near.sealing = some key → ∃ k, far.opening = some k ∧ k.publicKey = key ∧
    paddingOverhead < k.size ∧ k.OpensOwnBlocks

/-- Matched ends take off what they put on. -/
theorem Matched.unwrap_encode (h : near.Matched far) (w : Gzip.Writer) (source : PaddingSource)
    (plain : Bytes) :
    ∃ p, near.encodeWith w.write source plain = .ok p ∧ p.signature = near.sign plain ∧
      far.unwrap p = .ok plain := by
  have hopens : ∀ key, near.sealing = some key → ∃ k body, far.opening = some k ∧
      key.sealBody source (w.write plain) = .ok body ∧
      k.openBody body = .ok (w.write plain) := by
    intro key hkey
    obtain ⟨k, hopening, rfl, hroom, hk⟩ := h key hkey
    obtain ⟨body, hsealed, hopen, -⟩ :=
      PrivateKey.openBody_sealBody hk hroom source (w.write plain)
    exact ⟨k, body, hopening, hsealed, hopen⟩
  obtain ⟨p, hencode, hsignature, -, hunwrap, -⟩ := unwrap_encode_of_opens w source plain hopens
  exact ⟨p, hencode, hsignature, hunwrap⟩

/-- The signature of one body beside another one. -/
theorem verify_sign_cases (near far : WireKeys) (plain body : Bytes) :
    far.verify body (near.sign plain) =
      match far.signing, near.signing with
      | .none, _ => .ok ()
      | some _, .none => .error ⟨.integrity, .missingTag⟩
      | some b, some a =>
        if Hmac.tag a.secret plain = Hmac.tag b.secret body then .ok ()
        else .error ⟨.integrity, .otherTag⟩ := by
  unfold verify sign
  cases far.signing with
  | none => rfl
  | some b =>
    cases near.signing with
    | none => rfl
    | some a => exact SigningKey.verify_sign_eq a b plain body

/-- What the far end makes of a payload of the near end, for matched ends with any keys, any way of
compressing, any padding and any body.

* A far end without a signing key gets the body back, whatever the near end signs.
* A far end with a key refuses what comes without a signature.
* If both ends have keys, the far end gets the body back if its tag is the same under both, and
  else refuses it.
* If both ends have the same key, a signature that is put beside the encoded body of other bytes is
  accepted exactly if these have the same tag, and then it is the other bytes that arrive. -/
theorem decode_encode_cases (h : near.Matched far) (w : Gzip.Writer) (source : PaddingSource)
    (plain : Bytes) :
    ∃ p, near.encodeWith w.write source plain = .ok p ∧
      (far.signing = .none → far.decode p = .ok plain) ∧
      (∀ b, far.signing = some b → near.signing = .none →
        far.decode p = .error ⟨.integrity, .missingTag⟩) ∧
      (∀ a b, near.signing = some a → far.signing = some b →
        far.decode p =
          if Hmac.tag a.secret plain = Hmac.tag b.secret plain then .ok plain
          else .error ⟨.integrity, .otherTag⟩) ∧
      (∀ key, near.signing = some key → far.signing = some key →
        ∀ (w' : Gzip.Writer) source' other, ∃ q, near.encodeWith w'.write source' other = .ok q ∧
          far.decode { q with signature := p.signature } =
            if Hmac.tag key.secret plain = Hmac.tag key.secret other then .ok other
            else .error ⟨.integrity, .otherTag⟩) := by
  obtain ⟨p, hencode, hsignature, hunwrap⟩ := h.unwrap_encode w source plain
  have hdecode := decode_of_unwrap hunwrap
  rw [hsignature, verify_sign_cases] at hdecode
  refine ⟨p, hencode, ?_, ?_, ?_, ?_⟩
  · intro hfar
    rw [hdecode, hfar]
    rfl
  · intro b hfar hnear
    rw [hdecode, hfar, hnear]
    rfl
  · intro a b hnear hfar
    rw [hdecode, hfar, hnear]
    dsimp only
    split <;> rfl
  · intro key hnear hfar w' source' other
    obtain ⟨q, hencode', -, hunwrap'⟩ := h.unwrap_encode w' source' other
    refine ⟨q, hencode', ?_⟩
    have hother : far.unwrap { q with signature := p.signature } = .ok other := hunwrap'
    rw [decode_of_unwrap hother, hsignature, verify_sign_cases, hfar, hnear]
    dsimp only
    split <;> rfl

/-- Ends that share a key for signing, of which one seals with a small key and the other one opens
with it. -/
theorem decode_encode_cases_sealed :
    let key : SigningKey := ⟨[1, 2, 3]⟩
    let near : WireKeys := ⟨some key, some PrivateKey.small.publicKey, .none⟩
    let far : WireKeys := ⟨some key, .none, some .small⟩
    near.Matched far ∧
      ∃ p, near.encode (fun _ _ => 0) [7, 8, 9] = .ok p ∧ far.decode p = .ok [7, 8, 9] := by
  intro key near far
  have hmatched : near.Matched far := fun _ hkey =>
    ⟨.small, rfl, Option.some.inj hkey, PrivateKey.usable_small.room, PrivateKey.usable_small.opens⟩
  obtain ⟨p, hencode, -, -, hboth, -⟩ :=
    decode_encode_cases hmatched .fixed (fun _ _ => 0) [7, 8, 9]
  exact ⟨hmatched, p, hencode, (hboth key key rfl rfl).trans (if_pos rfl)⟩

end Metering.WireKeys
