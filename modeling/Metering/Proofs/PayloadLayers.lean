import Mathlib.NumberTheory.LucasPrimality
import Metering.Proofs.Inflation
import Metering.Proofs.RequestMarks
import Metering.Proofs.SealedBlocks

/-!
The layers of a payload, put on by one end and taken off by another.

Two ends have keys of their own. They fit if the far end can open what the near end seals; whether
a body is compressed or sealed is marked on the payload, so an end that does not seal is understood
by any other. Signing is a matter of its own: a signature that nobody asks for does no harm. How the
near end compresses is up to it, as long as the far end can read it (`Gzip.Writer`).

Results:
1. `PrivateKey.Usable`: what is asked of a key for sealed bodies, and what a key of two primes has.
2. `WireKeys.unwrap_encode_of_opens`, `WireKeys.unwrap_encode`: the far end takes off the layers
   that the near end put on.
3. `WireKeys.verify_sign`: the far end accepts the signature of the near end.
-/
namespace Metering

/-! ## 1. Usable keys -/

/-- A private key that sealed bodies can be opened with: it was loaded from its numbers, a block
has room for a piece, and each block that the public half seals is opened. -/
structure PrivateKey.Usable (k : PrivateKey) : Prop where
  loaded : ∃ modulus exponent d p q, ofNumbers? modulus exponent d p q = some k
  room : paddingOverhead < k.size
  opens : k.OpensOwnBlocks

/-- The longest block of a key that can be loaded. -/
def PrivateKey.maxSize : Nat := PublicKey.maxBits / 8

namespace PrivateKey.Usable

variable {k : PrivateKey}

theorem of_primes {modulus exponent d p q : Nat} (hk : ofNumbers? modulus exponent d p q = some k)
    (hp : p.Prime) (hq : q.Prime) (hpq : p ≠ q) (hroom : paddingOverhead < k.size) : k.Usable :=
  ⟨⟨modulus, exponent, d, p, q, hk⟩, hroom, opensOwnBlocks_of_primes hk hp hq hpq⟩

theorem size_le (h : k.Usable) : k.size ≤ maxSize := by
  obtain ⟨modulus, exponent, d, p, q, hk⟩ := h.loaded
  obtain ⟨hmodulus, -, -, -, -, -, hbits⟩ := of_ofNumbers? hk
  unfold maxSize size PublicKey.size
  rw [hmodulus]
  unfold PublicKey.maxBits at hbits ⊢
  omega

/-- A usable key opens a body that its public half has sealed. At worst, each byte has a block of
its own. -/
theorem openBody_sealBody (h : k.Usable) (source : PaddingSource) (body : Bytes) :
    ∃ sealedBody, k.publicKey.sealBody source body = .ok sealedBody ∧
      k.openBody sealedBody = .ok body ∧
      sealedBody.length ≤ (paddingOverhead + 1) * body.length + maxSize := by
  obtain ⟨sealedBody, hsealed, hopened, hlength⟩ :=
    PrivateKey.openBody_sealBody h.opens h.room source body
  refine ⟨sealedBody, hsealed, hopened, ?_⟩
  have hsize := h.size_le
  obtain ⟨room, hroom⟩ := Nat.exists_eq_add_one.mpr (Nat.sub_pos_of_lt h.room)
  have hblock : k.size = room + 1 + paddingOverhead := by omega
  rw [hlength, hroom, Nat.add_sub_cancel]
  have hfull := Nat.div_mul_le_self (body.length + room) (room + 1)
  -- Each block carries a byte at least.
  have hcount : (body.length + room) / (room + 1) ≤ body.length := by
    rcases Nat.eq_zero_or_pos body.length with hzero | hpos
    · rw [hzero, Nat.zero_add, Nat.div_eq_of_lt (Nat.lt_succ_self room)]
    · refine Nat.div_le_of_le_mul ?_
      have := Nat.le_mul_of_pos_right room hpos
      rw [Nat.add_mul, Nat.one_mul]
      omega
  rw [hblock, Nat.mul_add]
  have hpadding := Nat.mul_le_mul_right paddingOverhead hcount
  rw [Nat.mul_comm body.length] at hpadding
  rw [Nat.add_mul, Nat.one_mul]
  omega

end PrivateKey.Usable

/-- Lucas' test for a prime whose predecessor is a prime times a power of two. -/
theorem prime_of_powMod {p h : Nat} (a k : Nat) (hh : h.Prime) (hp : p - 1 = h * 2 ^ k)
    (hone : powMod a p (p - 1) = 1 % p) (htwo : powMod a p ((p - 1) / 2) ≠ 1 % p)
    (hodd : powMod a p ((p - 1) / h) ≠ 1 % p) : p.Prime := by
  have hpow (e : Nat) : (a : ZMod p) ^ e = 1 ↔ powMod a p e = 1 % p := by
    rw [powMod_eq, ← Nat.cast_pow, ← Nat.cast_one, ZMod.natCast_eq_natCast_iff]
    exact Iff.rfl
  refine lucas_primality p a ((hpow _).mpr hone) fun q hq hdvd => ?_
  rw [Ne, hpow]
  rw [hp] at hdvd
  rcases (Nat.Prime.dvd_mul hq).mp hdvd with hdvd | hdvd
  · rw [(Nat.prime_dvd_prime_iff_eq hq hh).mp hdvd]
    exact hodd
  · rw [(Nat.prime_dvd_prime_iff_eq hq Nat.prime_two).mp (hq.dvd_of_dvd_pow hdvd)]
    exact htwo

/-- The key of the primes `3 * 2 ^ 41 + 1` and `5 * 2 ^ 55 + 1`: a block of thirteen bytes, with
room for two. -/
def PrivateKey.small : PrivateKey where
  publicKey := ⟨1188422437714145214485323841537, 7, by decide⟩
  exponent := 231613695121911223
  factors := (6597069766657, 180143985094819841)

theorem PrivateKey.usable_small : PrivateKey.small.Usable := by
  have hp : Nat.Prime 6597069766657 := by
    refine prime_of_powMod 5 41 Nat.prime_three (by decide) ?_ ?_ ?_
    all_goals decide +kernel
  have hq : Nat.Prime 180143985094819841 := by
    refine prime_of_powMod 6 55 Nat.prime_five (by decide) ?_ ?_ ?_
    all_goals decide +kernel
  have hk : ofNumbers? 1188422437714145214485323841537 7 231613695121911223 6597069766657
      180143985094819841 = some small := by decide +kernel
  exact .of_primes hk hp hq (by decide) (by decide +kernel)

/-! ## 2. Layers -/

/-- The far end can open what the near end seals. -/
def WireKeys.OpenedBy (near far : WireKeys) : Prop :=
  ∀ key, near.sealing = some key →
    ∃ k, far.opening = some k ∧ k.publicKey = key ∧ k.Usable

namespace WireKeys

variable {near far : WireKeys}

/-- The far end takes off the layers that the near end put on, one after the other, if it can open
the outermost one. -/
theorem unwrap_encode_of_opens (w : Gzip.Writer) (source : PaddingSource) (plain : Bytes)
    (h : ∀ key, near.sealing = some key → ∃ k body, far.opening = some k ∧
      key.sealBody source (w.write plain) = .ok body ∧
      k.openBody body = .ok (w.write plain)) :
    ∃ p, near.encodeWith w.write source plain = .ok p ∧ p.signature = near.sign plain ∧
      far.openSealed p.body p.isSealed = .ok (w.write plain) ∧
      far.unwrap p = .ok plain ∧
      (p.body = w.write plain ∨
        ∃ key, near.sealing = some key ∧
          key.sealBody source (w.write plain) = .ok p.body) := by
  have hinflate : inflate (w.write plain) = .ok plain := by
    unfold inflate
    rw [w.decompress_write]
  have hunwrap {p : Payload} (hcompressed : p.isCompressed = true)
      (hopened : far.openSealed p.body p.isSealed = .ok (w.write plain)) :
      far.unwrap p = .ok plain := by
    unfold unwrap
    rw [Chaining.bind_of_ok hopened, if_pos hcompressed, hinflate]
  unfold encodeWith
  -- What is not sealed is not marked as sealed, so keys of the far end do not matter.
  cases hkey : near.sealing with
  | none =>
    have hopened : far.openSealed (w.write plain) false = .ok (w.write plain) := by
      unfold openSealed
      cases far.opening <;> rfl
    exact ⟨_, rfl, rfl, hopened, hunwrap rfl hopened, .inl rfl⟩
  | some key =>
    obtain ⟨k, body, hopening, hsealed, hopen⟩ := h key hkey
    have hopened : far.openSealed body true = .ok (w.write plain) := by
      unfold openSealed
      rw [hopening]
      exact hopen
    simp only [hsealed]
    exact ⟨_, rfl, rfl, hopened, hunwrap rfl hopened, .inr ⟨key, rfl, hsealed⟩⟩

/-- A usable key opens the outermost layer, and what is sent stays short. -/
theorem unwrap_encode (h : near.OpenedBy far) (w : Gzip.Writer) (source : PaddingSource)
    (plain : Bytes) :
    ∃ p, near.encodeWith w.write source plain = .ok p ∧ p.signature = near.sign plain ∧
      far.openSealed p.body p.isSealed = .ok (w.write plain) ∧
      far.unwrap p = .ok plain ∧
      p.body.length ≤ (paddingOverhead + 1) * (w.write plain).length + PrivateKey.maxSize := by
  have hopens : ∀ key, near.sealing = some key → ∃ k body, far.opening = some k ∧
      key.sealBody source (w.write plain) = .ok body ∧
      k.openBody body = .ok (w.write plain) := by
    intro key hkey
    obtain ⟨k, hopening, rfl, hk⟩ := h key hkey
    obtain ⟨body, hsealed, hopen, -⟩ := hk.openBody_sealBody source (w.write plain)
    exact ⟨k, body, hopening, hsealed, hopen⟩
  obtain ⟨p, hencode, hsignature, hopened, hunwrap, hbody⟩ :=
    unwrap_encode_of_opens w source plain hopens
  refine ⟨p, hencode, hsignature, hopened, hunwrap, ?_⟩
  rcases hbody with hbody | ⟨key, hkey, hsealed⟩
  · rw [hbody]
    exact Nat.le_add_right_of_le (Nat.le_mul_of_pos_left _ (Nat.succ_pos _))
  · obtain ⟨k, -, rfl, hk⟩ := h key hkey
    obtain ⟨body, hsealed', -, hlength⟩ := hk.openBody_sealBody source (w.write plain)
    obtain rfl := Except.ok.inj (hsealed.symm.trans hsealed')
    exact hlength

/-! ## 3. Signatures -/

theorem visible_sign {plain : Bytes} {s : String} (h : near.sign plain = some s) :
    Text.Visible s := by
  obtain ⟨key, -, rfl⟩ := Option.map_eq_some_iff.mp h
  exact key.visible_sign plain

/-- An end that asks for a signature asks for one by the key of the other. -/
def SignedFor (near far : WireKeys) : Prop :=
  ∀ key, far.signing = some key → near.signing = some key

theorem verify_sign (h : near.SignedFor far) (plain : Bytes) :
    far.verify plain (near.sign plain) = .ok () := by
  unfold verify
  cases hkey : far.signing with
  | none => rfl
  | some key =>
    unfold sign
    rw [h key hkey]
    exact key.verify_sign plain

end WireKeys
end Metering
