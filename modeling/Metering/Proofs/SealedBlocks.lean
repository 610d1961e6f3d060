import Mathlib.FieldTheory.Finite.Basic
import Metering.Proofs.HeadRuns
import Metering.Wire.Sealing

/-!
What was sealed can be opened.

A block that is sealed is a number below the modulus, since its first byte is zero, and so a power
of it loses nothing. All that a key has to do beyond that is to open each block that its public
half has sealed. A key of two primes does.

Results:
1. `PrivateKey.unpad?_padded`: a piece is read back from its padded form.
2. `PrivateKey.opensOwnBlocks_of_primes`: a key of two primes opens what its public half seals.
3. `Bytes.length_chunks`: how many pieces a byte string has.
4. `PrivateKey.openBody_sealBody`: a key that opens its own blocks opens its own bodies.
5. `PrivateKey.length_openBody_le`: opening makes no body longer.
-/
namespace Metering

namespace Bytes

theorem toNatLittle_lt (b : Bytes) : toNatLittle b < 256 ^ b.length := by
  induction b with
  | nil => exact Nat.one_pos
  | cons x rest ih =>
    have hx : x.toNat < 256 := x.toNat_lt
    rw [toNatLittle, List.length_cons, Nat.pow_succ]
    omega

theorem toNatBig_lt (b : Bytes) : toNatBig b < 256 ^ b.length := by
  rw [toNatBig_eq, ← List.length_reverse]
  exact toNatLittle_lt b.reverse

end Bytes

/-! ## 1. Padding -/

namespace PublicKey

variable {k : PublicKey} {source : Nat → UInt8} {piece : Bytes}

theorem length_padding (source : Nat → UInt8) (count : Nat) :
    (padding source count).length = count := by
  unfold padding
  rw [List.length_map, List.length_range]

theorem padding_ne_zero {count : Nat} {x : UInt8} (hx : x ∈ padding source count) : x ≠ 0 := by
  obtain ⟨i, -, rfl⟩ := List.mem_map.mp hx
  by_cases hi : source i = 0
  · rw [if_pos hi]
    decide
  · rw [if_neg hi]
    exact hi

theorem length_padded (source : Nat → UInt8) (hpiece : piece.length + paddingOverhead ≤ k.size) :
    (k.padded source piece).length = k.size := by
  unfold padded
  rw [List.cons_append, List.cons_append, List.length_cons, List.length_cons, List.length_append,
    length_padding, List.length_cons]
  unfold paddingOverhead at hpiece
  omega

theorem two_pow_log2_le (k : PublicKey) : 2 ^ k.modulus.log2 ≤ k.modulus :=
  Nat.log2_self_le (Nat.ne_of_gt (Nat.zero_lt_of_lt k.exponent_lt))

theorem modulus_lt_bytes (k : PublicKey) : k.modulus < 256 ^ k.size := by
  have hbits : k.modulus.log2 + 1 ≤ 8 * k.size := by
    unfold size
    omega
  calc k.modulus < 2 ^ (k.modulus.log2 + 1) := Nat.lt_log2_self
    _ ≤ 2 ^ (8 * k.size) := Nat.pow_le_pow_right (by decide) hbits
    _ = 256 ^ k.size := Nat.pow_mul 2 8 k.size

theorem bytes_le_modulus (k : PublicKey) : 256 ^ (k.size - 1) ≤ k.modulus := by
  have hbits : 8 * (k.size - 1) ≤ k.modulus.log2 := by
    unfold size
    omega
  calc 256 ^ (k.size - 1) = 2 ^ (8 * (k.size - 1)) := (Nat.pow_mul 2 8 _).symm
    _ ≤ 2 ^ k.modulus.log2 := Nat.pow_le_pow_right (by decide) hbits
    _ ≤ k.modulus := k.two_pow_log2_le

/-- The zero in front keeps a padded piece below the modulus, so that a power loses nothing. -/
theorem toNatBig_padded_lt (source : Nat → UInt8) (hpiece : piece.length + paddingOverhead ≤ k.size) :
    Bytes.toNatBig (k.padded source piece) < k.modulus := by
  have hlength := length_padded source hpiece
  unfold padded at hlength ⊢
  rw [List.cons_append] at hlength ⊢
  rw [List.length_cons] at hlength
  rw [Bytes.toNatBig_zero_cons]
  refine Nat.lt_of_lt_of_le (Bytes.toNatBig_lt _) ?_
  rw [Nat.eq_sub_of_add_eq hlength]
  exact k.bytes_le_modulus

theorem length_sealBlock : (k.sealBlock source piece).length = k.size :=
  Bytes.length_ofNatBig _ _

/-- The number of a sealed block. -/
theorem toNatBig_sealBlock : Bytes.toNatBig (k.sealBlock source piece) =
    powMod (Bytes.toNatBig (k.padded source piece)) k.modulus k.exponent := by
  refine Bytes.toNatBig_ofNatBig (Nat.lt_trans ?_ k.modulus_lt_bytes)
  rw [powMod_eq]
  exact Nat.mod_lt _ (Nat.zero_lt_of_lt k.exponent_lt)

end PublicKey

/-! ## 2. Keys that open what they seal -/

namespace PrivateKey

/-- The padding is at least eight bytes long and ends at the first zero, so it is found again. -/
theorem unpad?_padded {k : PublicKey} {source : Nat → UInt8} {piece : Bytes}
    (hpiece : piece.length + paddingOverhead ≤ k.size) :
    unpad? (k.padded source piece) = some piece := by
  have hlength := PublicKey.length_padding source (k.size - 3 - piece.length)
  have hnonzero : ∀ x ∈ PublicKey.padding source (k.size - 3 - piece.length), (x != 0) = true :=
    fun x hx => bne_iff_ne.mpr (PublicKey.padding_ne_zero hx)
  have htake : (PublicKey.padding source (k.size - 3 - piece.length) ++ 0 :: piece).takeWhile
      (· != 0) = PublicKey.padding source (k.size - 3 - piece.length) :=
    HeadRuns.takeWhile_append hnonzero fun x hx => by
      cases hx
      rfl
  unfold PublicKey.padded
  rw [List.cons_append, List.cons_append]
  simp only [unpad?]
  rw [htake, if_neg, List.drop_left]
  rw [hlength]
  unfold paddingOverhead at hpiece
  omega

/-- A private key opens each block that its public half seals. -/
def OpensOwnBlocks (k : PrivateKey) : Prop :=
  ∀ (source : Nat → UInt8) (piece : Bytes), piece.length + paddingOverhead ≤ k.size →
    k.openBlock? (k.publicKey.sealBlock source piece) = some piece

/-- What the numbers of a key have to fulfil. -/
theorem of_ofNumbers? {modulus exponent d p q : Nat} {k : PrivateKey}
    (hk : ofNumbers? modulus exponent d p q = some k) :
    k.publicKey.modulus = modulus ∧ k.publicKey.exponent = exponent ∧ k.exponent = d ∧
      p * q = modulus ∧ undoes exponent d p = true ∧ undoes exponent d q = true ∧
      modulus.log2 < PublicKey.maxBits := by
  unfold ofNumbers? at hk
  obtain ⟨pub, hpub, hk⟩ := Option.bind_eq_some_iff.mp hk
  unfold PublicKey.ofNumbers? at hpub
  split at hpub
  · split at hpub
    · next hfit =>
      cases hpub
      split at hk
      · next hpair =>
        cases hk
        exact ⟨rfl, rfl, rfl, hpair.1, hpair.2.1, hpair.2.2, hfit.1⟩
      · cases hk
    · cases hpub
  · cases hpub

/-- By Fermat's theorem, exponents that undo each other give back every number modulo a prime. -/
theorem pow_undoes {e d p : Nat} (hp : p.Prime) (h : undoes e d p = true) (m : Nat) :
    m ^ (e * d) ≡ m [MOD p] := by
  unfold undoes at h
  rw [Bool.and_eq_true, decide_eq_true_iff, beq_iff_eq] at h
  obtain ⟨-, hone⟩ := h
  have hsplit : e * d = (p - 1) * (e * d / (p - 1)) + 1 := by
    have := Nat.div_add_mod (e * d) (p - 1)
    omega
  -- Fermat's theorem says nothing of multiples of the prime, but their powers are multiples too.
  rcases (Nat.coprime_or_dvd_of_prime hp m) with hcoprime | hdvd
  · have hfermat : m ^ (p - 1) ≡ 1 [MOD p] := by
      have := Nat.ModEq.pow_totient hcoprime.symm
      rwa [Nat.totient_prime hp] at this
    rw [hsplit, Nat.pow_succ, Nat.pow_mul]
    calc (m ^ (p - 1)) ^ (e * d / (p - 1)) * m
        ≡ 1 ^ (e * d / (p - 1)) * m [MOD p] := (hfermat.pow _).mul_right m
      _ = m := by rw [Nat.one_pow, Nat.one_mul]
  · have hzero : m ≡ 0 [MOD p] := (Nat.modEq_zero_iff_dvd).mpr hdvd
    calc m ^ (e * d) ≡ 0 ^ (e * d) [MOD p] := hzero.pow _
      _ = 0 := Nat.zero_pow (by omega)
      _ ≡ m [MOD p] := hzero.symm

/-- A key of two primes takes back the power of every number below its modulus. -/
theorem powMod_powMod {modulus exponent d p q m : Nat} {k : PrivateKey}
    (hk : ofNumbers? modulus exponent d p q = some k) (hp : p.Prime) (hq : q.Prime) (hpq : p ≠ q)
    (hm : m < modulus) : powMod (powMod m modulus exponent) modulus d = m := by
  obtain ⟨-, -, -, hmodulus, hleft, hright, -⟩ := of_ofNumbers? hk
  have hcoprime : Nat.Coprime p q := (Nat.coprime_primes hp hq).mpr hpq
  have hboth : m ^ (exponent * d) ≡ m [MOD p * q] :=
    (Nat.modEq_and_modEq_iff_modEq_mul hcoprime).mp
      ⟨pow_undoes hp hleft m, pow_undoes hq hright m⟩
  rw [hmodulus] at hboth
  rw [powMod_eq, powMod_eq]
  calc (m ^ exponent % modulus) ^ d % modulus
      = (m ^ exponent) ^ d % modulus := (Nat.pow_mod _ _ _).symm
    _ = m ^ (exponent * d) % modulus := by rw [Nat.pow_mul]
    _ = m % modulus := hboth
    _ = m := Nat.mod_eq_of_lt hm

theorem opensOwnBlocks_of_primes {modulus exponent d p q : Nat} {k : PrivateKey}
    (hk : ofNumbers? modulus exponent d p q = some k) (hp : p.Prime) (hq : q.Prime)
    (hpq : p ≠ q) : k.OpensOwnBlocks := by
  obtain ⟨hmodulus, hexponent, hd, -⟩ := of_ofNumbers? hk
  intro source piece hpiece
  have hlt := PublicKey.toNatBig_padded_lt source hpiece
  have hback := powMod_powMod hk hp hq hpq (hmodulus ▸ hlt)
  have hbytes := Bytes.ofNatBig_toNatBig (k.publicKey.padded source piece)
  rw [PublicKey.length_padded source hpiece] at hbytes
  simp only [openBlock?]
  -- A sealed block is a residue, so it is not refused for being too great.
  rw [if_neg, PublicKey.toNatBig_sealBlock, hmodulus, hexponent, hd, hback]
  · exact (congrArg unpad? hbytes).trans (unpad?_padded hpiece)
  · rintro (hbig | hsmall)
    · rw [PublicKey.toNatBig_sealBlock, powMod_eq] at hbig
      have := Nat.mod_lt (Nat.pow (Bytes.toNatBig (k.publicKey.padded source piece))
        k.publicKey.exponent) (Nat.zero_lt_of_lt hlt)
      omega
    · omega

end PrivateKey

/-! ## 3. Pieces -/

namespace Bytes

/-- Blocks of one size are found again in their concatenation. -/
theorem chunks_flatten {size : Nat} (hs : 0 < size) {blocks : List Bytes}
    (h : ∀ block ∈ blocks, block.length = size) : chunks size blocks.flatten = blocks := by
  induction blocks with
  | nil => exact chunks_nil size
  | cons block more ih =>
    rw [List.flatten_cons, chunks_append hs (h block List.mem_cons_self),
      ih fun b hb => h b (List.mem_cons_of_mem block hb)]

theorem length_flatten_of_length {size : Nat} {blocks : List Bytes}
    (h : ∀ block ∈ blocks, block.length = size) :
    blocks.flatten.length = blocks.length * size := by
  induction blocks with
  | nil => exact (Nat.zero_mul size).symm
  | cons block more ih =>
    rw [List.flatten_cons, List.length_append, h block List.mem_cons_self, List.length_cons,
      Nat.add_mul, Nat.one_mul, Nat.add_comm size, ih fun b hb => h b (List.mem_cons_of_mem block hb)]

theorem length_chunks {size : Nat} (hs : 0 < size) (b : Bytes) :
    (chunks size b).length = (b.length + (size - 1)) / size := by
  fun_induction chunks size b with
  | case1 => exact (Nat.div_eq_of_lt (by simpa using Nat.sub_one_lt_of_lt hs)).symm
  | case2 x rest ih =>
    rw [List.length_cons, List.length_cons, ih, List.length_drop]
    rcases Nat.lt_or_ge rest.length (size - 1) with hlast | hmore
    · -- The last piece is a short one.
      have hzero : rest.length - (size - 1) = 0 := by omega
      have hone : rest.length + 1 + (size - 1) = rest.length + size := by omega
      rw [hzero, Nat.zero_add, hone, Nat.add_div_right _ hs,
        Nat.div_eq_of_lt (show size - 1 < size by omega),
        Nat.div_eq_of_lt (show rest.length < size by omega)]
    · have hsum : rest.length - (size - 1) + (size - 1) = rest.length := by omega
      have hone : rest.length + 1 + (size - 1) = rest.length + size := by omega
      rw [hsum, hone, Nat.add_div_right _ hs]

end Bytes

/-! ## 4. Bodies -/

namespace PublicKey

/-- The sealed blocks of pieces that are numbered from an index on. -/
def sealedBlocks (k : PublicKey) (source : PaddingSource) (index : Nat) (pieces : List Bytes) :
    List Bytes :=
  (pieces.zipIdx index).map fun e => k.sealBlock (source e.2) e.1

theorem length_of_mem_sealedBlocks {k : PublicKey} {source : PaddingSource} {index : Nat}
    {pieces : List Bytes} : ∀ block ∈ k.sealedBlocks source index pieces,
      block.length = k.size := by
  intro block hblock
  obtain ⟨e, -, rfl⟩ := List.mem_map.mp hblock
  exact length_sealBlock

/-- A body is sealed as the blocks of its pieces, if the key has room for a piece. -/
theorem sealBody_eq {k : PublicKey} (hsize : paddingOverhead < k.size) (source : PaddingSource)
    (body : Bytes) : k.sealBody source body =
      .ok (k.sealedBlocks source 0 (Bytes.chunks (k.size - paddingOverhead) body)).flatten := by
  obtain ⟨room, hroom⟩ := Nat.exists_eq_add_one.mpr (Nat.sub_pos_of_lt hsize)
  have hfits : k.room? = some (room + 1) := by
    unfold room?
    rw [if_pos (Nat.le_of_lt hsize), hroom]
  unfold sealBody sealedBlocks
  rw [hfits, hroom, ← List.flatMap_def]
  rfl

end PublicKey

namespace PrivateKey

variable {k : PrivateKey}

/-- Opening undoes sealing block by block, and so it does from any number on. -/
theorem openBlocks_sealedBlocks (hk : k.OpensOwnBlocks) (source : PaddingSource)
    {pieces : List Bytes} (hpieces : ∀ piece ∈ pieces, piece.length + paddingOverhead ≤ k.size)
    (first index : Nat) :
    k.openBlocks index (k.publicKey.sealedBlocks source first pieces) = .ok pieces.flatten := by
  induction pieces generalizing first index with
  | nil => rfl
  | cons piece more ih =>
    unfold PublicKey.sealedBlocks at ih ⊢
    -- The numbers only pick the padding, which the induction leaves open.
    rw [List.zipIdx_cons, List.map_cons, openBlocks,
      hk (source first) piece (hpieces piece List.mem_cons_self)]
    simp only []
    rw [ih fun p hp => hpieces p (List.mem_cons_of_mem piece hp)]
    rfl

theorem openBody_sealBody (hk : k.OpensOwnBlocks) (hsize : paddingOverhead < k.size)
    (source : PaddingSource) (body : Bytes) :
    ∃ sealedBody, k.publicKey.sealBody source body = .ok sealedBody ∧
      k.openBody sealedBody = .ok body ∧
      sealedBody.length = (body.length + (k.size - paddingOverhead - 1)) /
        (k.size - paddingOverhead) * k.size := by
  have hroom : 0 < k.size - paddingOverhead := Nat.sub_pos_of_lt hsize
  have hpieces : ∀ piece ∈ Bytes.chunks (k.size - paddingOverhead) body,
      piece.length + paddingOverhead ≤ k.size := by
    intro piece hpiece
    have := (Bytes.length_of_mem_chunks hroom hpiece).2
    omega
  have hlength : (k.publicKey.sealedBlocks source 0
      (Bytes.chunks (k.size - paddingOverhead) body)).flatten.length =
        (body.length + (k.size - paddingOverhead - 1)) / (k.size - paddingOverhead) * k.size := by
    rw [Bytes.length_flatten_of_length PublicKey.length_of_mem_sealedBlocks,
      PublicKey.sealedBlocks, List.length_map, List.length_zipIdx, Bytes.length_chunks hroom]
    rfl
  have hsealed : k.publicKey.sealBody source body = .ok (k.publicKey.sealedBlocks source 0
      (Bytes.chunks (k.size - paddingOverhead) body)).flatten :=
    PublicKey.sealBody_eq hsize source body
  refine ⟨_, hsealed, ?_, hlength⟩
  unfold openBody
  rw [if_neg (fun h => h (by rw [hlength]; exact Nat.mul_mod_left _ _)),
    Bytes.chunks_flatten (Nat.zero_lt_of_lt hsize) PublicKey.length_of_mem_sealedBlocks,
    openBlocks_sealedBlocks hk source hpieces 0 0, Bytes.flatten_chunks]

/-! ## 5. Lengths -/

theorem length_unpad?_le {block piece : Bytes} (h : unpad? block = some piece) :
    piece.length ≤ block.length := by
  unfold unpad? at h
  split at h
  next rest =>
    dsimp only at h
    split at h
    next => cases h
    next =>
      split at h
      next first tail hdrop =>
        obtain rfl := Option.some.inj h
        have hlength := congrArg List.length hdrop
        rw [List.length_drop, List.length_cons] at hlength
        rw [List.length_cons, List.length_cons]
        omega
      next => cases h
  next => cases h

theorem length_openBlock?_le {block piece : Bytes} (h : k.openBlock? block = some piece) :
    piece.length ≤ k.size := by
  unfold openBlock? at h
  dsimp only at h
  split at h
  next => cases h
  next => exact (length_unpad?_le h).trans_eq (Bytes.length_ofNatBig _ _)

theorem length_openBlocks_le {blocks : List Bytes} {index : Nat} {body : Bytes}
    (hblocks : ∀ block ∈ blocks, block.length = k.size)
    (h : k.openBlocks index blocks = .ok body) : body.length ≤ blocks.flatten.length := by
  induction blocks generalizing index body with
  | nil =>
    obtain rfl := Except.ok.inj h
    exact Nat.le_refl 0
  | cons block more ih =>
    unfold openBlocks at h
    cases hpiece : k.openBlock? block with
    | none =>
      rw [hpiece] at h
      cases h
    | some piece =>
      cases hrest : k.openBlocks (index + 1) more with
      | error f =>
        simp only [hpiece, hrest] at h
        cases h
      | ok rest =>
        simp only [hpiece, hrest] at h
        obtain rfl := Except.ok.inj h
        rw [List.length_append, List.flatten_cons, List.length_append,
          hblocks block List.mem_cons_self]
        exact Nat.add_le_add (length_openBlock?_le hpiece)
          (ih (fun b hb => hblocks b (List.mem_cons_of_mem block hb)) hrest)

/-- Every block gives up its padding, so an opened body is no longer than the sealed one. -/
theorem length_openBody_le {sealedBody body : Bytes} (h : k.openBody sealedBody = .ok body) :
    body.length ≤ sealedBody.length := by
  unfold openBody at h
  split at h
  next => cases h
  next heven =>
    have hsize : 0 < k.size := by
      unfold size PublicKey.size
      omega
    have hblocks : ∀ block ∈ Bytes.chunks k.size sealedBody, block.length = k.size :=
      fun block => Bytes.length_of_mem_chunks_of_dvd hsize
        (Nat.dvd_of_mod_eq_zero (not_not.mp heven))
    simpa only [Bytes.flatten_chunks] using length_openBlocks_le hblocks h

end PrivateKey
end Metering
