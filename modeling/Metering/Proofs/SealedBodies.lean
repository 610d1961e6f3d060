import Mathlib.Algebra.Order.Floor.Div
import Metering.Proofs.PayloadLayers

/-!
Sealed bodies, block by block.

The two ends cut a body by sizes of their own: the near end into pieces that leave room for the
padding, the far end into blocks. A block is as long as the modulus of its key, and nothing asks of
a key that is loaded that this be more than the padding takes up.

Results:
1. `PublicKey.size_le_iff`: how long a block is; `PublicKey.sealing_stops_iff`: the keys that cannot
   seal.
2. `PrivateKey.openBlocks_eq_ok_iff`, `PrivateKey.openBlocks_eq_error_iff`: when blocks open, and
   what is said if they do not.
3. `PrivateKey.opens_block_by_block`: sealing and opening are a matter of each block alone.
-/
namespace Metering

/-! ## 1. Keys that can seal -/

namespace PublicKey

/-- A block has the length of the modulus in bytes. -/
theorem size_le_iff (k : PublicKey) (n : Nat) : k.size ≤ n ↔ k.modulus < 256 ^ n := by
  constructor
  · intro hsize
    exact k.modulus_lt_bytes.trans_le (Nat.pow_le_pow_right (by decide) hsize)
  · intro hmodulus
    by_contra hlong
    have hpow : 256 ^ n ≤ 256 ^ (k.size - 1) := Nat.pow_le_pow_right (by decide) (by omega)
    exact absurd (hpow.trans k.bytes_le_modulus) (Nat.not_le.mpr hmodulus)

theorem size_pos (k : PublicKey) : 0 < k.size := by
  unfold size
  omega

/-- The bounds of a key that was read from a text. -/
theorem log2_lt_of_parse {text : Bytes} {k : PublicKey} (h : parse text = .ok k) :
    k.modulus.log2 < maxBits := by
  unfold parse at h
  split at h
  next key hkey =>
    obtain rfl := Except.ok.inj h
    unfold ofPem? at hkey
    obtain ⟨document, -, hkey⟩ := Option.bind_eq_some_iff.mp hkey
    obtain ⟨ns, -, hkey⟩ := Option.bind_eq_some_iff.mp hkey
    unfold ofNumbers? at hkey
    split at hkey
    next =>
      split at hkey
      next hfit =>
        obtain rfl := Option.some.inj hkey
        exact hfit.1
      next => cases hkey
    next => cases hkey
  next => cases h

theorem room?_of_le {k : PublicKey} (h : paddingOverhead ≤ k.size) :
    k.room? = some (k.size - paddingOverhead) := if_pos h

theorem room?_eq_none_iff {k : PublicKey} : k.room? = none ↔ k.size < paddingOverhead := by
  unfold room?
  split
  next hfits => exact ⟨nofun, fun hshort => absurd hfits (Nat.not_le.mpr hshort)⟩
  next hshort => exact ⟨fun _ => Nat.not_le.mp hshort, fun _ => rfl⟩

/-- A key without room for a piece has no answer for any body, not even for an empty one. -/
theorem sealBody_of_short {k : PublicKey} (h : k.size ≤ paddingOverhead) (source : PaddingSource)
    (body : Bytes) : k.sealBody source body = .error .stops := by
  unfold sealBody
  rcases Nat.lt_or_eq_of_le h with hless | hequal
  · rw [room?_eq_none_iff.mpr hless]
  · rw [room?_of_le (Nat.le_of_eq hequal.symm), hequal, Nat.sub_self]
    rfl

/-- A key that was read from a text seals every body or none. Its blocks are as long as its modulus,
which is all that matters: below `2 ^ 80` it has no room for the padding, below `2 ^ 88` none for a
piece, and sealing with either has no answer. From there on every piece has a byte at least and no
more than there is room for, and every body is sealed and none refused. -/
theorem sealing_stops_iff {text : Bytes} {k : PublicKey} (hk : parse text = .ok k) :
    (1 ≤ k.size ∧ k.size ≤ PrivateKey.maxSize) ∧
    (k.room? = none ↔ k.modulus < 2 ^ 80) ∧
    (k.room? = some 0 ↔ 2 ^ 80 ≤ k.modulus ∧ k.modulus < 2 ^ 88) ∧
    (∀ source body, k.sealBody source body = .error .stops ↔ k.modulus < 2 ^ 88) ∧
    (2 ^ 88 ≤ k.modulus → ∃ room, k.room? = some room ∧ 1 ≤ room ∧ room + paddingOverhead = k.size ∧
      ∀ source body,
        (∀ piece ∈ Bytes.chunks room body, 1 ≤ piece.length ∧ piece.length ≤ room) ∧
        ∃ sealedBody, k.sealBody source body = .ok sealedBody) := by
  have hlow : k.size < paddingOverhead ↔ k.modulus < 2 ^ 80 := by
    rw [← Nat.le_sub_one_iff_lt (by decide), size_le_iff]
    rfl
  have hhigh : k.size ≤ paddingOverhead ↔ k.modulus < 2 ^ 88 := k.size_le_iff paddingOverhead
  have hok : ∀ source body, paddingOverhead < k.size →
      ∃ sealedBody, k.sealBody source body = .ok sealedBody :=
    fun source body hlong => ⟨_, sealBody_eq hlong source body⟩
  refine ⟨⟨k.size_pos, ?_⟩, room?_eq_none_iff.trans hlow, ?_, fun source body => ⟨?_, ?_⟩, ?_⟩
  · have hbits := log2_lt_of_parse hk
    unfold PrivateKey.maxSize size
    unfold maxBits at hbits ⊢
    omega
  · rw [← hhigh, ← not_lt, ← hlow]
    unfold room?
    split
    next hfits => simp only [Option.some.injEq]; omega
    next hshort => simp only [reduceCtorEq, false_iff]; omega
  · intro hstops
    rw [← hhigh]
    by_contra hlong
    obtain ⟨sealedBody, hsealed⟩ := hok source body (Nat.not_le.mp hlong)
    rw [hsealed] at hstops
    cases hstops
  · intro hmodulus
    exact sealBody_of_short (hhigh.mpr hmodulus) source body
  · intro hmodulus
    have hlong : paddingOverhead < k.size := by
      rw [← Nat.not_le, hhigh]
      exact Nat.not_lt.mpr hmodulus
    have hroom : 0 < k.size - paddingOverhead := Nat.sub_pos_of_lt hlong
    refine ⟨_, room?_of_le (Nat.le_of_lt hlong), hroom, Nat.sub_add_cancel (Nat.le_of_lt hlong),
      fun source body => ⟨fun piece hpiece => ?_, hok source body hlong⟩⟩
    exact Bytes.length_of_mem_chunks hroom hpiece

/-- A key of thirteen bytes: there is room for two. -/
theorem sealing_stops_iff_room_for_two :
    let text := "-----BEGIN PUBLIC KEY-----\n" ++
      "MCYwDQYJKoZIhvcNAQEBBQADFQAwEgINDwAAAAACgAYAAAAAAQIBBw==\n" ++
      "-----END PUBLIC KEY-----\n"
    let k := PrivateKey.small.publicKey
    parse (Bytes.ofText text) = .ok k ∧ 2 ^ 88 ≤ k.modulus ∧
      ∃ sealedBody, k.sealBody (fun _ _ => 0) [7, 8, 9] = .ok sealedBody := by
  intro text k
  have hk : parse (Bytes.ofText text) = .ok k := by decide +kernel
  have hlong : 2 ^ 88 ≤ k.modulus := by decide
  obtain ⟨room, -, -, -, hseals⟩ := (sealing_stops_iff hk).2.2.2.2 hlong
  exact ⟨hk, hlong, (hseals (fun _ _ => 0) [7, 8, 9]).2⟩

/-- Keys of eleven bytes and of one byte are read like any other. There is no room for a piece in
the one and none for the padding in the other, and sealing an empty body has no answer. -/
theorem short_keys_read :
    let eleven := "-----BEGIN PUBLIC KEY-----\n" ++
      "MCcwDQYJKoZIhvcNAQEBBQADFgAwEwIMAP/////3oAAAAAfFAgMBAAE=\n" ++
      "-----END PUBLIC KEY-----\n"
    let one := "-----BEGIN PUBLIC KEY-----\n" ++
      "MBowDQYJKoZIhvcNAQEBBQADCQAwBgIBBQIBAw==\n" ++
      "-----END PUBLIC KEY-----\n"
    (∃ k, parse (Bytes.ofText eleven) = .ok k ∧ k.size = 11 ∧ k.room? = some 0 ∧
      k.sealBody (fun _ _ => 0) [] = .error .stops) ∧
    ∃ k, parse (Bytes.ofText one) = .ok k ∧ k.size = 1 ∧ k.room? = none ∧
      k.sealBody (fun _ _ => 0) [] = .error .stops := by
  intro eleven one
  have heleven : parse (Bytes.ofText eleven) =
      .ok ⟨309485009818987715794831301, 65537, by decide⟩ := by decide +kernel
  have hone : parse (Bytes.ofText one) = .ok ⟨5, 3, by decide⟩ := by decide +kernel
  exact ⟨⟨_, heleven, by decide +kernel⟩, ⟨_, hone, by decide +kernel⟩⟩

end PublicKey

/-! ## 2. Blocks one after another -/

namespace Bytes

/-- The pieces of one size that a byte string is made of. -/
structure Cut (size : Nat) (pieces : List Bytes) (b : Bytes) : Prop where
  whole : pieces.flatten = b
  even : ∀ piece ∈ pieces, piece.length = size

variable {size : Nat} {pieces more : List Bytes} {b c : Bytes}

theorem Cut.chunks_eq (h : Cut size pieces b) (hs : 0 < size) : chunks size b = pieces := by
  rw [← h.whole]
  exact chunks_flatten hs h.even

theorem Cut.append (hb : Cut size pieces b) (hc : Cut size more c) :
    Cut size (pieces ++ more) (b ++ c) where
  whole := by rw [List.flatten_append, hb.whole, hc.whole]
  even := by
    intro piece hpiece
    rcases List.mem_append.mp hpiece with hpiece | hpiece
    · exact hb.even piece hpiece
    · exact hc.even piece hpiece

theorem Cut.dvd_length (h : Cut size pieces b) : size ∣ b.length := by
  rw [← h.whole, length_flatten_of_length h.even]
  exact Nat.dvd_mul_left ..

/-- Whatever a size divides can be cut into pieces of it. -/
theorem cut_chunks (hs : 0 < size) (hd : size ∣ b.length) : Cut size (chunks size b) b where
  whole := flatten_chunks size b
  even := fun _ => length_of_mem_chunks_of_dvd hs hd

end Bytes

namespace PrivateKey

variable {k : PrivateKey} {blocks : List Bytes} {index : Nat}

/-- The block with this number does not open, and all before it do. -/
def FailsFirst (k : PrivateKey) (blocks : List Bytes) (number : Nat) : Prop :=
  ∃ before block after, blocks = before ++ block :: after ∧ before.length = number ∧
    (∀ b ∈ before, k.openBlock? b ≠ none) ∧ k.openBlock? block = none

theorem size_pos (k : PrivateKey) : 0 < k.size := k.publicKey.size_pos

theorem openBlocks_cons_none {block : Bytes} (h : k.openBlock? block = none) (more : List Bytes) :
    k.openBlocks index (block :: more) = .error ⟨.decryption, .sealedBlock index blockReason⟩ := by
  rw [openBlocks, h]

theorem openBlocks_cons_some {block piece : Bytes} (h : k.openBlock? block = some piece)
    (more : List Bytes) :
    k.openBlocks index (block :: more) = (k.openBlocks (index + 1) more).map (piece ++ ·) := by
  rw [openBlocks, h]
  cases k.openBlocks (index + 1) more <;> rfl

/-- Blocks open if each of them does, and give their pieces in order. -/
theorem openBlocks_eq_ok_iff {body : Bytes} : k.openBlocks index blocks = .ok body ↔
    ∃ pieces : List Bytes, blocks.map k.openBlock? = pieces.map some ∧ body = pieces.flatten := by
  induction blocks generalizing index body with
  | nil =>
    constructor
    · intro h
      exact ⟨[], rfl, (Except.ok.inj h).symm⟩
    · rintro ⟨pieces, hpieces, rfl⟩
      obtain rfl := List.map_eq_nil_iff.mp hpieces.symm
      rfl
  | cons block more ih =>
    cases hblock : k.openBlock? block with
    | none =>
      rw [openBlocks_cons_none hblock]
      refine ⟨nofun, ?_⟩
      rintro ⟨_ | ⟨piece, pieces⟩, hpieces, -⟩ <;> simp [hblock] at hpieces
    | some piece =>
      rw [openBlocks_cons_some hblock, List.map_cons, hblock]
      constructor
      · intro h
        cases hmore : k.openBlocks (index + 1) more with
        | error f =>
          rw [hmore] at h
          cases h
        | ok rest =>
          rw [hmore] at h
          obtain ⟨pieces, hpieces, rfl⟩ := ih.mp hmore
          exact ⟨piece :: pieces, congrArg (some piece :: ·) hpieces, (Except.ok.inj h).symm⟩
      · rintro ⟨_ | ⟨first, pieces⟩, hpieces, rfl⟩
        · cases hpieces
        · obtain ⟨hfirst, hrest⟩ := List.cons.inj hpieces
          rw [ih.mpr ⟨pieces, hrest, rfl⟩, Option.some.inj hfirst]
          rfl

/-- Blocks that do not all open are refused with the number of the first one that does not. -/
theorem openBlocks_eq_error_iff {f : Failure} : k.openBlocks index blocks = .error f ↔
    ∃ number, k.FailsFirst blocks number ∧
      f = ⟨.decryption, .sealedBlock (index + number) blockReason⟩ := by
  induction blocks generalizing index with
  | nil =>
    refine ⟨nofun, ?_⟩
    rintro ⟨_, ⟨before, block, after, hsplit, -⟩, -⟩
    exact absurd hsplit.symm (List.append_ne_nil_of_right_ne_nil _ (List.cons_ne_nil _ _))
  | cons block more ih =>
    cases hblock : k.openBlock? block with
    | none =>
      rw [openBlocks_cons_none hblock]
      constructor
      · intro h
        exact ⟨0, ⟨[], block, more, rfl, rfl, nofun, hblock⟩, (Except.error.inj h).symm⟩
      · rintro ⟨_, ⟨_ | ⟨first, before⟩, bad, after, hsplit, rfl, hgood, -⟩, rfl⟩
        · rfl
        · obtain ⟨rfl, -⟩ := List.cons.inj hsplit
          exact absurd hblock (hgood block List.mem_cons_self)
    | some piece =>
      rw [openBlocks_cons_some hblock]
      have hmap : (k.openBlocks (index + 1) more).map (piece ++ ·) = .error f ↔
          k.openBlocks (index + 1) more = .error f := by
        cases k.openBlocks (index + 1) more <;> simp [Except.map]
      rw [hmap, ih]
      constructor
      · rintro ⟨number, ⟨before, bad, after, rfl, rfl, hgood, hbad⟩, rfl⟩
        refine ⟨before.length + 1, ⟨block :: before, bad, after, rfl, rfl, ?_, hbad⟩, ?_⟩
        · exact List.forall_mem_cons.mpr ⟨by rw [hblock]; nofun, hgood⟩
        · rw [Nat.add_assoc, Nat.add_comm 1]
      · rintro ⟨_, ⟨_ | ⟨first, before⟩, bad, after, hsplit, rfl, hgood, hbad⟩, rfl⟩
        · obtain ⟨rfl, -⟩ := List.cons.inj hsplit
          rw [hblock] at hbad
          cases hbad
        · obtain ⟨-, rfl⟩ := List.cons.inj hsplit
          refine ⟨before.length, ⟨before, bad, after, rfl, rfl, ?_, hbad⟩, ?_⟩
          · exact (List.forall_mem_cons.mp hgood).2
          · rw [List.length_cons, Nat.add_assoc, Nat.add_comm 1]

/-! ## 3. Whole bodies -/

theorem openBody_of_cut {body : Bytes} (h : Bytes.Cut k.size blocks body) :
    k.openBody body = k.openBlocks 0 blocks := by
  unfold openBody
  rw [if_neg (not_not.mpr (Nat.mod_eq_zero_of_dvd h.dvd_length)), h.chunks_eq k.size_pos]

theorem openBody_eq_lengthFault_iff {body : Bytes} :
    k.openBody body = .error ⟨.decryption, .sealedLength body.length k.size⟩ ↔
      ¬ k.size ∣ body.length := by
  constructor
  · intro h hdvd
    rw [openBody_of_cut (Bytes.cut_chunks k.size_pos hdvd), openBlocks_eq_error_iff] at h
    obtain ⟨number, -, hcause⟩ := h
    cases hcause
  · intro hodd
    exact if_pos fun hzero => hodd (Nat.dvd_of_mod_eq_zero hzero)

theorem cut_of_openBody {body plain : Bytes} (h : k.openBody body = .ok plain) :
    ∃ blocks, Bytes.Cut k.size blocks body ∧ k.openBlocks 0 blocks = .ok plain := by
  have hdvd : k.size ∣ body.length := by
    by_contra hodd
    rw [openBody_eq_lengthFault_iff.mpr hodd] at h
    cases h
  have hcut := Bytes.cut_chunks k.size_pos hdvd
  exact ⟨_, hcut, openBody_of_cut hcut ▸ h⟩

/-- Sealing and opening are a matter of each block alone.

* With a key that opens its own blocks and has room for a piece, a body becomes one block for each
  piece of it, the last one begun included, and opens as the same body, whatever the padding.
* A body whose length the block does not divide is refused for its length, and no other body is.
* Any other body is one list of blocks. It is refused exactly if some block does not open, with the
  number of the first one; otherwise it opens as what its blocks hold, one after another.
* Two bodies that open can be put one behind the other, and open as what both hold. -/
theorem opens_block_by_block (k : PrivateKey) :
    (k.OpensOwnBlocks → paddingOverhead < k.size → ∀ source body, ∃ blocks sealedBody,
      k.publicKey.sealBody source body = .ok sealedBody ∧ Bytes.Cut k.size blocks sealedBody ∧
      blocks.length = body.length ⌈/⌉ (k.size - paddingOverhead) ∧
      k.openBody sealedBody = .ok body) ∧
    (∀ body, k.openBody body = .error ⟨.decryption, .sealedLength body.length k.size⟩ ↔
      ¬ k.size ∣ body.length) ∧
    (∀ body, k.size ∣ body.length → ∃ blocks, Bytes.Cut k.size blocks body ∧
      (∀ f, k.openBody body = .error f ↔ ∃ number, k.FailsFirst blocks number ∧
        f = ⟨.decryption, .sealedBlock number blockReason⟩) ∧
      ∀ plain, k.openBody body = .ok plain ↔ ∃ pieces : List Bytes,
        blocks.map k.openBlock? = pieces.map some ∧ plain = pieces.flatten) ∧
    ∀ a b x y, k.openBody a = .ok x → k.openBody b = .ok y →
      k.openBody (a ++ b) = .ok (x ++ y) := by
  refine ⟨?_, fun body => openBody_eq_lengthFault_iff, ?_, ?_⟩
  · intro hk hroom source body
    obtain ⟨sealedBody, hsealed, hopened, hlength⟩ := openBody_sealBody hk hroom source body
    have hcut := Bytes.cut_chunks k.size_pos (b := sealedBody) (hlength ▸ Nat.dvd_mul_left ..)
    refine ⟨_, sealedBody, hsealed, hcut, ?_, hopened⟩
    have hcount := Bytes.length_flatten_of_length hcut.even
    rw [hcut.whole, hlength] at hcount
    rw [← Nat.eq_of_mul_eq_mul_right k.size_pos hcount, Nat.ceilDiv_eq_add_pred_div,
      Nat.add_sub_assoc (Nat.sub_pos_of_lt hroom)]
  · intro body hdvd
    have hcut := Bytes.cut_chunks k.size_pos hdvd
    refine ⟨_, hcut, fun f => ?_, fun plain => ?_⟩
    · rw [openBody_of_cut hcut, openBlocks_eq_error_iff]
      simp only [Nat.zero_add]
    · rw [openBody_of_cut hcut, openBlocks_eq_ok_iff]
  · intro a b x y ha hb
    obtain ⟨blocks, hcut, hopened⟩ := cut_of_openBody ha
    obtain ⟨more, hmore, hopened'⟩ := cut_of_openBody hb
    obtain ⟨pieces, hpieces, rfl⟩ := openBlocks_eq_ok_iff.mp hopened
    obtain ⟨pieces', hpieces', rfl⟩ := openBlocks_eq_ok_iff.mp hopened'
    rw [openBody_of_cut (hcut.append hmore), openBlocks_eq_ok_iff]
    refine ⟨pieces ++ pieces', ?_, List.flatten_append.symm⟩
    rw [List.map_append, List.map_append, hpieces, hpieces']

/-- Two full pieces; a block twice, the second time cut short, and with a block of zeros behind
it. -/
theorem opens_block_by_block_of_small :
    let block : Bytes := [12, 64, 56, 226, 90, 0, 241, 231, 107, 158, 249, 41, 180]
    let zeros : Bytes := List.replicate 13 0
    small.OpensOwnBlocks ∧ paddingOverhead < small.size ∧
      (∃ blocks sealedBody, small.publicKey.sealBody (fun _ _ => 0) [1, 2, 3, 4] = .ok sealedBody ∧
        Bytes.Cut small.size blocks sealedBody ∧ blocks.length = 2 ∧
        small.openBody sealedBody = .ok [1, 2, 3, 4]) ∧
      small.openBody block = .ok [5] ∧ small.openBody (block ++ block) = .ok [5, 5] ∧
      small.openBody (block ++ block.take 6) = .error ⟨.decryption, .sealedLength 19 13⟩ ∧
      small.openBody (block ++ zeros) = .error ⟨.decryption, .sealedBlock 1 blockReason⟩ ∧
      ∃ blocks, Bytes.Cut small.size blocks (block ++ zeros) ∧
        ∃ number, small.FailsFirst blocks number := by
  intro block zeros
  obtain ⟨hseals, hlength, hblocks, happend⟩ := opens_block_by_block small
  have hopens := usable_small.opens
  have hroom := usable_small.room
  have hblock : small.openBody block = .ok [5] := by decide +kernel
  have hzeros : small.openBody (block ++ zeros) =
      .error ⟨.decryption, .sealedBlock 1 blockReason⟩ := by decide +kernel
  obtain ⟨blocks, hcut, hfails, -⟩ := hblocks (block ++ zeros) (by decide)
  obtain ⟨number, hnumber, -⟩ := (hfails _).mp hzeros
  exact ⟨hopens, hroom, hseals hopens hroom _ _, hblock, happend _ _ _ _ hblock hblock,
    (hlength _).mpr (by decide), hzeros, blocks, hcut, number, hnumber⟩

end PrivateKey

end Metering
