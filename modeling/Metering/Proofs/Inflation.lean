import Mathlib.Algebra.Ring.Nat
import Metering.Proofs.Chaining
import Metering.Wire.Gzip

/-!
What was compressed can be inflated.

A writer of compressed data and a reader of it agree on three things: on the classes of lengths
and distances, on the words of the fixed codes, and on where the data ends. Bits that fill up the
last byte belong to the data, and whatever follows that byte does not.

Results:
1. `ClassTable.readValue_classOf`: a value is read back from its class and its field.
2. `Token.sound_ofBytes`: the tokens of a byte string have lengths and distances with a class.
3. `Inflate.read_write`: the reader takes what was written, and nothing else.
4. `Gzip.decompress_compress`: inflating undoes compressing.
5. `Gzip.length_compress_le`: compressing lengthens a byte string by a third at most.
-/
namespace Metering

/-! ## 1. Classes -/

namespace ClassTable

/-- The least value of the class behind a given one, or the first value beyond all classes. -/
def nextBase (table : ClassTable) (limit i : Nat) : Nat :=
  (table[i + 1]?.map Prod.fst).getD (limit + 1)

/-- The classes leave no gap up to a limit, and the first of them starts at `least`. -/
structure Covers (table : ClassTable) (least limit : Nat) : Prop where
  first : table.head?.map Prod.fst = some least
  joined : ∀ i, (h : i < table.length) → table.nextBase limit i ≤ table[i].1 + 2 ^ table[i].2

theorem covers_lengths : Covers lengths 3 258 := ⟨rfl, by decide⟩

theorem covers_distances : Covers distances 1 32768 := ⟨rfl, by decide⟩

/-- The class that is found holds the value, if there is one that starts at the value or before. -/
theorem foldl_classOf (table : ClassTable) (n k : Nat) (start : Nat × Nat × Nat) :
    let found := (table.zipIdx k).foldl
      (fun found e => if e.1.1 ≤ n then (e.2, e.1) else found) start
    (found = start ∧ ∀ e ∈ table, n < e.1) ∨
      ∃ i, ∃ h : i < table.length, found = (k + i, table[i]) ∧ table[i].1 ≤ n ∧
        ∀ e, table[i + 1]? = some e → n < e.1 := by
  induction table generalizing k start with
  | nil => exact .inl ⟨rfl, fun e he => by cases he⟩
  | cons e table ih =>
    rw [List.zipIdx_cons, List.foldl_cons]
    rcases ih (k + 1) (if e.1 ≤ n then (k, e) else start) with
      ⟨hsame, hall⟩ | ⟨i, hi, hfound, hle, hnext⟩
    · by_cases he : e.1 ≤ n
      · refine .inr ⟨0, Nat.succ_pos _, ?_, he, fun e' he' => ?_⟩
        · rw [hsame, if_pos he]
          rfl
        · exact hall e' (List.mem_of_getElem? he')
      · refine .inl ⟨?_, fun e' he' => ?_⟩
        · rw [hsame, if_neg he]
        · rcases List.mem_cons.mp he' with rfl | he'
          · exact Nat.lt_of_not_le he
          · exact hall e' he'
    · refine .inr ⟨i + 1, Nat.succ_lt_succ hi, ?_, hle, hnext⟩
      rw [hfound]
      congr 1
      omega

theorem classOf_spec {table : ClassTable} {least limit n : Nat} (h : Covers table least limit)
    (hleast : least ≤ n) (hlimit : n ≤ limit) :
    let found := table.classOf n
    table[found.1]? = some found.2 ∧ found.2.1 ≤ n ∧ n < found.2.1 + 2 ^ found.2.2 := by
  rcases foldl_classOf table n 0 (0, 0, 0) with ⟨-, hall⟩ | ⟨i, hi, hfound, hle, hnext⟩
  · cases htable : table with
    | nil =>
      have := h.first
      rw [htable] at this
      cases this
    | cons e more =>
      have hfirst := h.first
      rw [htable] at hfirst
      have hbase : e.1 = least := Option.some.inj hfirst
      have := hall e (htable ▸ List.mem_cons_self)
      omega
  · unfold classOf
    rw [hfound, Nat.zero_add]
    refine ⟨List.getElem?_eq_getElem hi, hle, Nat.lt_of_lt_of_le ?_ (h.joined i hi)⟩
    unfold nextBase
    cases hlast : table[i + 1]? with
    | none => exact Nat.lt_succ_of_le hlimit
    | some e => exact hnext e hlast

/-- A value is read back from its class and the field behind it. -/
theorem readValue_classOf {table : ClassTable} {least limit n : Nat}
    (h : Covers table least limit) (hleast : least ≤ n) (hlimit : n ≤ limit) (rest : Bits) :
    table.readValue (table.classOf n).1
      (Bits.fieldBits (table.classOf n).2.2 (n - (table.classOf n).2.1) ++ rest) =
        .ok (n, rest) := by
  obtain ⟨hentry, hle, hlt⟩ := classOf_spec h hleast hlimit
  unfold readValue
  rw [hentry]
  dsimp only
  rw [Bits.field_fieldBits (show _ < Nat.pow 2 _ from Nat.sub_lt_left_of_lt_add hle hlt)]
  dsimp only
  rw [Nat.add_sub_cancel' hle]

end ClassTable

/-! ## 2. Tokens -/

namespace Token

/-- Lengths and distances that have a class. -/
def Sound : Token → Prop
  | .literal _ => True
  | .copy length distance =>
    (leastLength ≤ length ∧ length ≤ greatestLength) ∧ 1 ≤ distance ∧ distance ≤ greatestDistance

theorem agreement_le (data : Array UInt8) (j i limit : Nat) : agreement data j i limit ≤ limit := by
  induction limit generalizing j i with
  | zero => exact Nat.le_refl 0
  | succ limit ih =>
    unfold agreement
    split
    · exact Nat.succ_le_succ (ih _ _)
    · exact Nat.zero_le _

theorem sound_choose (data : Array UInt8) (i : Nat) (hint : Option Nat) :
    (choose data i hint).1.Sound := by
  unfold choose
  cases hint with
  | none => exact trivial
  | some j =>
    dsimp only
    split
    next h => exact ⟨⟨h.2.2, agreement_le _ _ _ _⟩, by omega, h.2.1⟩
    next => exact trivial

theorem sound_tokensFrom {data : Array UInt8} (seen : Std.HashMap Nat Nat) (done : Array Token)
    (i : Nat) (h : ∀ t ∈ done.toList, t.Sound) :
    ∀ t ∈ (tokensFrom data seen done i).toList, t.Sound := by
  fun_induction tokensFrom data seen done i with
  | case1 seen done i hi next ih =>
    refine ih fun t ht => ?_
    rw [Array.toList_push] at ht
    rcases List.mem_append.mp ht with ht | ht
    · exact h t ht
    · rw [List.mem_singleton.mp ht]
      exact sound_choose data i _
  | case2 seen done i hi => exact h

theorem sound_ofBytes (data : Bytes) : ∀ t ∈ ofBytes data, t.Sound :=
  sound_tokensFrom ∅ #[] 0 fun _ ht => by cases ht

end Token

/-! ## 3. Blocks -/

namespace Inflate

-- Lean's own equations for `tokens` compare a symbol with 256 digit by digit, so the comparison is
-- kept shut while one step is laid open.
attribute [local irreducible] endSymbol in
theorem tokens_succ (code : BlockCode) (fuel : Nat) (out : Window) (bits : Bits) :
    tokens code (fuel + 1) out bits =
      match code.symbols.decode bits with
      | .error e => .error e
      | .ok (s, bits) =>
        if s < endSymbol then tokens code fuel (out.push (UInt8.ofNat s)) bits
        else if s = endSymbol then .ok (out, bits)
        else match ClassTable.lengths.readValue (s - endSymbol - 1) bits with
          | .error e => .error e
          | .ok (length, bits) =>
            match code.distances.decode bits with
            | .error e => .error e
            | .ok (d, bits) =>
              match ClassTable.distances.readValue d bits with
              | .error e => .error e
              | .ok (distance, bits) => tokens code fuel (out.copy distance length) bits := rfl

end Inflate

namespace Deflate

theorem length_fieldBits (width n : Nat) : (Bits.fieldBits width n).length = width := by
  induction width generalizing n with
  | zero => rfl
  | succ w ih => rw [Bits.fieldBits, List.length_cons, ih]

theorem length_wordBits (width n : Nat) : (Bits.wordBits width n).length = width := by
  rw [Bits.wordBits, List.length_reverse, length_fieldBits]

theorem length_symbolWord (s : Nat) :
    7 ≤ (symbolWord s).length ∧ (symbolWord s).length ≤ 9 := by
  unfold symbolWord
  split
  · rw [length_wordBits]
    omega
  split
  · rw [length_wordBits]
    omega
  split
  · rw [length_wordBits]
    omega
  · rw [length_wordBits]
    omega

/-- The classes that are found have numbers below those of the fixed codes. -/
theorem class_lt {table : ClassTable} {least limit n : Nat}
    (h : ClassTable.Covers table least limit) (hleast : least ≤ n) (hlimit : n ≤ limit) : (table.classOf n).1 < table.length :=
  (List.getElem?_eq_some_iff.mp (ClassTable.classOf_spec h hleast hlimit).1).1

/-- One token is read from its bits, and the others are read behind it. -/
theorem tokens_tokenBits {t : Token} (ht : t.Sound) (fuel : Nat) (out : Window) (rest : Bits) :
    Inflate.tokens Inflate.fixedCode (fuel + 1) out (tokenBits t ++ rest) =
      Inflate.tokens Inflate.fixedCode fuel (out.add t) rest := by
  cases t with
  | literal b =>
    have hb : b.toNat < Inflate.endSymbol := b.toNat_lt
    have hsymbol : b.toNat < 288 := Nat.lt_trans b.toNat_lt (by decide)
    rw [tokenBits, Inflate.tokens_succ, decode_symbolWord hsymbol]
    dsimp only
    rw [if_pos hb, UInt8.ofNat_toNat]
    rfl
  | copy length distance =>
    obtain ⟨⟨hleast, hgreatest⟩, hnear, hfar⟩ := ht
    have hl : (ClassTable.lengths.classOf length).1 < 29 :=
      class_lt ClassTable.covers_lengths hleast hgreatest
    have hd : (ClassTable.distances.classOf distance).1 < 30 :=
      class_lt ClassTable.covers_distances hnear hfar
    have hread := ClassTable.readValue_classOf ClassTable.covers_lengths hleast hgreatest
    have hread' := ClassTable.readValue_classOf ClassTable.covers_distances hnear hfar
    rw [tokenBits]
    generalize ClassTable.lengths.classOf length = l at hl hread
    generalize ClassTable.distances.classOf distance = d at hd hread'
    have hend : Inflate.endSymbol = 256 := rfl
    rw [List.append_assoc, List.append_assoc, List.append_assoc, Inflate.tokens_succ,
      decode_symbolWord (by omega)]
    dsimp only
    have hindex : Inflate.endSymbol + 1 + l.1 - Inflate.endSymbol - 1 = l.1 := by omega
    rw [if_neg (by omega), if_neg (by omega), hindex, hread]
    dsimp only
    rw [decode_distanceWord (by omega)]
    dsimp only
    rw [hread']
    rfl

/-- The tokens of a block are read up to its end. -/
theorem tokens_flatMap {ts : List Token} (hts : ∀ t ∈ ts, t.Sound) (fuel : Nat)
    (hfuel : ts.length < fuel) (out : Window) (rest : Bits) :
    Inflate.tokens Inflate.fixedCode fuel out
        (ts.flatMap tokenBits ++ (symbolWord Inflate.endSymbol ++ rest)) =
      .ok (Token.expand out ts, rest) := by
  induction ts generalizing fuel out with
  | nil =>
    cases fuel with
    | zero => cases hfuel
    | succ fuel =>
      have hsymbol : Inflate.endSymbol < 288 := Nat.lt_of_sub_eq_succ rfl
      rw [List.flatMap_nil, List.nil_append, Inflate.tokens_succ, decode_symbolWord hsymbol]
      dsimp only
      rw [if_neg (Nat.lt_irrefl _), if_pos rfl]
      rfl
  | cons t ts ih =>
    cases fuel with
    | zero => cases hfuel
    | succ fuel =>
      rw [List.flatMap_cons, List.append_assoc, tokens_tokenBits (hts t List.mem_cons_self),
        ih (fun t ht => hts t (List.mem_cons_of_mem _ ht)) fuel (Nat.lt_of_succ_lt_succ hfuel)]
      rfl

theorem length_tokenBits_pos (t : Token) : 0 < (tokenBits t).length := by
  cases t with
  | literal b =>
    have := (length_symbolWord b.toNat).1
    show 0 < (symbolWord b.toNat).length
    omega
  | copy length distance =>
    have := (length_symbolWord
      (Inflate.endSymbol + 1 + (ClassTable.lengths.classOf length).1)).1
    rw [tokenBits]
    simp only [List.length_append]
    omega

theorem length_le_flatMap_tokenBits (ts : List Token) :
    ts.length ≤ (ts.flatMap tokenBits).length := by
  induction ts with
  | nil => exact Nat.le_refl _
  | cons t ts ih =>
    have := length_tokenBits_pos t
    rw [List.flatMap_cons, List.length_append, List.length_cons]
    omega

/-- The only block is read, and what follows it is left. -/
theorem blocks_blockBits {ts : List Token} (hts : ∀ t ∈ ts, t.Sound) (fuel : Nat) (rest : Bits) :
    Inflate.blocks (fuel + 1) #[] (blockBits ts ++ rest) = .ok (Token.expand #[] ts, rest) := by
  have htokens := tokens_flatMap hts
    ((ts.flatMap tokenBits ++ (symbolWord Inflate.endSymbol ++ rest)).length + 1) (by
      have := length_le_flatMap_tokenBits ts
      rw [List.length_append]
      omega) #[] rest
  unfold Inflate.blocks blockBits
  simp only [List.append_assoc]
  rw [Bits.field_fieldBits (by decide)]
  dsimp only
  rw [Bits.field_fieldBits (by decide)]
  dsimp only
  unfold Inflate.block
  rw [htokens]
  rfl

end Deflate

namespace Inflate

theorem unpack_append (a b : Bytes) : Bits.unpack (a ++ b) = Bits.unpack a ++ Bits.unpack b :=
  List.flatMap_append

/-- The reader takes what was written, and leaves what follows. -/
theorem read_write (data rest : Bytes) : read (Deflate.write data ++ rest) = .ok (data, rest) := by
  obtain ⟨k, hk, hunpack⟩ := Bits.unpack_pack (Deflate.blockBits (Token.ofBytes data))
  have hbits : Bits.unpack (Deflate.write data ++ rest) =
      Deflate.blockBits (Token.ofBytes data) ++ (List.replicate k false ++ Bits.unpack rest) := by
    rw [unpack_append, Deflate.write, hunpack, List.append_assoc]
  have hblocks := Deflate.blocks_blockBits (Token.sound_ofBytes data)
    (Bits.unpack (Deflate.write data ++ rest)).length (List.replicate k false ++ Bits.unpack rest)
  rw [← hbits] at hblocks
  unfold read
  dsimp only
  rw [hblocks]
  dsimp only
  -- Fewer than eight bits fill up the last byte, so whole bytes are what follows.
  have hleft : (List.replicate k false ++ Bits.unpack rest).length / 8 = rest.length := by
    rw [List.length_append, List.length_replicate, Bits.length_unpack]
    omega
  rw [hleft, Token.expand_ofBytes, List.length_append, Nat.add_sub_cancel, List.drop_left]

end Inflate

/-! ## 4. Members -/

namespace Gzip

theorem pass_append {count : Nat} {a : Bytes} (h : a.length = count) (b : Bytes) :
    pass count (a ++ b) = .ok b := by
  unfold pass
  rw [if_neg (by rw [List.length_append]; omega), ← h, List.drop_left]

theorem passHead_head (rest : Bytes) : passHead (head ++ rest) = .ok rest := by
  have hpass : pass 10 (head ++ rest) = .ok rest := pass_append rfl rest
  have hmark : (head ++ rest).take 3 = [0x1f, 0x8b, 8] := rfl
  have hflags : (head ++ rest).getD 3 0 = 0 := rfl
  have hclear : ∀ bit, (0 : UInt8).toNat.testBit bit = false := Nat.zero_testBit
  unfold passHead
  rw [hpass]
  simp only [hmark, hflags, hclear]
  rfl

theorem length_tail (data : Bytes) : (tail data).length = 8 := by
  rw [tail, List.length_append, Bytes.length_ofNatLittle, Bytes.length_ofNatLittle]

/-- Inflating undoes compressing, whatever follows. -/
theorem decompress_append (data rest : Bytes) : decompress (compress data ++ rest) = .ok data := by
  have hsplit : compress data ++ rest = head ++ (Deflate.write data ++ (tail data ++ rest)) := by
    simp only [compress, List.append_assoc]
  have htake : (tail data ++ rest).take 8 = tail data := by
    rw [← length_tail data, List.take_left]
  unfold decompress
  rw [hsplit, passHead_head]
  rw [Chaining.bind_of_ok rfl, Inflate.read_write]
  dsimp only
  rw [pass_append (length_tail data), htake]
  show (if tail data ≠ tail data then _ else _) = _
  rw [if_neg (fun h => h rfl)]
  rfl

theorem decompress_compress (data : Bytes) : decompress (compress data) = .ok data := by
  rw [← List.append_nil (compress data)]
  exact decompress_append data []

/-- The writer with the fixed codes. -/
def Writer.fixed : Writer := ⟨compress, decompress_compress⟩

end Gzip

/-! ## 5. Lengths -/

namespace Token

/-- How many bytes a token stands for. -/
def span : Token → Nat
  | .literal _ => 1
  | .copy length _ => length

theorem size_copy (out : Window) (distance length : Nat) :
    (out.copy distance length).size = out.size + length := by
  induction length generalizing out with
  | zero => rfl
  | succ length ih =>
    rw [Window.copy, ih, Array.size_push]
    omega

theorem size_expand (out : Window) (ts : List Token) :
    (expand out ts).size = out.size + (ts.map span).sum := by
  induction ts generalizing out with
  | nil => rfl
  | cons t ts ih =>
    have hadd : (out.add t).size = out.size + t.span := by
      cases t with
      | literal b => exact Array.size_push b
      | copy length distance => exact size_copy out distance length
    show (expand (out.add t) ts).size = _
    rw [ih, hadd, List.map_cons, List.sum_cons, Nat.add_assoc]

theorem sum_span_ofBytes (data : Bytes) : ((ofBytes data).map span).sum = data.length := by
  have h := size_expand #[] (ofBytes data)
  rw [← Array.length_toList, expand_ofBytes] at h
  exact (h.trans (Nat.zero_add _)).symm

end Token

namespace Deflate

theorem width_le {table : ClassTable} {least limit n : Nat} (bound : Nat)
    (h : ClassTable.Covers table least limit) (hleast : least ≤ n) (hlimit : n ≤ limit)
    (hbound : ∀ e ∈ table, e.2 ≤ bound) : (table.classOf n).2.2 ≤ bound :=
  hbound _ (List.mem_of_getElem? (ClassTable.classOf_spec h hleast hlimit).1)

/-- No token takes more than thirty-two bits for each three bytes. -/
theorem length_tokenBits_le {t : Token} (ht : t.Sound) :
    3 * (tokenBits t).length ≤ 32 * t.span := by
  cases t with
  | literal b =>
    have := (length_symbolWord b.toNat).2
    show 3 * (symbolWord b.toNat).length ≤ 32 * 1
    omega
  | copy length distance =>
    obtain ⟨⟨hleast, hgreatest⟩, hnear, hfar⟩ := ht
    have hl := width_le 5 ClassTable.covers_lengths hleast hgreatest (by decide)
    have hd := width_le 13 ClassTable.covers_distances hnear hfar (by decide)
    have hs := (length_symbolWord
      (Inflate.endSymbol + 1 + (ClassTable.lengths.classOf length).1)).2
    have hthree : 3 ≤ length := hleast
    rw [tokenBits]
    generalize ClassTable.lengths.classOf length = l at hl hs
    generalize ClassTable.distances.classOf distance = d at hd
    obtain ⟨l, lengthBase, lengthWidth⟩ := l
    obtain ⟨d, base, width⟩ := d
    dsimp only at hl hd hs
    simp only [List.length_append, length_fieldBits, distanceWord, length_wordBits, Token.span]
    omega

theorem length_flatMap_tokenBits_le {ts : List Token} (hts : ∀ t ∈ ts, t.Sound) :
    3 * (ts.flatMap tokenBits).length ≤ 32 * (ts.map Token.span).sum := by
  induction ts with
  | nil => exact Nat.le_refl _
  | cons t ts ih =>
    have hself := length_tokenBits_le (hts t List.mem_cons_self)
    have hmore := ih fun t ht => hts t (List.mem_cons_of_mem _ ht)
    rw [List.flatMap_cons, List.length_append, List.map_cons, List.sum_cons]
    omega

theorem length_write_le (data : Bytes) : 3 * (write data).length ≤ 4 * data.length + 9 := by
  obtain ⟨k, hk, hunpack⟩ : ∃ k < 8, Bits.unpack (write data) =
      blockBits (Token.ofBytes data) ++ List.replicate k false := Bits.unpack_pack _
  have hlength := congrArg List.length hunpack
  rw [Bits.length_unpack, List.length_append, List.length_replicate] at hlength
  have htokens := length_flatMap_tokenBits_le (Token.sound_ofBytes data)
  rw [Token.sum_span_ofBytes] at htokens
  have hend := (length_symbolWord Inflate.endSymbol).2
  simp only [blockBits, List.length_append, length_fieldBits] at hlength
  omega

end Deflate

namespace Gzip

/-- Compressing lengthens a byte string by a third and a few bytes at most. -/
theorem length_compress_le (data : Bytes) :
    3 * (compress data).length ≤ 4 * data.length + 63 := by
  have hwrite := Deflate.length_write_le data
  have hhead : head.length = 10 := rfl
  simp only [compress, List.length_append, hhead, length_tail]
  omega

end Gzip
end Metering
