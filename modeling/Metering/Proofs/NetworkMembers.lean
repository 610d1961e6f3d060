import Mathlib.Algebra.Ring.Nat
import Metering.Net.Network
import Metering.Proofs.AddressSpelling

/-!
Who is in the trusted network.

A network is spelled by an address, in a grammar that is looser than that of single addresses, and
the length of a prefix. Its members are the addresses of the same version that begin with the same
bits, wherever the network's own address lies among them. A caller whose address is not spelled, or
spells no member, is refused; an address of version 6 that stands for one of version 4 is no
exception.

Results:
1. `parse_eq_ok_iff`: which texts are networks; `spells_of_strict`: an address with a length is one.
2. `contains_iff_samePrefix`: membership bit by bit; `contains_iff_between`: the members are the
   addresses between the first one and the last one.
3. `check_eq_error_iff`: why a caller is refused.
4. `trusted_iff_samePrefix`: the three together, for every text of a network and every caller.
-/
namespace Metering

/-! ## 1. Texts of networks -/

namespace IpAddress

/-- How many bits an address has. -/
def width : IpAddress → Nat
  | v4 _ => 32
  | v6 _ => 128

/-- Two addresses are of one version and begin with the same bits, `length` of them. -/
def SamePrefix (length : Nat) : IpAddress → IpAddress → Prop
  | v4 a, v4 b => ∀ i < length, a.getMsbD i = b.getMsbD i
  | v6 a, v6 b => ∀ i < length, a.getMsbD i = b.getMsbD i
  | _, _ => False

instance (length : Nat) : (a b : IpAddress) → Decidable (SamePrefix length a b)
  | v4 a, v4 b => inferInstanceAs (Decidable (∀ i < length, a.getMsbD i = b.getMsbD i))
  | v6 a, v6 b => inferInstanceAs (Decidable (∀ i < length, a.getMsbD i = b.getMsbD i))
  | v4 _, v6 _ => .isFalse id
  | v6 _, v4 _ => .isFalse id

/-- Two addresses are of one version. -/
def SameVersion : IpAddress → IpAddress → Prop
  | v4 _, v4 _ => True
  | v6 _, v6 _ => True
  | _, _ => False

/-- An address as a whole number. -/
def number : IpAddress → Nat
  | v4 bits => bits.toNat
  | v6 bits => bits.toNat

end IpAddress

namespace Network

open IpAddress

/-- The address that a network is given by, which may be any of its members. -/
def address : Network → IpAddress
  | v4 bits _ => .v4 bits
  | v6 bits _ => .v6 bits

/-- The length of the prefix. -/
def length : Network → Nat
  | v4 _ length => length
  | v6 _ length => length

/-- The network of an address and a length. -/
def ofAddress : IpAddress → Nat → Network
  | .v4 bits, length => v4 bits length
  | .v6 bits, length => v6 bits length

/-- An address, a slash, and the length of a prefix that is no longer than the address. The length
has as many digits as the greatest one at most. -/
inductive Spells : List Char → Network → Prop
  | v4 {cs ds : List Char} {n length : Nat} :
      SpellsV4 grammar cs n → SpellsNumber 10 2 33 true ds length →
      Spells (cs ++ '/' :: ds) (.v4 (.ofNat 32 n) length)
  | v6 {cs ds : List Char} {n length : Nat} :
      SpellsV6 grammar cs n → SpellsNumber 10 3 129 true ds length →
      Spells (cs ++ '/' :: ds) (.v6 (.ofNat 128 n) length)

theorem whole_scanLength_iff {digits width length : Nat} {cs : List Char} :
    whole (scanLength digits width) cs = some length ↔
      ∃ ds, cs = '/' :: ds ∧ SpellsNumber 10 digits (width + 1) true ds length := by
  rw [whole_eq_some_iff]
  simp only [scanLength, Option.bind_eq_bind, Option.bind_eq_some_iff, scanChar_eq_some_iff]
  constructor
  · rintro ⟨slash, rfl, hnumber⟩
    obtain ⟨ds, hds, hspells⟩ := scanNumber_sound hnumber
    rw [List.append_nil] at hds
    exact ⟨ds, by rw [hds], hspells⟩
  · rintro ⟨ds, rfl, hspells⟩
    have hread := scanNumber_complete hspells (noDigitAhead_nil 10)
    rw [List.append_nil] at hread
    exact ⟨((), ds), rfl, hread⟩

/-- Digits and a slash have no colon, so a text of one version is not one of the other. -/
theorem not_v4_of_v6 {as bs ds es : List Char} {m n length : Nat} (h : SpellsV6 grammar as n)
    (hv4 : SpellsV4 grammar bs m) (hes : SpellsNumber 10 2 33 true es length) :
    as ++ '/' :: ds ≠ bs ++ '/' :: es := by
  intro heq
  have hcolon : ':' ∈ bs ++ '/' :: es := heq ▸ List.mem_append_left _ h.colon_mem
  rw [List.mem_append, List.mem_cons] at hcolon
  rcases hcolon with hbs | hslash | hes'
  · exact hv4.not_mem (by decide) (by decide) hbs
  · cases hslash
  · exact hes.not_mem (by decide) hes'

theorem ofText?_eq_some_iff {s : String} {n : Network} :
    ofText? s = some n ↔ Spells s.toList n := by
  have hread {v4 v6 : Option Network} (h : v4.or v6 = some n) : v4 = some n ∨ v6 = some n := by
    cases v4 with
    | none => exact .inr h
    | some m => exact .inl h
  unfold ofText?
  simp only [Option.bind_eq_bind, Option.pure_def]
  constructor
  · intro h
    rcases hread h with hv4 | hv6
    · simp only [Option.bind_eq_some_iff, whole_scanLength_iff, Option.some.injEq] at hv4
      obtain ⟨a, ha, length, ⟨ds, hds, hlength⟩, rfl⟩ := hv4
      obtain ⟨cs, hcs, hspells⟩ := scanV4_sound ha
      rw [hcs, hds]
      exact .v4 hspells hlength
    · simp only [Option.bind_eq_some_iff, whole_scanLength_iff, Option.some.injEq] at hv6
      obtain ⟨a, ha, length, ⟨ds, hds, hlength⟩, rfl⟩ := hv6
      obtain ⟨cs, hcs, hspells⟩ := scanV6_sound (Nat.zero_le 1) ha
      rw [hcs, hds]
      exact .v6 hspells hlength
  · intro h
    generalize hs : s.toList = text at h
    cases h with
    | @v4 cs ds m length hspells hlength =>
      have hscan := scanV4_complete hspells ((Stops.slash ds).noDigit.mono (by decide))
      have hwhole : whole (scanLength 2 32) ('/' :: ds) = some length :=
        whole_scanLength_iff.mpr ⟨ds, rfl, hlength⟩
      simp only [hscan, Option.bind_some, hwhole, Option.some_or]
    | @v6 cs ds m length hspells hlength =>
      have hscan := scanV6_complete hspells (Stops.slash ds)
      have hwhole : whole (scanLength 3 128) ('/' :: ds) = some length :=
        whole_scanLength_iff.mpr ⟨ds, rfl, hlength⟩
      have hnone : ((scanV4 grammar (cs ++ '/' :: ds)).bind fun a =>
          (whole (scanLength 2 32) a.2).bind fun length =>
            some (Network.v4 (.ofNat 32 a.1) length)) = none := by
        refine Option.eq_none_iff_forall_ne_some.mpr fun m' hm' => ?_
        simp only [Option.bind_eq_some_iff, whole_scanLength_iff] at hm'
        obtain ⟨a, ha, length', ⟨es, hes, hlength'⟩, -⟩ := hm'
        obtain ⟨bs, hbs, hv4⟩ := scanV4_sound ha
        rw [hes] at hbs
        exact not_v4_of_v6 hspells hv4 hlength' hbs
      simp only [hnone, hscan, Option.bind_some, hwhole, Option.none_or]

theorem parse_eq_ok_iff {s : String} {n : Network} :
    parse s = .ok n ↔ Spells (Text.trim s).toList n := by
  rw [← ofText?_eq_some_iff]
  unfold parse
  cases ofText? (Text.trim s) with
  | none => exact ⟨fun h => (nomatch h), fun h => (nomatch h)⟩
  | some m => rw [Except.ok.injEq, Option.some.injEq]

theorem parse_of_not_spells {s : String} (h : ∀ n, ¬ Spells (Text.trim s).toList n) :
    parse s = .error (.invalid (.networkText s syntaxReason)) := by
  have hnone : ofText? (Text.trim s) = none :=
    Option.eq_none_iff_forall_ne_some.mpr fun n hn => h n (ofText?_eq_some_iff.mp hn)
  unfold parse
  rw [hnone]

/-- An address that is spelled strictly, with any length up to its own, is a network. -/
theorem spells_of_strict {cs : List Char} {ip : IpAddress} (h : IpAddress.Spells strict cs ip)
    {length : Nat} (hlength : length ≤ ip.width) :
    Spells (cs ++ '/' :: Digits.toDigits length) (ofAddress ip length) := by
  have hdigits {most limit : Nat} (hmost : 0 < most) (hlt : length < limit)
      (hlimit : limit ≤ 10 ^ most) :
      SpellsNumber 10 most limit true (Digits.toDigits length) length := by
    have hwidth : (Digits.toDigits length).length ≤ most :=
      (Digits.width_le_iff hmost).mpr (Nat.lt_of_lt_of_le hlt hlimit)
    exact ⟨Digits.toDigits_ne_nil length,
      fun c hc => isSome_digitValue?_of_mem (by decide) (by decide) hc, hwidth,
      foldl_toDigits (by decide) (by decide) length, hlt, fun hfalse => nomatch hfalse⟩
  cases h with
  | v4 hv4 => exact .v4 (hv4.loosen 0) (hdigits (by decide) (Nat.lt_succ_of_le hlength) (by decide))
  | v6 hv6 =>
    exact .v6 (hv6.loosen (Nat.zero_le _))
      (hdigits (by decide) (Nat.lt_succ_of_le hlength) (by decide))

theorem Spells.length_le {cs : List Char} {n : Network} (h : Spells cs n) :
    n.length ≤ n.address.width := by
  cases h with
  | v4 _ hlength => exact Nat.le_of_lt_succ hlength.lt
  | v6 _ hlength => exact Nat.le_of_lt_succ hlength.lt

/-! ## 2. Members -/

/-- What is left of a number without its last bits are its first bits. -/
theorem shiftRight_eq_iff_getMsbD {w length : Nat} (hle : length ≤ w) (x y : BitVec w) :
    x >>> (w - length) = y >>> (w - length) ↔ ∀ i < length, x.getMsbD i = y.getMsbD i := by
  have hbit (z : BitVec w) {i : Nat} (hi : i < length) :
      (z >>> (w - length)).getLsbD (length - 1 - i) = z.getMsbD i := by
    have hplace : w - length + (length - 1 - i) = w - 1 - i := by omega
    rw [BitVec.getLsbD_ushiftRight, hplace, BitVec.getMsbD_eq_getLsbD,
      decide_eq_true (Nat.lt_of_lt_of_le hi hle), Bool.true_and]
  constructor
  · intro h i hi
    rw [← hbit x hi, h, hbit y hi]
  · intro h
    refine BitVec.eq_of_getLsbD_eq fun j _ => ?_
    by_cases hj : j < length
    · have hplace : length - 1 - (length - 1 - j) = j := by omega
      have hfirst := h (length - 1 - j) (by omega)
      rwa [← hbit x (by omega), ← hbit y (by omega), hplace] at hfirst
    · -- Bits that have been moved in are zero.
      rw [BitVec.getLsbD_ushiftRight, BitVec.getLsbD_ushiftRight,
        BitVec.getLsbD_of_ge x _ (by omega), BitVec.getLsbD_of_ge y _ (by omega)]

/-- Numbers agree without their last `k` bits if one is in the run of `2 ^ k` numbers around the
other. -/
theorem shiftRight_eq_iff_between {w k : Nat} (x y : BitVec w) :
    x >>> k = y >>> k ↔
      x.toNat / 2 ^ k * 2 ^ k ≤ y.toNat ∧ y.toNat < x.toNat / 2 ^ k * 2 ^ k + 2 ^ k := by
  have hpos : 0 < 2 ^ k := Nat.two_pow_pos k
  have hy := Nat.div_add_mod' y.toNat (2 ^ k)
  have hmod := Nat.mod_lt y.toNat hpos
  rw [← BitVec.toNat_inj, BitVec.toNat_ushiftRight, BitVec.toNat_ushiftRight,
    Nat.shiftRight_eq_div_pow, Nat.shiftRight_eq_div_pow]
  constructor
  · intro h
    rw [h]
    omega
  · rintro ⟨hlow, hhigh⟩
    refine (Nat.div_eq_of_lt_le hlow ?_).symm
    rwa [Nat.add_mul, Nat.one_mul]

/-- A network with a prefix no longer than its address has the members that begin as that address
does. -/
theorem contains_iff_samePrefix {n : Network} (h : n.length ≤ n.address.width) (ip : IpAddress) :
    n.contains ip = true ↔ SamePrefix n.length n.address ip := by
  cases n with
  | v4 net length =>
    cases ip with
    | v4 bits => exact contains_v4_iff.trans (shiftRight_eq_iff_getMsbD h net bits)
    | v6 bits => exact ⟨fun hmember => (nomatch hmember), fun hsame => hsame.elim⟩
  | v6 net length =>
    cases ip with
    | v4 bits => exact ⟨fun hmember => (nomatch hmember), fun hsame => hsame.elim⟩
    | v6 bits => exact contains_v6_iff.trans (shiftRight_eq_iff_getMsbD h net bits)

/-- How many addresses a network has. -/
def size (n : Network) : Nat := 2 ^ (n.address.width - n.length)

/-- The number of the first address of a network. -/
def first (n : Network) : Nat := n.address.number / n.size * n.size

/-- The members of a network stand in a row. -/
theorem contains_iff_between (n : Network) (ip : IpAddress) :
    n.contains ip = true ↔
      SameVersion n.address ip ∧ n.first ≤ ip.number ∧ ip.number < n.first + n.size := by
  cases n with
  | v4 net length =>
    cases ip with
    | v4 bits =>
      rw [contains_v4_iff, shiftRight_eq_iff_between]
      exact ⟨fun h => ⟨trivial, h⟩, fun h => h.2⟩
    | v6 bits => exact ⟨fun hmember => (nomatch hmember), fun h => h.1.elim⟩
  | v6 net length =>
    cases ip with
    | v4 bits => exact ⟨fun hmember => (nomatch hmember), fun h => h.1.elim⟩
    | v6 bits =>
      rw [contains_v6_iff, shiftRight_eq_iff_between]
      exact ⟨fun h => ⟨trivial, h⟩, fun h => h.2⟩

/-! ## 3. Callers -/

/-- Why a caller is refused: the address is missing, or has nothing but blanks, or spells nothing,
or spells no member. -/
inductive Refuses (n : Network) : Option String → Cause → Prop
  | missing : Refuses n none .missingAddress
  | blank {raw : String} : Text.trim raw = "" → Refuses n (some raw) .missingAddress
  | unreadable {raw : String} : Text.trim raw ≠ "" →
      (∀ ip, ¬ IpAddress.Spells strict (Text.trim raw).toList ip) →
      Refuses n (some raw) (.badAddress (Text.trim raw))
  | outside {raw : String} {ip : IpAddress} : IpAddress.Spells strict (Text.trim raw).toList ip →
      ¬ SamePrefix n.length n.address ip →
      Refuses n (some raw) (.outsideNetwork ip.text n.text)

/-- Nothing but blanks spells no address. -/
theorem ne_empty_of_spells {s : String} {ip : IpAddress} (h : IpAddress.Spells strict s.toList ip) :
    s ≠ "" := by
  rintro rfl
  have hread := IpAddress.ofText?_eq_some_iff.mpr h
  have hempty : IpAddress.ofText? "" = none := by decide
  rw [hempty] at hread
  cases hread

theorem check_blank {n : Network} {raw : String} (h : Text.trim raw = "") :
    n.check (some raw) = .error (.forbidden .missingAddress) := by
  unfold check
  rw [Option.map_some, h]
  rfl

/-- What becomes of a caller that says something. -/
theorem check_some (n : Network) {raw : String} (h : Text.trim raw ≠ "") :
    n.check (some raw) =
      match IpAddress.ofText? (Text.trim raw) with
      | none => .error (.forbidden (.badAddress (Text.trim raw)))
      | some ip =>
        if n.contains ip then .ok () else .error (.forbidden (.outsideNetwork ip.text n.text)) := by
  unfold check
  rw [Option.map_some]
  split
  next hnone => cases hnone
  next hblank => exact absurd (Option.some.inj hblank) h
  next raw' _ hraw =>
    obtain rfl := Option.some.inj hraw
    rfl

theorem check_of_spells {n : Network} {raw : String} {ip : IpAddress}
    (h : IpAddress.Spells strict (Text.trim raw).toList ip) :
    n.check (some raw) =
      if n.contains ip then .ok () else .error (.forbidden (.outsideNetwork ip.text n.text)) := by
  rw [check_some n (ne_empty_of_spells h), IpAddress.ofText?_eq_some_iff.mpr h]

theorem check_eq_ok_iff {n : Network} {given : Option String} :
    n.check given = .ok () ↔ ∃ raw ip, given = some raw ∧
      IpAddress.Spells strict (Text.trim raw).toList ip ∧ n.contains ip = true := by
  constructor
  · intro h
    cases given with
    | none => cases h
    | some raw =>
      by_cases hblank : Text.trim raw = ""
      · rw [check_blank hblank] at h
        cases h
      · rw [check_some n hblank] at h
        split at h
        next => cases h
        next ip hip =>
          split at h
          next hmember => exact ⟨raw, ip, rfl, IpAddress.ofText?_eq_some_iff.mp hip, hmember⟩
          next => cases h
  · rintro ⟨raw, ip, rfl, hspells, hmember⟩
    rw [check_of_spells hspells, if_pos hmember]

theorem check_eq_error_iff {n : Network} (hn : n.length ≤ n.address.width) {given : Option String}
    {f : Failure} :
    n.check given = .error f ↔ ∃ cause, n.Refuses given cause ∧ f = .forbidden cause := by
  constructor
  · intro h
    cases given with
    | none =>
      obtain rfl := Except.error.inj h
      exact ⟨_, .missing, rfl⟩
    | some raw =>
      by_cases hblank : Text.trim raw = ""
      · rw [check_blank hblank] at h
        obtain rfl := Except.error.inj h
        exact ⟨_, .blank hblank, rfl⟩
      · rw [check_some n hblank] at h
        split at h
        next hnone =>
          obtain rfl := Except.error.inj h
          refine ⟨_, .unreadable hblank fun ip hip => ?_, rfl⟩
          cases hnone.symm.trans (IpAddress.ofText?_eq_some_iff.mpr hip)
        next ip hip =>
          split at h
          next => cases h
          next hmember =>
            obtain rfl := Except.error.inj h
            exact ⟨_, .outside (IpAddress.ofText?_eq_some_iff.mp hip)
              fun hsame => hmember ((contains_iff_samePrefix hn ip).mpr hsame), rfl⟩
  · rintro ⟨cause, hrefuses, rfl⟩
    cases hrefuses with
    | missing => rfl
    | blank hblank => exact check_blank hblank
    | unreadable hblank hnone =>
      have hread : IpAddress.ofText? (Text.trim _) = none :=
        Option.eq_none_iff_forall_ne_some.mpr fun ip hip =>
          hnone ip (IpAddress.ofText?_eq_some_iff.mp hip)
      rw [check_some n hblank, hread]
    | outside hspells hother =>
      rw [check_of_spells hspells, if_neg fun hmember =>
        hother ((contains_iff_samePrefix hn _).mp hmember)]

/-- A text is taken as a network exactly if, without the blanks at its ends, it is an address, a
slash and a length that is no longer than the address; the address need not end in zeros. Then a
caller passes exactly if what it says, without the blanks at its ends, is an address of the same
version that begins with the same bits, as many as the length says. Everybody else is refused, and
told why: with no address or a blank one, with a text that is no address, and with an address that
is no member, such as any of version 6 where the network is of version 4. -/
theorem trusted_iff_samePrefix (s : String) :
    (∀ n, parse s = .ok n ↔ Spells (Text.trim s).toList n) ∧
    ((∀ n, ¬ Spells (Text.trim s).toList n) →
      parse s = .error (.invalid (.networkText s syntaxReason))) ∧
    (∀ cs ip length, IpAddress.Spells strict cs ip → length ≤ ip.width →
      (Text.trim s).toList = cs ++ '/' :: Digits.toDigits length →
      parse s = .ok (ofAddress ip length)) ∧
    ∀ n, parse s = .ok n → ∀ given : Option String,
      n.length ≤ n.address.width ∧
      (n.check given = .ok () ↔ ∃ raw ip, given = some raw ∧
        IpAddress.Spells strict (Text.trim raw).toList ip ∧ SamePrefix n.length n.address ip) ∧
      (∀ f, n.check given = .error f ↔ ∃ cause, n.Refuses given cause ∧ f = .forbidden cause) ∧
      ∀ bits length, n = v4 bits length → ∀ raw mapped, given = some raw →
        IpAddress.Spells strict (Text.trim raw).toList (.v6 mapped) →
        n.check given = .error (.forbidden (.outsideNetwork (IpAddress.v6 mapped).text n.text)) := by
  refine ⟨fun n => parse_eq_ok_iff, parse_of_not_spells, ?_, ?_⟩
  · intro cs ip length hspells hlength htext
    rw [parse_eq_ok_iff, htext]
    exact spells_of_strict hspells hlength
  · intro n hparse given
    have hlength := (parse_eq_ok_iff.mp hparse).length_le
    refine ⟨hlength, ?_, fun f => check_eq_error_iff hlength, ?_⟩
    · rw [check_eq_ok_iff]
      simp only [contains_iff_samePrefix hlength]
    · rintro bits length rfl raw mapped rfl hspells
      rw [check_of_spells hspells]
      rfl

/-- A network that is given by one of its later members, with blanks around it, and three callers:
one of its members, the address after its last one, and the form of a member in version 6. -/
theorem trusted_iff_samePrefix_offset :
    parse " 10.1.2.3/15\n" = .ok (v4 0x0a010203 15) ∧
    (v4 0x0a010203 15).check (some "10.0.255.7 ") = .ok () ∧
    (v4 0x0a010203 15).check (some "10.2.0.0") =
      .error (.forbidden (.outsideNetwork "10.2.0.0" "10.1.2.3/15")) ∧
    (v4 0x0a010203 15).check (some "::ffff:10.1.2.3") =
      .error (.forbidden (.outsideNetwork "::ffff:10.1.2.3" "10.1.2.3/15")) := by
  have hspells : IpAddress.Spells strict "10.1.2.3".toList (.v4 0x0a010203) :=
    IpAddress.ofText?_eq_some_iff.mp (by decide)
  obtain ⟨-, -, hparse, hcheck⟩ := trusted_iff_samePrefix " 10.1.2.3/15\n"
  have hnet : parse " 10.1.2.3/15\n" = .ok (v4 0x0a010203 15) :=
    hparse "10.1.2.3".toList (.v4 0x0a010203) 15 hspells (by decide) (by decide)
  have hmember : IpAddress.Spells strict (Text.trim "10.0.255.7 ").toList (.v4 0x0a00ff07) :=
    IpAddress.ofText?_eq_some_iff.mp (by decide)
  have hafter : IpAddress.Spells strict (Text.trim "10.2.0.0").toList (.v4 0x0a020000) :=
    IpAddress.ofText?_eq_some_iff.mp (by decide)
  have hmapped : IpAddress.Spells strict (Text.trim "::ffff:10.1.2.3").toList
      (.v6 0xffff0a010203) :=
    IpAddress.ofText?_eq_some_iff.mp (by decide)
  refine ⟨hnet, ?_, ?_, ?_⟩
  · exact (hcheck _ hnet _).2.1.mpr ⟨_, _, rfl, hmember, by decide⟩
  · exact ((hcheck _ hnet _).2.2.1 _).mpr ⟨_, .outside hafter (by decide), by decide⟩
  · rw [(hcheck _ hnet _).2.2.2 _ _ rfl _ _ rfl hmapped]
    decide

end Network
end Metering
